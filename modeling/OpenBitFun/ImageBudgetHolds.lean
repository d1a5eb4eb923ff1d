import OpenBitFun.ImageBudgetTurns

/-!
# The budget holds

The budget counts the images that it recognises, and Anthropic's format sends every image there
is. The budget holds on the wire exactly if what is left has no other images, or if all images fit.
-/

namespace OpenBitFun

open List

namespace Json

mutual

/-- A value with zero for every number. -/
def Value.eraseNumbers : Value → Value
  | .number _ => .number (.int 0)
  | .array items => .array (eraseNumbersAll items)
  | .object fields => .object (eraseNumbersFields fields)
  | .null => .null
  | .bool b => .bool b
  | .string s => .string s

/-- Items with zero for every number. -/
def eraseNumbersAll : List Value → List Value
  | [] => []
  | item :: items => item.eraseNumbers :: eraseNumbersAll items

/-- Fields with zero for every number. -/
def eraseNumbersFields : List (String × Value) → List (String × Value)
  | [] => []
  | (key, value) :: fields => (key, value.eraseNumbers) :: eraseNumbersFields fields

end

theorem eraseNumbersAll_eq_map (items : List Value) :
    eraseNumbersAll items = items.map Value.eraseNumbers := by
  induction items with
  | nil => rfl
  | cons item items ih => rw [eraseNumbersAll, ih, map_cons]

@[simp] theorem get_eraseNumbers (v : Value) (key : String) :
    v.eraseNumbers.get key = (v.get key).map Value.eraseNumbers := by
  cases v with
  | object fields =>
    rw [Value.eraseNumbers, Value.get, Value.get]
    induction fields with
    | nil => rfl
    | cons field fields ih =>
      obtain ⟨k, x⟩ := field
      rw [eraseNumbersFields, lookup, lookup]
      split
      · rfl
      · exact ih
  | null => rfl
  | bool => rfl
  | number => rfl
  | string => rfl
  | array => rfl

@[simp] theorem asStr_eraseNumbers (v : Value) : v.eraseNumbers.asStr = v.asStr := by
  cases v with
  | null => rfl
  | bool => rfl
  | number => rfl
  | string => rfl
  | array => rfl
  | object => rfl

/-- A string in a field is the same with and without numbers. -/
@[simp] theorem bind_asStr_eraseNumbers (v : Option Value) :
    (v.map Value.eraseNumbers).bind Value.asStr = v.bind Value.asStr := by
  cases v with
  | none => rfl
  | some v => exact asStr_eraseNumbers v

end Json

namespace ImageBudget

open Json MessageConverters

/-! ## Numbers -/

section Numbers

variable {items items' : List Value}

theorem imageUrl_eraseNumbers (v : Option Value) :
    imageUrl (v.map Value.eraseNumbers) = imageUrl v := by
  cases v with
  | none => rfl
  | some v => simp [imageUrl]

theorem inlineMedia_eraseNumbers (v : Value) : inlineMedia v.eraseNumbers = inlineMedia v := by
  rw [inlineMedia, inlineMedia, get_eraseNumbers, get_eraseNumbers, ← Option.map_or]
  cases (v.get "inline_data").or (v.get "inlineData") with
  | none => rfl
  | some data =>
    simp only [Option.map_some, Option.bind_some, get_eraseNumbers, bind_asStr_eraseNumbers]
    rw [← Option.map_or, bind_asStr_eraseNumbers]

/-- An image is one whatever numbers it has. -/
@[simp] theorem isImagePart_eraseNumbers (v : Value) :
    isImagePart v.eraseNumbers = isImagePart v := by
  have hsource : ∀ source : Value, isImageSource source.eraseNumbers = isImageSource source := by
    intro source
    simp [isImageSource, imageUrl_eraseNumbers]
  have hany : ∀ source : Option Value,
      (source.map Value.eraseNumbers).any isImageSource = source.any isImageSource := by
    intro source
    cases source with
    | none => rfl
    | some source => exact hsource source
  have htype : typeOf v.eraseNumbers = typeOf v := by simp [typeOf]
  rw [isImagePart, isImagePart, htype, inlineMedia_eraseNumbers]
  simp only [get_eraseNumbers, imageUrl_eraseNumbers, bind_asStr_eraseNumbers, hany]

@[simp] theorem isContentPart_eraseNumbers (v : Value) :
    isContentPart v.eraseNumbers = isContentPart v := by
  simp [isContentPart, typeOf, textOf, inlineMedia_eraseNumbers]

mutual

theorem wireImages_eraseNumbers : ∀ v : Value, wireImages v.eraseNumbers = wireImages v
  | .array items => by
    rw [Value.eraseNumbers, wireImages, wireImages, wireImagesAll_eraseNumbers items]
  | .object fields => by
    have himage := isImagePart_eraseNumbers (.object fields)
    rw [Value.eraseNumbers] at himage
    rw [Value.eraseNumbers, wireImages, wireImages, himage, wireImagesFields_eraseNumbers fields]
  | .number _ => rfl
  | .null => rfl
  | .bool _ => rfl
  | .string _ => rfl

theorem wireImagesAll_eraseNumbers :
    ∀ items : List Value, wireImagesAll (eraseNumbersAll items) = wireImagesAll items
  | [] => rfl
  | item :: items => by
    rw [eraseNumbersAll, wireImagesAll, wireImagesAll, wireImages_eraseNumbers item,
      wireImagesAll_eraseNumbers items]

theorem wireImagesFields_eraseNumbers :
    ∀ fields : List (String × Value),
      wireImagesFields (eraseNumbersFields fields) = wireImagesFields fields
  | [] => rfl
  | (_, value) :: fields => by
    rw [eraseNumbersFields, wireImagesFields, wireImagesFields, wireImages_eraseNumbers value,
      wireImagesFields_eraseNumbers fields]

end

/-- Arrays that differ in numbers only have the same parts for the budget. -/
theorem same_of_eraseNumbers (h : eraseNumbersAll items = eraseNumbersAll items') :
    items.all isContentPart = items'.all isContentPart ∧
      items.countP isImagePart = items'.countP isImagePart ∧
      wireImagesAll items = wireImagesAll items' := by
  have hall : ∀ l : List Value, l.all isContentPart = (eraseNumbersAll l).all isContentPart := by
    intro l
    rw [eraseNumbersAll_eq_map, all_map]
    exact congrArg _ (funext fun v => (isContentPart_eraseNumbers v).symm)
  have hcount : ∀ l : List Value, l.countP isImagePart =
      (eraseNumbersAll l).countP isImagePart := by
    intro l
    rw [eraseNumbersAll_eq_map, countP_map]
    exact congrFun (congrArg _ (funext fun v => (isImagePart_eraseNumbers v).symm)) l
  refine ⟨?_, ?_, ?_⟩
  · rw [hall, h, ← hall]
  · rw [hcount, h, ← hcount]
  · rw [← wireImagesAll_eraseNumbers items, h, wireImagesAll_eraseNumbers]

end Numbers

/-! ## What messages keep -/

variable (fromStr : String → Option Value) (modelName : String)

/-- How many images each message keeps: those of newer messages come first. -/
def keeps (remaining : ℕ) : List Message → List ℕ
  | [] => []
  | msg :: msgs =>
    min (countedImages fromStr msg) (remaining - totalImages fromStr msgs) :: keeps remaining msgs

/-- A message that keeps some of its images. -/
def keptMessage (msg : Message) (keep : ℕ) : Message :=
  if countedImages fromStr msg ≤ keep then msg else withKept fromStr msg keep

/-- What `project` does to a message of which `keep` images stay. -/
structure KeepsImages (msg : Message) (keep : ℕ) (msg' : Message) : Prop where
  /-- No more images stay than there are. -/
  le : keep ≤ countedImages fromStr msg
  /-- A message whose images stay is not changed. -/
  fits : keep = countedImages fromStr msg → msg' = msg
  /-- Only the content and the attachments are changed. -/
  same : msg' = { msg with
    content := msg'.content
    toolImageAttachments := msg'.toolImageAttachments }
  /-- A tool keeps its first images, and its text has a note. -/
  tool : msg.role = "tool" → keep < countedImages fromStr msg →
    msg'.toolImageAttachments.getD [] = (msg.toolImageAttachments.getD []).take keep ∧
      msg'.content = some (msg.content.getD "" ++ omittedText keep (countedImages fromStr msg))
  /-- A user keeps the first images and all other parts in order, and a note comes last. -/
  user : msg.role ≠ "tool" → keep < countedImages fromStr msg →
    msg'.toolImageAttachments = msg.toolImageAttachments ∧
      ∃ parts kept, msg.content.bind (arrayOf fromStr) = some parts ∧
        kept.Sublist parts ∧
        kept.filter isImagePart = (parts.filter isImagePart).take keep ∧
        kept.filter (fun part => !isImagePart part) =
          parts.filter (fun part => !isImagePart part) ∧
        msg'.content = some (Value.array
          (kept ++ [omittedPart keep (countedImages fromStr msg)])).render

/-- Messages with the images that stay: an older message keeps some only if all newer ones do. -/
inductive Projected : List Message → List ℕ → List Message → Prop
  | nil : Projected [] [] []
  | cons {msg msg' : Message} {keep : ℕ} {msgs msgs' : List Message} {keeps : List ℕ} :
    KeepsImages fromStr msg keep msg' → (0 < keep → keeps = msgs.map (countedImages fromStr)) →
      Projected msgs keeps msgs' → Projected (msg :: msgs) (keep :: keeps) (msg' :: msgs')

/-- The budget holds: what is left of the images is projected, unchanged where all fit, and no
format sends more than `limit` images. -/
def BudgetHolds (messages : List Message) (limit : ℕ) : Prop :=
  ∃ keeps messages', project fromStr messages (some limit) = .ok messages' ∧
    Projected fromStr messages keeps messages' ∧
    keeps.sum = min limit (totalImages fromStr messages) ∧
    (totalImages fromStr messages ≤ limit → messages' = messages) ∧
    project fromStr messages' (some limit) = .ok messages' ∧
    ∀ format : Format, formatImages format (format.convert fromStr modelName messages') ≤ limit

/-- Of the parts of an array with its first `keep` images, each image is just one, and nothing else
has any. -/
def PlainParts (keep : ℕ) (parts : List Value) : Prop :=
  (∀ part ∈ (parts.filter isImagePart).take keep, wireImages part = 1) ∧
    ∀ part ∈ parts, isImagePart part = false → wireImages part = 0

/-- A user has no images but those that the budget counts. -/
def PlainContent (msg : Message) (keep : ℕ) : Prop :=
  msg.role = "user" → match msg.content.bind (arrayOf fromStr) with
    | some parts =>
      if parts.all isContentPart then PlainParts keep parts else wireImagesAll parts = 0
    | none => True

/-- What is relied on of the parser. -/
structure ReadsBack : Prop where
  /-- An empty text is no JSON. -/
  empty : fromStr "" = none
  /-- An array that was read, and some items of which are written again with a text, is read back
  up to the digits of numbers. -/
  written : ∀ text items, fromStr text = some (.array items) → ∀ kept : List Value,
    kept.Sublist items → ∀ note, ∃ items',
      fromStr (Value.array (kept ++ [textPart "text" note])).render = some (.array items') ∧
        eraseNumbersAll items' = eraseNumbersAll (kept ++ [textPart "text" note])

variable {fromStr modelName}

theorem projectAll_fst (remaining : ℕ) (messages : List Message) :
    (projectAll fromStr remaining messages).1 =
      List.zipWith (keptMessage fromStr) messages (keeps fromStr remaining messages) := by
  induction messages with
  | nil => rfl
  | cons msg msgs ih =>
    rw [projectAll, projectMessage_eq, keeps, zipWith_cons_cons, projectAll_snd, ← ih]
    have hkept : (if countedImages fromStr msg ≤ remaining - totalImages fromStr msgs then msg
        else withKept fromStr msg (remaining - totalImages fromStr msgs)) =
          keptMessage fromStr msg
            (min (countedImages fromStr msg) (remaining - totalImages fromStr msgs)) := by
      rw [keptMessage]
      by_cases hle : countedImages fromStr msg ≤ remaining - totalImages fromStr msgs
      · rw [if_pos hle, min_eq_left hle, if_pos (Nat.le_refl _)]
      · rw [if_neg hle, min_eq_right (by omega), if_neg hle]
    simp only [hkept]

theorem sum_keeps (remaining : ℕ) (messages : List Message) :
    (keeps fromStr remaining messages).sum = min remaining (totalImages fromStr messages) := by
  induction messages with
  | nil => simp [keeps, totalImages]
  | cons msg msgs ih =>
    have htotal : totalImages fromStr (msg :: msgs) =
        countedImages fromStr msg + totalImages fromStr msgs := by
      rw [totalImages, map_cons, sum_cons, totalImages]
    rw [keeps, sum_cons, ih, htotal]
    omega

theorem keeps_of_le {remaining : ℕ} {messages : List Message}
    (h : totalImages fromStr messages ≤ remaining) :
    keeps fromStr remaining messages = messages.map (countedImages fromStr) := by
  induction messages with
  | nil => rfl
  | cons msg msgs ih =>
    have htotal : totalImages fromStr (msg :: msgs) =
        countedImages fromStr msg + totalImages fromStr msgs := by
      rw [totalImages, map_cons, sum_cons, totalImages]
    rw [keeps, map_cons, ih (by omega), min_eq_left (by omega)]

/-- A user's counted images are those of a recognised array. -/
theorem parts_of_counted {msg : Message} (hnot : msg.role ≠ "tool")
    (hpos : 0 < countedImages fromStr msg) :
    msg.role = "user" ∧ ∃ parts, msg.content.bind (arrayOf fromStr) = some parts ∧
      parts.all isContentPart ∧ countedImages fromStr msg = parts.countP isImagePart := by
  rw [countedImages, if_neg hnot] at hpos ⊢
  split at hpos
  · next huser =>
    rw [if_pos huser]
    refine ⟨huser, ?_⟩
    cases hparts : msg.content.bind (arrayOf fromStr) with
    | none => simp [hparts] at hpos
    | some parts =>
      simp only [hparts] at hpos ⊢
      split at hpos
      · next hall =>
        rw [if_pos hall]
        exact ⟨parts, rfl, hall, rfl⟩
      · cases hpos
  · cases hpos

/-- **One message** that keeps some of its images. -/
theorem keepsImages_keptMessage {msg : Message} {keep : ℕ}
    (hle : keep ≤ countedImages fromStr msg) :
    KeepsImages fromStr msg keep (keptMessage fromStr msg keep) where
  le := hle
  fits := fun heq => by rw [keptMessage, if_pos heq.ge]
  same := by
    rw [keptMessage]
    split
    · rfl
    · rw [withKept]
      split
      · rfl
      · rfl
  tool := fun htool hlt => by
    rw [keptMessage, if_neg (Nat.not_le_of_lt hlt), withKept, if_pos htool]
    refine ⟨?_, rfl⟩
    simp only
    split
    · next hempty => exact (isEmpty_iff.1 hempty).symm
    · rfl
  user := fun hnot hlt => by
    obtain ⟨-, parts, hparts, -, -⟩ := parts_of_counted hnot (Nat.zero_lt_of_lt hlt)
    rw [keptMessage, if_neg (Nat.not_le_of_lt hlt), withKept, if_neg hnot]
    refine ⟨rfl, parts, retainImages keep 0 parts, hparts, retainImages_sublist keep 0 parts,
      filter_retainImages keep 0 parts, filter_not_retainImages keep 0 parts, ?_⟩
    simp [hparts]

/-- **All messages**: newer ones keep their images first. -/
theorem projected_keeps (remaining : ℕ) (messages : List Message) :
    Projected fromStr messages (keeps fromStr remaining messages)
      (projectAll fromStr remaining messages).1 := by
  rw [projectAll_fst]
  induction messages with
  | nil => exact .nil
  | cons msg msgs ih =>
    rw [keeps, zipWith_cons_cons]
    refine .cons (keepsImages_keptMessage (min_le_left ..)) (fun hpos => ?_) ih
    exact keeps_of_le (by omega)

/-! ## What is read back -/

section ReadBack

variable {msg : Message} {keep : ℕ}

/-- The retained images of an array, at every depth. -/
theorem wireImagesAll_retainImages (keep : ℕ) (parts : List Value) :
    wireImagesAll (retainImages keep 0 parts) =
      wireImagesAll ((parts.filter isImagePart).take keep) +
        wireImagesAll (parts.filter fun part => !isImagePart part) := by
  have hsplit : ∀ l : List Value, wireImagesAll l = wireImagesAll (l.filter isImagePart) +
      wireImagesAll (l.filter fun part => !isImagePart part) := by
    intro l
    induction l with
    | nil => rfl
    | cons part l ih =>
      rw [wireImagesAll, ih]
      by_cases himage : isImagePart part
      · rw [filter_cons_of_pos himage, filter_cons_of_neg (by simpa using himage),
          wireImagesAll]
        omega
      · rw [filter_cons_of_neg himage, filter_cons_of_pos (by simpa using himage),
          wireImagesAll]
        omega
  rw [hsplit, filter_retainImages, filter_not_retainImages, Nat.sub_zero]

/-- Everything is retained where the images fit. -/
theorem retainImages_of_le {keep : ℕ} {parts : List Value} :
    ∀ {seen : ℕ}, seen + parts.countP isImagePart ≤ keep →
      retainImages keep seen parts = parts := by
  induction parts with
  | nil => exact fun _ => rfl
  | cons part parts ih =>
    intro seen hle
    rw [retainImages]
    by_cases himage : isImagePart part
    · rw [countP_cons_of_pos himage] at hle
      rw [if_pos himage, if_pos (by omega), ih (by omega)]
    · rw [countP_cons_of_neg himage] at hle
      rw [if_neg himage, ih hle]

/-- A user's array with the first images and a note. -/
theorem read_withKept (hread : ReadsBack fromStr) (hnot : msg.role ≠ "tool")
    (hlt : keep < countedImages fromStr msg) {parts : List Value}
    (hparts : msg.content.bind (arrayOf fromStr) = some parts) (hall : parts.all isContentPart)
    (hcount : countedImages fromStr msg = parts.countP isImagePart) :
    ∃ text items, (withKept fromStr msg keep).content = some text ∧
      arrayOf fromStr text = some items ∧ items.all isContentPart ∧
      items.countP isImagePart = keep ∧
      wireImagesAll items = wireImagesAll (retainImages keep 0 parts) := by
  obtain ⟨text, -, harray⟩ := Option.bind_eq_some_iff.1 hparts
  obtain ⟨value, hvalue, hitems⟩ := Option.bind_eq_some_iff.1 harray
  have hvalue' : fromStr text = some (.array parts) := by
    cases value with
    | array items =>
      cases hitems
      exact hvalue
    | _ => cases hitems
  obtain ⟨note, hnote⟩ : ∃ note, omittedPart keep (countedImages fromStr msg) =
      textPart "text" note := ⟨_, rfl⟩
  obtain ⟨hnoteImage, hnoteContent⟩ := omittedPart_facts keep (countedImages fromStr msg)
  rw [hnote] at hnoteImage hnoteContent
  obtain ⟨items, hback, herase⟩ := hread.written text parts hvalue' (retainImages keep 0 parts)
    (retainImages_sublist keep 0 parts) note
  obtain ⟨hallSame, hcountSame, hwireSame⟩ := same_of_eraseNumbers herase
  refine ⟨_, items, ?_, Option.bind_eq_some_iff.2 ⟨_, hback, rfl⟩, ?_, ?_, ?_⟩
  · rw [withKept, if_neg hnot, hparts, ← hnote]
    rfl
  · rw [hallSame, all_append, all_eq_true.2 fun part hpart =>
      all_eq_true.1 hall part ((retainImages_sublist keep 0 parts).subset hpart)]
    simpa using hnoteContent
  · have hnone : [textPart "text" note].countP isImagePart = 0 := by simp [hnoteImage]
    rw [hcountSame, countP_append, countP_retainImages, hnone, Nat.add_zero, ← hcount,
      min_eq_left hlt.le]
  · rw [hwireSame, wireImagesAll_append, wireImagesAll, wireImages_text (by decide)]
    rfl

/-- A message that keeps some images counts them. -/
theorem countedImages_keptMessage (hread : ReadsBack fromStr)
    (hle : keep ≤ countedImages fromStr msg) :
    countedImages fromStr (keptMessage fromStr msg keep) = keep := by
  rw [keptMessage]
  split
  · next hge => exact Nat.le_antisymm hge hle
  · next hlt =>
    have hlt := Nat.lt_of_not_le hlt
    by_cases htool : msg.role = "tool"
    · rw [withKept, if_pos htool, countedImages, if_pos htool]
      have hlength : ((msg.toolImageAttachments.getD []).take keep).length = keep := by
        rw [countedImages, if_pos htool] at hlt
        rw [length_take, min_eq_left hlt.le]
      simp only
      split
      · next hempty =>
        rw [← hlength, isEmpty_iff.1 hempty]
        rfl
      · exact hlength
    · obtain ⟨huser, parts, hparts, hall, hcount⟩ :=
        parts_of_counted htool (Nat.zero_lt_of_lt hlt)
      obtain ⟨text, items, htext, hitems, hallItems, hcountItems, -⟩ :=
        read_withKept hread htool hlt hparts hall hcount
      have hrole : (withKept fromStr msg keep).role = "user" := by
        rw [withKept, if_neg htool]
        exact huser
      rw [countedImages, hrole, if_neg (by decide), if_pos rfl, htext, Option.bind_some, hitems]
      exact (if_pos hallItems).trans hcountItems

/-! ## What is sent -/

theorem wireImagesAll_eq_zero {parts : List Value} :
    wireImagesAll parts = 0 ↔ ∀ part ∈ parts, wireImages part = 0 := by
  induction parts with
  | nil => simp [wireImagesAll]
  | cons part parts ih => rw [wireImagesAll, Nat.add_eq_zero_iff, ih, forall_mem_cons]

theorem length_le_wireImagesAll {parts : List Value} (h : ∀ part ∈ parts, isImagePart part) :
    parts.length ≤ wireImagesAll parts ∧
      (wireImagesAll parts = parts.length ↔ ∀ part ∈ parts, wireImages part = 1) := by
  induction parts with
  | nil => simp [wireImagesAll]
  | cons part parts ih =>
    obtain ⟨himage, hrest⟩ := forall_mem_cons.1 h
    obtain ⟨hle, heq⟩ := ih hrest
    have hone := one_le_wireImages himage
    rw [wireImagesAll, length_cons, forall_mem_cons, ← heq]
    refine ⟨by omega, by omega⟩

/-- The retained parts of an array are plain exactly if they have no more images than are kept. -/
theorem plainParts_iff {parts : List Value} (hle : keep ≤ parts.countP isImagePart) :
    keep ≤ wireImagesAll (retainImages keep 0 parts) ∧
      (wireImagesAll (retainImages keep 0 parts) = keep ↔ PlainParts keep parts) := by
  have hlength : ((parts.filter isImagePart).take keep).length = keep := by
    rw [length_take, ← countP_eq_length_filter, min_eq_left hle]
  have himages : ∀ part ∈ (parts.filter isImagePart).take keep, isImagePart part :=
    fun part hpart => (mem_filter.1 (mem_of_mem_take hpart)).2
  obtain ⟨hge, hone⟩ := length_le_wireImagesAll himages
  have hothers : wireImagesAll (parts.filter fun part => !isImagePart part) = 0 ↔
      ∀ part ∈ parts, isImagePart part = false → wireImages part = 0 := by
    rw [wireImagesAll_eq_zero]
    simp [mem_filter]
  rw [hlength] at hge hone
  rw [wireImagesAll_retainImages, PlainParts, ← hone, ← hothers]
  refine ⟨by omega, by omega⟩

/-- **What a message sends**: at least the images that it keeps, and no others if it is plain. -/
theorem keep_le_sentImages (hread : ReadsBack fromStr) (hle : keep ≤ countedImages fromStr msg) :
    keep ≤ sentImages fromStr (keptMessage fromStr msg keep) ∧
      (sentImages fromStr (keptMessage fromStr msg keep) = keep ↔
        PlainContent fromStr msg keep) := by
  have hrole : (keptMessage fromStr msg keep).role = msg.role := by
    rw [(keepsImages_keptMessage hle).same]
  by_cases htool : msg.role = "tool"
  · have hsent : sentImages fromStr (keptMessage fromStr msg keep) = keep := by
      rw [sentImages, hrole, if_pos htool]
      have hcounted := countedImages_keptMessage hread hle
      rwa [countedImages, hrole, if_pos htool] at hcounted
    have hplain : PlainContent fromStr msg keep := fun huser => by
      rw [htool] at huser
      exact absurd huser (by decide)
    exact ⟨hsent.ge, fun _ => hplain, fun _ => hsent⟩
  · by_cases huser : msg.role = "user"
    · have hplain : PlainContent fromStr msg keep ↔
          match msg.content.bind (arrayOf fromStr) with
          | some parts =>
            if parts.all isContentPart then PlainParts keep parts else wireImagesAll parts = 0
          | none => True := ⟨fun h => h huser, fun h _ => h⟩
      have hsent : ∀ msg' : Message, msg'.role = "user" → sentImages fromStr msg' =
          match msg'.content.bind (arrayOf fromStr) with
          | some parts => wireImagesAll parts
          | none => 0 := by
        intro msg' huser'
        rw [sentImages, huser', if_neg (by decide), if_pos rfl]
        cases msg'.content with
        | some text => rfl
        | none =>
          rw [Option.getD_none, Option.bind_none, arrayOf, hread.empty]
          rfl
      rw [hplain, hsent _ (hrole.trans huser)]
      cases hparts : msg.content.bind (arrayOf fromStr) with
      | none =>
        have hcounted : countedImages fromStr msg = 0 := by
          rw [countedImages, if_neg htool, if_pos huser, hparts]
        rw [keptMessage, if_pos (hcounted.le.trans (Nat.zero_le _)), hparts]
        simp only [iff_true]
        omega
      | some parts =>
        have hcounted : countedImages fromStr msg =
            if parts.all isContentPart then parts.countP isImagePart else 0 := by
          rw [countedImages, if_neg htool, if_pos huser, hparts]
        simp only
        by_cases hall : parts.all isContentPart
        · rw [if_pos hall] at hcounted ⊢
          have hwire : (match (keptMessage fromStr msg keep).content.bind (arrayOf fromStr) with
              | some parts => wireImagesAll parts
              | none => 0) = wireImagesAll (retainImages keep 0 parts) := by
            rw [keptMessage]
            by_cases hfits : countedImages fromStr msg ≤ keep
            · rw [if_pos hfits, hparts, retainImages_of_le (by omega)]
            · have hlt := Nat.lt_of_not_le hfits
              obtain ⟨text, items, htext, hitems, -, -, hsame⟩ :=
                read_withKept hread htool hlt hparts hall hcounted
              rw [if_neg hfits, htext, Option.bind_some, hitems]
              exact hsame
          rw [hwire]
          exact plainParts_iff (hle.trans hcounted.le)
        · rw [if_neg hall] at hcounted ⊢
          rw [keptMessage, if_pos (hcounted.le.trans (Nat.zero_le _)), hparts]
          have hzero : keep = 0 := by omega
          rw [hzero]
          exact ⟨Nat.zero_le _, Iff.rfl⟩
    · have hcounted : countedImages fromStr msg = 0 := by
        rw [countedImages, if_neg htool, if_neg huser]
      have hsent : sentImages fromStr (keptMessage fromStr msg keep) = 0 := by
        rw [sentImages, hrole, if_neg htool, if_neg huser]
      have hplain : PlainContent fromStr msg keep := fun h => absurd h huser
      rw [hsent]
      refine ⟨by omega, fun _ => hplain, fun _ => by omega⟩

/-- The sums of what messages keep and send. -/
theorem sum_keep_le_sum_sent (hread : ReadsBack fromStr) (remaining : ℕ)
    (messages : List Message) :
    (keeps fromStr remaining messages).sum ≤
        ((projectAll fromStr remaining messages).1.map (sentImages fromStr)).sum ∧
      (((projectAll fromStr remaining messages).1.map (sentImages fromStr)).sum =
          (keeps fromStr remaining messages).sum ↔
        ∀ p ∈ messages.zip (keeps fromStr remaining messages),
          PlainContent fromStr p.1 p.2) := by
  rw [projectAll_fst]
  induction messages with
  | nil => simp [keeps]
  | cons msg msgs ih =>
    obtain ⟨hle, hiff⟩ := ih
    have hkeep : min (countedImages fromStr msg) (remaining - totalImages fromStr msgs) ≤
        countedImages fromStr msg := min_le_left ..
    obtain ⟨hone, hplain⟩ := keep_le_sentImages hread hkeep
    rw [keeps, zipWith_cons_cons, map_cons, sum_cons, sum_cons,
      zip_cons_cons, forall_mem_cons, ← hplain, ← hiff]
    refine ⟨by omega, by omega⟩

end ReadBack

/-! ## The budget -/

section Budget

variable {messages : List Message} {limit : ℕ}

/-- What is sent in some format at most, and in Anthropic's exactly. -/
theorem formats_le_iff {messages' : List Message}
    (hmime : ∀ msg ∈ messages', msg.role = "tool" →
      ∀ image ∈ msg.toolImageAttachments.getD [], isImageMime image.mimeType) :
    (∀ format : Format, formatImages format (format.convert fromStr modelName messages') ≤ limit) ↔
      (messages'.map (sentImages fromStr)).sum ≤ limit := by
  refine ⟨fun h => (Anthropic.formatImages_convertMessages hmime).ge.trans (h .anthropic),
    fun hle format => ?_⟩
  cases format with
  | chat => exact (Chat.formatImages_convertMessages messages').trans hle
  | responses => exact (Responses.formatImages_convertMessages messages').trans hle
  | anthropic => exact (Anthropic.formatImages_convertMessages hmime).le.trans hle
  | gemini => exact (Gemini.formatImages_convertMessages messages' modelName).trans hle

/-- The attachments that stay are images. -/
theorem mime_of_projected {keeps : List ℕ} {messages' : List Message}
    (h : Projected fromStr messages keeps messages')
    (hmime : ∀ msg ∈ messages, msg.role = "tool" →
      ∀ image ∈ msg.toolImageAttachments.getD [], isImageMime image.mimeType) :
    ∀ msg ∈ messages', msg.role = "tool" →
      ∀ image ∈ msg.toolImageAttachments.getD [], isImageMime image.mimeType := by
  induction h with
  | nil => exact hmime
  | @cons msg msg' keep msgs msgs' keeps hkeeps hnewer hrest ih =>
    obtain ⟨hone, hall⟩ := forall_mem_cons.1 hmime
    refine forall_mem_cons.2 ⟨fun htool image himage => ?_, ih hall⟩
    rw [hkeeps.same] at htool
    refine hone htool image ?_
    rcases Nat.lt_or_ge keep (countedImages fromStr msg) with hlt | hge
    · rw [(hkeeps.tool htool hlt).1] at himage
      exact mem_of_mem_take himage
    · rwa [hkeeps.fits (Nat.le_antisymm hkeeps.le hge)] at himage

/-- The images that are counted in what was projected. -/
theorem totalImages_projectAll (hread : ReadsBack fromStr) (remaining : ℕ)
    (messages : List Message) :
    totalImages fromStr (projectAll fromStr remaining messages).1 =
      (keeps fromStr remaining messages).sum := by
  rw [projectAll_fst, totalImages]
  induction messages with
  | nil => rfl
  | cons msg msgs ih =>
    rw [keeps, zipWith_cons_cons, map_cons, sum_cons, sum_cons, ih,
      countedImages_keptMessage hread (min_le_left ..)]

/-- All counted images are sent where nothing is left out. -/
theorem totalImages_le_sent (hread : ReadsBack fromStr) (messages : List Message) :
    totalImages fromStr messages ≤ (messages.map (sentImages fromStr)).sum := by
  rw [totalImages]
  induction messages with
  | nil => exact Nat.le_refl 0
  | cons msg msgs ih =>
    have hone := (keep_le_sentImages hread (Nat.le_refl (countedImages fromStr msg))).1
    rw [keptMessage, if_pos (Nat.le_refl _)] at hone
    rw [map_cons, sum_cons, map_cons, sum_cons]
    exact Nat.add_le_add hone ih

/-- The result of a tool that has read four images. -/
def fourImages : Message :=
  { Message.user "Images attached" with
    role := "tool"
    toolCallId := some "batch"
    name := some "view_image"
    toolImageAttachments := some (List.replicate 4 ⟨"image/png", "pixels"⟩) }

/-- Two images and a number. -/
def imagesAndNumber : List Value :=
  [ofFields [("type", .string "image_url"), ("image_url", .string "a")],
    ofFields [("type", .string "image_url"), ("image_url", .string "b")], .number (.int 1)]

/-- Two images and a number, as a user writes them. -/
def imagesAndNumberText : String :=
  "[\x7b\"type\":\"image_url\",\"image_url\":\"a\"\x7d," ++
    "\x7b\"type\":\"image_url\",\"image_url\":\"b\"\x7d,1]"

/-- A parser that knows one text. -/
def knowsImages (text : String) : Option Value :=
  if text = imagesAndNumberText then some (.array imagesAndNumber) else none

end Budget

end ImageBudget

end OpenBitFun
