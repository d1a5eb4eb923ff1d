import Mathlib
import OpenBitFun.MarkdownTexts

/-!
# The ledger of an import

A ledger says at every place of a run which part of the stream each text is: those of the blocks,
those that open containers hold, and the one in the buffer (`Ledger.Fits`). Each operation on
blocks, containers and the buffer keeps the ledger in order.
-/

namespace OpenBitFun

open List

namespace Markdown

open Text

variable {text : List Char} {runs taken : List Run} {items : List ListItem}
  {stack : List Container} {state : State} {stream : Stream}

/-! ## White space -/

@[simp] theorem nonblank_nil : nonblank [] = [] := rfl

@[simp] theorem nonblank_append (s t : List Char) :
    nonblank (s ++ t) = nonblank s ++ nonblank t := filter_append ..

theorem nonblank_dropWhile {p : Char → Bool} (h : ∀ c, p c → isWhitespace c)
    (text : List Char) : nonblank (text.dropWhile p) = nonblank text := by
  induction text with
  | nil => rfl
  | cons c text ih =>
    rw [dropWhile_cons]
    by_cases hc : p c = true
    · have hblank : nonblank (c :: text) = nonblank text := by
        rw [nonblank, filter_cons_of_neg (by simp [h c hc])]
        rfl
      rw [if_pos hc, ih, hblank]
    · rw [if_neg hc]

theorem nonblank_rdropWhile {p : Char → Bool} (h : ∀ c, p c → isWhitespace c)
    (text : List Char) : nonblank (text.rdropWhile p) = nonblank text := by
  have hreverse := nonblank_dropWhile h text.reverse
  rw [List.rdropWhile, nonblank, filter_reverse, ← nonblank, hreverse, nonblank,
    filter_reverse, reverse_reverse]
  rfl

@[simp] theorem nonblank_trimStart (text : List Char) :
    nonblank (trimStart text) = nonblank text := nonblank_dropWhile (fun _ h => h) text

@[simp] theorem nonblank_trimEnd (text : List Char) :
    nonblank (trimEnd text) = nonblank text := nonblank_rdropWhile (fun _ h => h) text

theorem nonblank_of_isBlank (h : isBlank text) : nonblank text = [] := by
  have htrim : nonblank (trim text) = nonblank text := by
    rw [trim, nonblank_trimEnd, nonblank_trimStart]
  rw [← htrim, isEmpty_iff.mp h]
  rfl

/-! ## Runs -/

@[simp] theorem readRuns_nil : readRuns [] = [] := rfl

@[simp] theorem readRuns_cons (run : Run) (runs : List Run) :
    readRuns (run :: runs) = nonblank run.text ++ readRuns runs := nonblank_append ..

@[simp] theorem readRuns_append (runs runs' : List Run) :
    readRuns (runs ++ runs') = readRuns runs ++ readRuns runs' := by
  rw [readRuns, runsText, flatMap_append, nonblank_append]
  rfl

theorem readRuns_dropWhile {p : Run → Bool} (h : ∀ run, p run → nonblank run.text = [])
    (runs : List Run) : readRuns (runs.dropWhile p) = readRuns runs := by
  induction runs with
  | nil => rfl
  | cons run runs ih =>
    rw [dropWhile_cons]
    by_cases hrun : p run = true
    · rw [if_pos hrun, ih, readRuns_cons, h run hrun, nil_append]
    · rw [if_neg hrun]

theorem readRuns_rdropWhile {p : Run → Bool} (h : ∀ run, p run → nonblank run.text = [])
    (runs : List Run) : readRuns (runs.rdropWhile p) = readRuns runs := by
  induction runs using List.reverseRecOn with
  | nil => rfl
  | append_singleton runs run ih =>
    by_cases hrun : p run = true
    · rw [rdropWhile_concat_pos p _ _ hrun, ih, readRuns_append, readRuns_cons, h run hrun]
      simp
    · rw [rdropWhile_concat_neg p _ _ hrun]

theorem readRuns_modify {f : Run → Run} (h : ∀ run, nonblank (f run).text = nonblank run.text)
    (runs : List Run) (i : ℕ) : readRuns (runs.modify i f) = readRuns runs := by
  induction runs generalizing i with
  | nil => simp
  | cons run runs ih =>
    cases i with
    | zero => simp [h]
    | succ i => simp [ih]

theorem readRuns_filter (runs : List Run) :
    readRuns (runs.filter fun run => !run.text.isEmpty) = readRuns runs := by
  induction runs with
  | nil => rfl
  | cons run runs ih =>
    by_cases hrun : run.text.isEmpty = true
    · have hnil : nonblank run.text = [] := by rw [isEmpty_iff.mp hrun]; rfl
      rw [filter_cons_of_neg (by simp [hrun]), ih, readRuns_cons, hnil, nil_append]
    · rw [filter_cons_of_pos (by simp [hrun]), readRuns_cons, readRuns_cons, ih]

/-- **Trimming runs** drops white space only. -/
@[simp] theorem readRuns_trimRuns (runs : List Run) : readRuns (trimRuns runs) = readRuns runs := by
  rw [trimRuns, readRuns_filter, readRuns_modify fun run => nonblank_trimEnd run.text]
  have hhead (runs : List Run) : readRuns (runs.modifyHead fun first =>
      { first with text := trimStart first.text }) = readRuns runs := by
    cases runs <;> simp
  rw [hhead, readRuns_dropWhile fun run h => nonblank_of_isBlank h, readRuns_rdropWhile]
  intro run hrun
  exact nonblank_of_isBlank (Bool.and_eq_true_iff.mp hrun).1

@[simp] theorem readRuns_pushRun (runs : List Run) (run : Run) :
    readRuns (pushRun runs run) = readRuns runs ++ nonblank run.text := by
  rw [pushRun]
  by_cases hempty : run.text.isEmpty = true
  · rw [if_pos hempty, isEmpty_iff.mp hempty, nonblank_nil, append_nil]
  · rw [if_neg hempty]
    cases hlast : runs.getLast? with
    | none =>
      rw [getLast?_eq_none_iff.mp hlast]
      simp
    | some last =>
      have hruns : runs = runs.dropLast ++ [last] := (dropLast_append_getLast? last hlast).symm
      by_cases hmerge : last.math = none ∧ run.math = none ∧ { last with text := run.text } = run
      · have hread : readRuns runs = readRuns runs.dropLast ++ nonblank last.text := by
          rw [hruns]
          simp
        simp only [if_pos hmerge, readRuns_append, readRuns_cons, readRuns_nil, nonblank_append,
          hread, append_nil, append_assoc]
      · simp only [if_neg hmerge, readRuns_append, readRuns_cons, readRuns_nil, append_nil]

@[simp] theorem readRuns_addLine (runs taken : List Run) :
    readRuns (addLine runs taken) = readRuns runs ++ readRuns taken := by
  rw [addLine]
  by_cases hempty : runs.isEmpty = true
  · rw [if_pos hempty, isEmpty_iff.mp hempty]
    rfl
  · rw [if_neg hempty, readRuns_append, readRuns_cons]
    rfl

@[simp] theorem addToLast_concat (items : List ListItem) (item : ListItem) (taken : List Run) :
    addToLast (items ++ [item]) taken =
      items ++ [{ item with runs := addLine item.runs taken }] := by
  have hlen : (items ++ [item]).length - 1 = items.length := by simp
  rw [addToLast, hlen]
  clear hlen
  induction items with
  | nil => rfl
  | cons first items ih => simpa using ih

/-! ## Parts -/

/-- The items and cells of parts. -/
def owners (parts : List Part) : List ℕ := parts.filterMap Part.owner

@[simp] theorem owners_append (parts parts' : List Part) :
    owners (parts ++ parts') = owners parts ++ owners parts' := filterMap_append ..

/-- The part for a text, if there is any. -/
def partOf (owner : Option ℕ) (chars : List (Char × Option ℕ)) : List Part :=
  if chars.isEmpty then [] else [⟨owner, chars⟩]

@[simp] theorem partOf_nil (owner : Option ℕ) : partOf owner [] = [] := rfl

@[simp] theorem chars_partOf (owner : Option ℕ) (chars : List (Char × Option ℕ)) :
    (partOf owner chars).flatMap Part.chars = chars := by
  cases chars with
  | nil => rfl
  | cons c chars => exact flatMap_singleton ..

@[simp] theorem owners_partOf_none (chars : List (Char × Option ℕ)) :
    owners (partOf none chars) = [] := by
  cases chars <;> rfl

@[simp] theorem compact_append (segments segments' : List Segment) :
    compact (segments ++ segments') = compact segments ++ compact segments' :=
  filter_append ..

theorem compact_singleton_nil (owned : Bool) : compact [⟨owned, []⟩] = [] := rfl

theorem labels_partOf (owner : Option ℕ) {chars : List (Char × Option ℕ)}
    (h : ∀ o ∈ owner, ∀ c ∈ chars, c.2 = some o) :
    List.Forall₂ Labels (compact [⟨owner.isSome, chars.map Prod.fst⟩]) (partOf owner chars) := by
  cases chars with
  | nil => exact .nil
  | cons c chars => exact .cons ⟨rfl, rfl, h⟩ .nil

/-- The part of a text outside of items and cells is labelled. -/
theorem labels_free (chars : List (Char × Option ℕ)) :
    List.Forall₂ Labels (compact [⟨false, chars.map Prod.fst⟩]) (partOf none chars) :=
  labels_partOf none fun _ ho => by cases ho

/-- The parts for texts have their characters. -/
theorem chars_of_labels {segments : List Segment} {parts : List Part}
    (h : List.Forall₂ Labels (compact segments) parts) :
    (parts.flatMap Part.chars).map Prod.fst = segments.flatMap Segment.text := by
  induction segments generalizing parts with
  | nil =>
    cases h
    rfl
  | cons segment segments ih =>
    by_cases hempty : segment.text.isEmpty = true
    · rw [compact, filter_cons_of_neg (by simp [hempty])] at h
      rw [ih h, flatMap_cons, isEmpty_iff.mp hempty, nil_append]
    · rw [compact, filter_cons_of_pos (by simp [hempty])] at h
      cases h with
      | cons hfirst hrest =>
        rw [flatMap_cons, map_append, ih hrest, ← hfirst.text, flatMap_cons]

theorem owners_of_labels {segments : List Segment} {parts : List Part}
    (h : List.Forall₂ Labels segments parts) (hfree : ∀ segment ∈ segments, segment.owned = false) :
    owners parts = [] := by
  induction h with
  | nil => rfl
  | cons hfirst hrest ih =>
    obtain ⟨hfree, hrest'⟩ := forall_mem_cons.mp hfree
    have hnone : Part.owner _ = none := Option.not_isSome_iff_eq_none.mp fun hsome => by
      rw [← hfirst.owned, hfree] at hsome
      cases hsome
    rw [owners, filterMap_cons_none hnone]
    exact ih hrest'

theorem owners_partOf_some (m : ℕ) (chars : List (Char × Option ℕ)) :
    owners (partOf (some m) chars) = if chars.isEmpty then [] else [m] := by
  cases chars <;> rfl

theorem exists_of_concat {segments : List Segment} {segment : Segment} {parts : List Part}
    (h : List.Forall₂ Labels (segments ++ [segment]) parts) :
    ∃ front part, parts = front ++ [part] ∧ List.Forall₂ Labels segments front ∧
      Labels segment part := by
  induction segments generalizing parts with
  | nil =>
    cases h with
    | cons hfirst hrest =>
      cases hrest
      exact ⟨[], _, rfl, .nil, hfirst⟩
  | cons first segments ih =>
    cases h with
    | @cons _ part _ parts hfirst hrest =>
      obtain ⟨front, part', rfl, hfront, hlast⟩ := ih hrest
      exact ⟨part :: front, part', rfl, .cons hfirst hfront, hlast⟩

theorem compact_filter (items : List ListItem) :
    compact ((items.filter fun item => !item.runs.isEmpty).map
      fun item => ⟨true, readRuns item.runs⟩) =
        compact (items.map fun item => ⟨true, readRuns item.runs⟩) := by
  induction items with
  | nil => rfl
  | cons item items ih =>
    have hcons (items : List ListItem) :
        compact ((item :: items).map fun item => (⟨true, readRuns item.runs⟩ : Segment)) =
          compact [⟨true, readRuns item.runs⟩] ++
            compact (items.map fun item => ⟨true, readRuns item.runs⟩) :=
      compact_append [_] _
    by_cases hempty : item.runs.isEmpty = true
    · rw [filter_cons_of_neg (by simp [hempty]), ih, hcons, isEmpty_iff.mp hempty]
      rfl
    · rw [filter_cons_of_pos (by simp [hempty]), hcons, hcons, ih]

/-! ## The ledger -/

/-- What a container holds, in parts. The last text of a list is that of the item that started
last, if this has any. -/
structure Holds (newest : Option ℕ) (container : Container) (parts : List Part) : Prop where
  labels : List.Forall₂ Labels (compact container.segments) parts
  newest : ∀ frame, container = .list frame → ∀ item ∈ frame.items.getLast?,
    readRuns item.runs ≠ [] → ∃ part ∈ parts.getLast?, part.owner = newest

/-- Which items and cells have texts already. An open cell has none, and the item that started last
has one only if there is text in the list's last item. -/
structure Fresh (stack : List Container) (stream : Stream) (used : List ℕ) : Prop where
  nodup : used.Nodup
  bounded : ∀ owner ∈ used, owner < stream.position
  cells : ∀ tag ∈ stream.opened, tag.1 = .tableCell → tag.2 ∉ used
  lists : ∀ frame, .list frame ∈ stack → (stream.newest = none ↔ frame.items = []) ∧
    ∀ item ∈ frame.items.getLast?, readRuns item.runs = [] → ∀ m ∈ stream.newest, m ∉ used

/-- The parts of a stream at a place of a run. -/
structure Ledger where
  done : List Part
  held : List (List Part)
  waiting : List (Char × Option ℕ)

/-- The parts in the order of the stream. -/
def Ledger.parts (ledger : Ledger) : List Part := ledger.done ++ ledger.held.reverse.flatten

/-- **The ledger of a run**: what has been read so far are the texts of the blocks, then those that
containers hold, from the outermost in, and then the text in the buffer. -/
structure Ledger.Fits (ledger : Ledger) (blocks : List Block) (stack : List Container)
    (pending : List Char) (stream : Stream) (read : List (Char × Option ℕ)) : Prop where
  read : read = ledger.parts.flatMap Part.chars ++ ledger.waiting
  done : List.Forall₂ Labels (readBlocks blocks) ledger.done
  held : List.Forall₂ (Holds stream.newest) stack ledger.held
  waiting : ledger.waiting.map Prod.fst = pending
  owned : ∀ c ∈ ledger.waiting, c.2 = stream.owner
  fresh : Fresh stack stream (owners ledger.parts)

theorem nodup_concat {used : List ℕ} {m : ℕ} (h : used.Nodup) (hm : m ∉ used) :
    (used ++ [m]).Nodup := by
  refine nodup_append.mpr ⟨h, nodup_singleton m, fun o ho m' hm' heq => ?_⟩
  rw [heq, mem_singleton.mp hm'] at ho
  exact hm ho

/-- There is a ledger. -/
def Texts (blocks : List Block) (stack : List Container) (pending : List Char) (stream : Stream)
    (read : List (Char × Option ℕ)) : Prop :=
  ∃ ledger : Ledger, ledger.Fits blocks stack pending stream read

variable {blocks : List Block} {pending : List Char} {read : List (Char × Option ℕ)}
  {container : Container} {block : Block}

theorem nil_of_empty {newest : Option ℕ} {parts : List Part} (h : Holds newest container parts)
    (hempty : (compact container.segments).isEmpty) : parts = [] := by
  have hlabels := h.labels
  rw [isEmpty_iff.mp hempty] at hlabels
  cases hlabels
  rfl

theorem holdNothing_cons (container : Container) (stack : List Container) :
    holdNothing (container :: stack) =
      ((compact container.segments).isEmpty && holdNothing stack) := rfl

/-- Containers without text have no parts. -/
theorem flatten_of_holdNothing {newest : Option ℕ} {held : List (List Part)}
    (h : List.Forall₂ (Holds newest) stack held) (hempty : holdNothing stack) :
    held.reverse.flatten = [] := by
  induction h with
  | nil => rfl
  | cons hfirst hrest ih =>
    obtain ⟨hfirst', hrest'⟩ := Bool.and_eq_true_iff.mp hempty
    rw [reverse_cons, flatten_append, ih hrest', nil_of_empty hfirst hfirst']
    rfl

namespace Texts

theorem initial : Texts [] [] [] .initial [] :=
  ⟨⟨[], [], []⟩, rfl, .nil, .nil, rfl, forall_mem_nil _,
    ⟨nodup_nil, forall_mem_nil _, forall_mem_nil _,
      fun _ h => (not_mem_nil h).elim⟩⟩

theorem reads (h : Texts blocks stack pending stream read) (text : List Char) :
    Texts blocks stack (pending ++ text) stream
      (read ++ text.map fun c => (c, stream.owner)) := by
  obtain ⟨ledger, hfits⟩ := h
  refine ⟨{ ledger with waiting := ledger.waiting ++ text.map fun c => (c, stream.owner) }, ?_,
    hfits.done, hfits.held, ?_, ?_, hfits.fresh⟩
  · rw [hfits.read, append_assoc]
    rfl
  · rw [map_append, hfits.waiting, map_map]
    exact congrArg _ (map_id _)
  · intro c hc
    obtain hc | hc := mem_append.mp hc
    · exact hfits.owned c hc
    · obtain ⟨c', -, rfl⟩ := mem_map.mp hc
      rfl

theorem push_none (h : Texts blocks stack pending stream read) (block : Block)
    (hblock : block.segments = []) :
    Texts (blocks ++ [block]) stack pending stream read := by
  obtain ⟨ledger, hfits⟩ := h
  refine ⟨ledger, hfits.read, ?_, hfits.held, hfits.waiting, hfits.owned, hfits.fresh⟩
  rw [readBlocks, flatMap_append, flatMap_singleton, hblock, append_nil]
  exact hfits.done

/-- The text in the buffer is pushed as a block; it overtakes nothing. -/
theorem push_free (h : Texts blocks stack pending stream read)
    (hblock : block.segments = [⟨false, pending⟩])
    (hnothing : pending = [] ∨ holdNothing stack) :
    Texts (blocks ++ [block]) stack [] stream read := by
  obtain ⟨ledger, hfits⟩ := h
  have hblocks : readBlocks (blocks ++ [block]) =
      readBlocks blocks ++ compact [⟨false, ledger.waiting.map Prod.fst⟩] := by
    rw [readBlocks, flatMap_append, flatMap_singleton, hblock, compact_append,
      hfits.waiting]
    rfl
  have hparts : ledger.done ++ partOf none ledger.waiting ++ ledger.held.reverse.flatten =
      ledger.parts ++ partOf none ledger.waiting := by
    obtain hnil | hnothing := hnothing
    · rw [← hfits.waiting, map_eq_nil_iff] at hnil
      rw [hnil, partOf_nil, append_nil, append_nil]
      rfl
    · rw [Ledger.parts, flatten_of_holdNothing hfits.held hnothing, append_nil,
        append_nil]
  refine ⟨⟨ledger.done ++ partOf none ledger.waiting, ledger.held, []⟩, ?_, ?_, hfits.held, rfl,
    forall_mem_nil _, ?_⟩
  · rw [Ledger.parts, hparts, flatMap_append, chars_partOf, append_nil]
    exact hfits.read
  · rw [hblocks]
    exact rel_append hfits.done (labels_free ledger.waiting)
  · rw [Ledger.parts, hparts, owners_append, owners_partOf_none, append_nil]
    exact hfits.fresh

theorem push_container (h : Texts blocks stack pending stream read)
    (hempty : compact container.segments = []) (hlist : container.isList = false) :
    Texts blocks (container :: stack) pending stream read := by
  obtain ⟨ledger, hfits⟩ := h
  have hparts : Ledger.parts { ledger with held := [] :: ledger.held } = ledger.parts := by
    simp [Ledger.parts]
  refine ⟨{ ledger with held := [] :: ledger.held }, ?_, hfits.done, ?_, hfits.waiting,
    hfits.owned, ?_⟩
  · rw [hparts]
    exact hfits.read
  · refine .cons ⟨?_, fun frame hframe => ?_⟩ hfits.held
    · rw [hempty]
      exact .nil
    · rw [hframe] at hlist
      cases hlist
  · rw [hparts]
    refine ⟨hfits.fresh.nodup, hfits.fresh.bounded, hfits.fresh.cells, fun frame hframe => ?_⟩
    obtain rfl | hframe := mem_cons.mp hframe
    · cases hlist
    · exact hfits.fresh.lists frame hframe

/-- The innermost container is closed, and its text is pushed; it overtakes nothing. -/
theorem close (h : Texts blocks (container :: stack) pending stream read)
    {blocks' : List Block}
    (hblocks : readBlocks blocks' = readBlocks blocks ++ compact container.segments)
    (hnothing : compact container.segments = [] ∨ holdNothing stack) :
    Texts blocks' stack pending stream read := by
  obtain ⟨⟨done, held, waiting⟩, hfits⟩ := h
  obtain ⟨hread, hdone, hheld, hwaiting, howned, hfresh⟩ := hfits
  cases hheld with
  | @cons _ parts _ held hfirst hrest =>
    have hparts : Ledger.parts ⟨done ++ parts, held, waiting⟩ =
        Ledger.parts ⟨done, parts :: held, waiting⟩ := by
      simp only [Ledger.parts, reverse_cons, flatten_append, flatten_singleton,
        append_assoc]
      obtain hnil | hnothing := hnothing
      · rw [nil_of_empty hfirst (by rw [hnil]; rfl), append_nil, nil_append]
      · rw [flatten_of_holdNothing hrest hnothing, append_nil, nil_append]
    refine ⟨⟨done ++ parts, held, waiting⟩, ?_, ?_, hrest, hwaiting, howned, ?_⟩
    · rw [hparts]
      exact hread
    · rw [hblocks]
      exact rel_append hdone hfirst.labels
    · rw [hparts]
      exact ⟨hfresh.nodup, hfresh.bounded, hfresh.cells,
        fun frame hframe => hfresh.lists frame (mem_cons_of_mem _ hframe)⟩

theorem drop (h : Texts blocks (container :: stack) pending stream read)
    (hempty : compact container.segments = []) : Texts blocks stack pending stream read :=
  h.close (by rw [hempty, append_nil]) (.inl hempty)

theorem paragraph_iff : Texts blocks (.paragraph :: stack) pending stream read ↔
    Texts blocks stack pending stream read :=
  ⟨fun h => h.drop rfl, fun h => h.push_container rfl rfl⟩

/-- What the innermost container holds is replaced, and the text in the buffer goes to it. -/
theorem replace (h : Texts blocks (container :: stack) pending stream read)
    {container' : Container} {stream' : Stream} (hnewest : stream'.newest = stream.newest)
    (hnext : ∀ parts waiting before, Holds stream.newest container parts →
      waiting.map Prod.fst = pending → (∀ c ∈ waiting, c.2 = stream.owner) →
      Fresh (container :: stack) stream (before ++ owners parts) →
      ∃ parts', parts'.flatMap Part.chars = parts.flatMap Part.chars ++ waiting ∧
        Holds stream.newest container' parts' ∧
        Fresh (container' :: stack) stream' (before ++ owners parts')) :
    Texts blocks (container' :: stack) [] stream' read := by
  obtain ⟨⟨done, held, waiting⟩, hfits⟩ := h
  obtain ⟨hread, hdone, hheld, hwaiting, howned, hfresh⟩ := hfits
  cases hheld with
  | @cons _ parts _ held hfirst hrest =>
    have hparts (parts : List Part) : Ledger.parts ⟨done, parts :: held, waiting⟩ =
        done ++ held.reverse.flatten ++ parts := by
      simp [Ledger.parts]
    rw [hparts, owners_append] at hfresh
    obtain ⟨parts', hchars, hholds, hfresh'⟩ :=
      hnext parts waiting _ hfirst hwaiting howned hfresh
    have hparts' : Ledger.parts ⟨done, parts' :: held, []⟩ =
        done ++ held.reverse.flatten ++ parts' := hparts parts'
    rw [← hnewest] at hholds hrest
    refine ⟨⟨done, parts' :: held, []⟩, ?_, hdone, .cons hholds hrest, rfl,
      forall_mem_nil _, ?_⟩
    · simp only [hread, hparts, hparts', flatMap_append, hchars, append_nil,
        append_assoc]
    · rw [hparts', owners_append]
      exact hfresh'

/-- The text in the buffer goes to a quote. -/
theorem flush_quote (h : Texts blocks (.quote runs :: stack) pending stream read)
    (htaken : readRuns taken = pending) :
    Texts blocks (.quote (addLine runs taken) :: stack) [] stream read := by
  refine h.replace rfl fun parts waiting before hholds hwaiting _ hfresh => ?_
  have hchars := chars_of_labels hholds.labels
  have howners : owners parts = [] := by
    refine owners_of_labels hholds.labels fun segment hsegment => ?_
    have hmem : segment ∈ [(⟨false, readRuns runs⟩ : Segment)] := mem_of_mem_filter hsegment
    rw [mem_singleton.mp hmem]
  refine ⟨partOf none (parts.flatMap Part.chars ++ waiting), chars_partOf _ _,
    ⟨?_, fun frame hframe => by cases hframe⟩, ?_⟩
  · have hlabels := labels_free (parts.flatMap Part.chars ++ waiting)
    rw [map_append, hchars, hwaiting] at hlabels
    simpa [Container.segments, htaken] using hlabels
  · rw [owners_partOf_none, ← howners]
    refine ⟨hfresh.nodup, hfresh.bounded, hfresh.cells, fun frame hframe => ?_⟩
    obtain hframe | hframe := mem_cons.mp hframe
    · cases hframe
    · exact hfresh.lists frame (mem_cons_of_mem _ hframe)

/-- The text in the buffer goes to the last item of a list; it is in the item that started last. -/
theorem flush_list {frame : ListFrame} (h : Texts blocks (.list frame :: stack) pending stream read)
    (htaken : readRuns taken = pending) {m : ℕ} (hnewest : stream.newest = some m)
    (howner : stream.owner = some m) (hbound : m < stream.position)
    (hcells : ∀ tag ∈ stream.opened, tag.1 = .tableCell → tag.2 ≠ m)
    (hsingle : stack.any Container.isList = false) :
    Texts blocks (.list { frame with items := addToLast frame.items taken } :: stack) [] stream
      read := by
  refine h.replace rfl fun parts waiting before hholds hwaiting howned hfresh => ?_
  have hlists := hfresh.lists frame mem_cons_self
  have hmine : ∀ o ∈ some m, ∀ c ∈ waiting, c.2 = some o := by
    rintro o ho c hc
    rw [howned c hc, howner, Option.mem_some_iff.mp ho]
  obtain ⟨ordered, start, items, depth⟩ := frame
  obtain hnil | ⟨init, last, hitems⟩ := eq_nil_or_concat items
  · rw [hlists.1.mpr hnil] at hnewest
    cases hnewest
  rw [concat_eq_append] at hitems
  subst hitems
  have hlabels := hholds.labels
  simp only [Container.segments, map_append, map_cons, map_nil] at hlabels
  -- The text of the last item grows by the text in the buffer.
  have hsegments : compact (Container.segments (.list
      ⟨ordered, start, addToLast (init ++ [last]) taken, depth⟩)) =
        compact (init.map fun item => ⟨true, readRuns item.runs⟩) ++
          compact [⟨true, readRuns last.runs ++ waiting.map Prod.fst⟩] := by
    rw [addToLast_concat, Container.segments, map_append, map_singleton,
      compact_append, readRuns_addLine, htaken, hwaiting]
  by_cases hblank : readRuns last.runs = []
  · have hunused : m ∉ before ++ owners parts :=
      hlists.2 last (getLast?_concat ..) hblank m hnewest
    rw [hblank, compact_append, compact_singleton_nil, append_nil] at hlabels
    rw [hblank, nil_append] at hsegments
    refine ⟨parts ++ partOf (some m) waiting, ?_, ⟨?_, ?_⟩, ?_⟩
    · rw [flatMap_append, chars_partOf]
    · rw [hsegments]
      exact rel_append hlabels (labels_partOf (some m) hmine)
    · intro frame hframe item hitem hne
      obtain rfl := Container.list.inj hframe
      rw [addToLast_concat, getLast?_concat] at hitem
      obtain rfl := Option.some.inj hitem
      rw [readRuns_addLine, hblank, nil_append, htaken, ← hwaiting] at hne
      have hwait : waiting ≠ [] := fun hnil => hne (by rw [hnil]; rfl)
      rw [partOf, if_neg (by simpa using hwait), getLast?_concat, hnewest]
      exact ⟨_, rfl, rfl⟩
    · rw [owners_append, owners_partOf_some, ← append_assoc]
      by_cases hwait : waiting.isEmpty = true
      · rw [if_pos hwait, append_nil]
        refine ⟨hfresh.nodup, hfresh.bounded, hfresh.cells, fun frame hframe => ?_⟩
        obtain hframe | hframe := mem_cons.mp hframe
        · obtain rfl := Container.list.inj hframe
          rw [addToLast_concat, hnewest]
          exact ⟨by simp, fun _ _ _ m' hm' => Option.mem_some_iff.mp hm' ▸ hunused⟩
        · exact hfresh.lists frame (mem_cons_of_mem _ hframe)
      · rw [if_neg hwait]
        refine ⟨nodup_concat hfresh.nodup hunused, fun o ho => ?_,
          fun tag htag hcell ho => ?_, fun frame hframe => ?_⟩
        · obtain ho | ho := mem_append.mp ho
          · exact hfresh.bounded o ho
          · rw [mem_singleton.mp ho]
            exact hbound
        · obtain ho | ho := mem_append.mp ho
          · exact hfresh.cells tag htag hcell ho
          · exact hcells tag htag hcell (mem_singleton.mp ho)
        · obtain hframe | hframe := mem_cons.mp hframe
          · obtain rfl := Container.list.inj hframe
            rw [addToLast_concat, hnewest]
            refine ⟨by simp, fun item hitem hnil => ?_⟩
            rw [getLast?_concat] at hitem
            obtain rfl := Option.some.inj hitem
            rw [readRuns_addLine, hblank, nil_append, htaken, ← hwaiting,
              map_eq_nil_iff] at hnil
            rw [hnil] at hwait
            exact absurd rfl hwait
          · exact absurd rfl (any_eq_false.mp hsingle _ hframe)
  · obtain ⟨part, hpart, howner'⟩ := hholds.newest _ rfl last (getLast?_concat ..) hblank
    have hlast (text : List Char) : compact [⟨true, readRuns last.runs ++ text⟩] =
        [⟨true, readRuns last.runs ++ text⟩] := by
      rw [compact, filter_cons_of_pos (by simp [hblank])]
      rfl
    have hlast' := hlast []
    rw [append_nil] at hlast'
    rw [compact_append, hlast'] at hlabels
    obtain ⟨front, part', rfl, hfront, hpart'⟩ := exists_of_concat hlabels
    obtain rfl : part' = part := Option.some.inj ((getLast?_concat ..).symm.trans hpart)
    rw [hnewest] at howner'
    have howners : owners (front ++ [⟨some m, part'.chars ++ waiting⟩]) =
        owners (front ++ [part']) := by
      simp [owners, howner']
    refine ⟨front ++ [⟨some m, part'.chars ++ waiting⟩], by simp, ⟨?_, ?_⟩, ?_⟩
    · rw [hsegments, hlast]
      refine rel_append hfront (.cons ⟨?_, rfl, fun o ho c hc => ?_⟩ .nil)
      · rw [map_append, ← hpart'.text]
      · obtain hc | hc := mem_append.mp hc
        · exact hpart'.owner o (by rw [howner']; exact ho) c hc
        · exact hmine o ho c hc
    · intro frame hframe item hitem hne
      rw [getLast?_concat, hnewest]
      exact ⟨_, rfl, rfl⟩
    · rw [howners]
      refine ⟨hfresh.nodup, hfresh.bounded, hfresh.cells, fun frame hframe => ?_⟩
      obtain hframe | hframe := mem_cons.mp hframe
      · obtain rfl := Container.list.inj hframe
        rw [addToLast_concat, hnewest]
        refine ⟨by simp, fun item hitem hnil => ?_⟩
        rw [getLast?_concat] at hitem
        obtain rfl := Option.some.inj hitem
        rw [readRuns_addLine] at hnil
        exact absurd (append_eq_nil_iff.mp hnil).1 hblank
      · exact hfresh.lists frame (mem_cons_of_mem _ hframe)

/-- The text in the buffer becomes a cell, and the cell is closed. -/
theorem flush_cell {frame frame' : TableFrame}
    (h : Texts blocks (.table frame :: stack) pending stream read)
    (hframe : Container.segments (.table frame') =
      Container.segments (.table frame) ++ [⟨true, pending⟩])
    {m : ℕ} {opened : List (Tag × ℕ)} (hopened : stream.opened = (.tableCell, m) :: opened)
    (howner : stream.owner = some m) (hbound : m < stream.position)
    (hdistinct : ∀ tag ∈ opened, tag.2 ≠ m) (hnewest : ∀ newest ∈ stream.newest, newest ≠ m) :
    Texts blocks (.table frame' :: stack) [] (stream.step (.stop .tableCell)) read := by
  refine h.replace rfl fun parts waiting before hholds hwaiting howned hfresh => ?_
  have hmine : ∀ o ∈ some m, ∀ c ∈ waiting, c.2 = some o := by
    rintro o ho c hc
    rw [howned c hc, howner, Option.mem_some_iff.mp ho]
  have hunused : m ∉ before ++ owners parts :=
    hfresh.cells (.tableCell, m) (by rw [hopened]; exact mem_cons_self) rfl
  have hlabels := labels_partOf (some m) hmine
  rw [hwaiting] at hlabels
  refine ⟨parts ++ partOf (some m) waiting, by rw [flatMap_append, chars_partOf],
    ⟨?_, fun frame hframe => by cases hframe⟩, ?_⟩
  · rw [hframe, compact_append]
    exact rel_append hholds.labels hlabels
  have hused : ∀ o ∈ owners (partOf (some m) waiting), o = m := by
    rw [owners_partOf_some]
    by_cases hwait : waiting.isEmpty = true
    · rw [if_pos hwait]
      exact forall_mem_nil _
    · rw [if_neg hwait]
      exact forall_mem_singleton.mpr rfl
  rw [owners_append, ← append_assoc]
  refine ⟨?_, fun o ho => ?_, fun tag htag hcell ho => ?_, fun frame hmem => ?_⟩
  · rw [owners_partOf_some]
    by_cases hwait : waiting.isEmpty = true
    · rw [if_pos hwait, append_nil]
      exact hfresh.nodup
    · rw [if_neg hwait]
      exact nodup_concat hfresh.nodup hunused
  · obtain ho | ho := mem_append.mp ho
    · exact Nat.lt_succ_of_lt (hfresh.bounded o ho)
    · rw [hused o ho]
      exact Nat.lt_succ_of_lt hbound
  · have htag' : tag ∈ opened := by
      simpa only [Stream.step, hopened, tail_cons] using htag
    obtain ho | ho := mem_append.mp ho
    · refine hfresh.cells tag ?_ hcell ho
      rw [hopened]
      exact mem_cons_of_mem _ htag'
    · exact hdistinct tag htag' (hused _ ho)
  · obtain hmem | hmem := mem_cons.mp hmem
    · cases hmem
    · obtain ⟨hiff, hlast⟩ := hfresh.lists frame (mem_cons_of_mem _ hmem)
      refine ⟨hiff, fun item hitem hnil newest hm ho => ?_⟩
      obtain ho | ho := mem_append.mp ho
      · exact hlast item hitem hnil newest hm ho
      · exact hnewest newest hm (hused _ ho)

/-- A table is changed, but not its text. -/
theorem modifyTable (h : Texts blocks stack [] stream read) {f : TableFrame → TableFrame}
    (hf : ∀ frame, Container.segments (.table (f frame)) = Container.segments (.table frame)) :
    Texts blocks (modifyTable f stack) [] stream read := by
  cases stack with
  | nil => exact h
  | cons container stack =>
    cases container with
    | table frame =>
      refine h.replace rfl fun parts waiting before hholds hwaiting _ hfresh =>
        ⟨parts, ?_, ⟨?_, fun frame' hframe => by cases hframe⟩, ?_⟩
      · rw [map_eq_nil_iff.mp hwaiting, append_nil]
      · rw [hf]
        exact hholds.labels
      · refine ⟨hfresh.nodup, hfresh.bounded, hfresh.cells, fun frame' hframe => ?_⟩
        obtain hframe | hframe := mem_cons.mp hframe
        · cases hframe
        · exact hfresh.lists frame' (mem_cons_of_mem _ hframe)
    | _ => exact h

/-- The stream goes on without a new item. -/
theorem restream (h : Texts blocks stack pending stream read) {stream' : Stream}
    (howner : pending = [] ∨ stream'.owner = stream.owner)
    (hnewest : stream'.newest = stream.newest) (hposition : stream.position ≤ stream'.position)
    (hcells : ∀ tag ∈ stream'.opened, tag.1 = .tableCell →
      tag ∈ stream.opened ∨ stream.position ≤ tag.2) :
    Texts blocks stack pending stream' read := by
  obtain ⟨ledger, hfits⟩ := h
  have hheld := hfits.held
  rw [← hnewest] at hheld
  refine ⟨ledger, hfits.read, hfits.done, hheld, hfits.waiting, fun c hc => ?_,
    hfits.fresh.nodup, fun o ho => (hfits.fresh.bounded o ho).trans_le hposition,
    fun tag htag hcell ho => ?_, fun frame hframe => ?_⟩
  · obtain hnil | howner := howner
    · rw [← hfits.waiting, map_eq_nil_iff] at hnil
      rw [hnil] at hc
      cases hc
    · rw [howner]
      exact hfits.owned c hc
  · obtain htag | hlate := hcells tag htag hcell
    · exact hfits.fresh.cells tag htag hcell ho
    · exact absurd (hfits.fresh.bounded _ ho) (Nat.not_lt.mpr hlate)
  · rw [hnewest]
    exact hfits.fresh.lists frame hframe

/-- A new newest item does not matter to containers that are no lists. -/
theorem holds_of_not_list {newest newest' : Option ℕ} {parts : List Part}
    (h : Holds newest container parts) (hlist : container.isList = false) :
    Holds newest' container parts :=
  ⟨h.labels, fun frame hframe => by rw [hframe] at hlist; cases hlist⟩

theorem holds_of_not_lists {newest newest' : Option ℕ} {held : List (List Part)}
    (h : List.Forall₂ (Holds newest) stack held) (hlist : stack.any Container.isList = false) :
    List.Forall₂ (Holds newest') stack held := by
  induction h with
  | nil => exact .nil
  | cons hfirst hrest ih =>
    obtain ⟨hfirst', hrest'⟩ := Bool.or_eq_false_iff.mp hlist
    exact .cons (holds_of_not_list hfirst hfirst') (ih hrest')

theorem push_list (h : Texts blocks stack [] stream read)
    (hlist : stack.any Container.isList = false) {stream' : Stream} {frame : ListFrame}
    (hitems : frame.items = []) (hnewest : stream'.newest = none)
    (hposition : stream.position ≤ stream'.position)
    (hcells : ∀ tag ∈ stream'.opened, tag.1 = .tableCell → tag ∈ stream.opened) :
    Texts blocks (.list frame :: stack) [] stream' read := by
  obtain ⟨ledger, hfits⟩ := h
  have hparts : Ledger.parts { ledger with held := [] :: ledger.held } = ledger.parts := by
    simp [Ledger.parts]
  have hwaiting : ledger.waiting = [] := map_eq_nil_iff.mp hfits.waiting
  refine ⟨{ ledger with held := [] :: ledger.held }, ?_, hfits.done, ?_, hfits.waiting, ?_, ?_⟩
  · rw [hparts]
    exact hfits.read
  · refine .cons ⟨?_, fun frame' hframe item hitem => ?_⟩ (holds_of_not_lists hfits.held hlist)
    · rw [Container.segments, hitems]
      exact .nil
    · obtain rfl := Container.list.inj hframe
      rw [hitems] at hitem
      cases hitem
  · rw [hwaiting]
    exact forall_mem_nil _
  · rw [hparts]
    refine ⟨hfits.fresh.nodup, fun o ho => (hfits.fresh.bounded o ho).trans_le hposition,
      fun tag htag hcell => hfits.fresh.cells tag (hcells tag htag hcell) hcell,
      fun frame' hframe => ?_⟩
    obtain hframe | hframe := mem_cons.mp hframe
    · obtain rfl := Container.list.inj hframe
      rw [hitems]
      exact ⟨iff_of_true hnewest rfl, fun item hitem => by cases hitem⟩
    · exact absurd rfl (any_eq_false.mp hlist _ hframe)

theorem mem_modifyList {f : ListFrame → ListFrame} {frame : ListFrame}
    (h : .list frame ∈ modifyList f stack) (hsingle : stack.countP Container.isList ≤ 1) :
    ∃ frame', frame = f frame' := by
  induction stack with
  | nil => cases h
  | cons container stack ih =>
    cases container with
    | list frame' =>
      obtain h | h := mem_cons.mp h
      · exact ⟨frame', Container.list.inj h⟩
      · have hzero : stack.countP Container.isList = 0 := by
          rw [countP_cons_of_pos rfl] at hsingle
          omega
        exact absurd rfl (countP_eq_zero.mp hzero _ h)
    | _ =>
      rw [countP_cons_of_neg (by simp [Container.isList])] at hsingle
      obtain h | h := mem_cons.mp h
      · cases h
      · exact ih h hsingle

/-- An empty item holds nothing, and takes the place of the last one. -/
theorem holds_modifyList {newest newest' : Option ℕ} {held : List (List Part)}
    (h : List.Forall₂ (Holds newest) stack held) (hsingle : stack.countP Container.isList ≤ 1)
    (depth : ℕ) :
    List.Forall₂ (Holds newest') (modifyList (fun frame => frame.addItem depth) stack) held := by
  induction h with
  | nil => exact .nil
  | @cons container parts stack held hfirst hrest ih =>
    cases hlist : container.isList with
    | true =>
      rw [countP_cons_of_pos hlist] at hsingle
      have hnone : stack.any Container.isList = false :=
        any_eq_false.mpr (countP_eq_zero.mp (by omega))
      cases container with
      | list frame =>
        refine .cons ⟨?_, fun frame' hframe item hitem hne => ?_⟩ (holds_of_not_lists hrest hnone)
        · have hsegments : Container.segments (.list (frame.addItem depth)) =
              Container.segments (.list frame) ++ [⟨true, []⟩] := map_append ..
          rw [hsegments, compact_append, compact_singleton_nil, append_nil]
          exact hfirst.labels
        · obtain rfl := Container.list.inj hframe
          obtain rfl := Option.some.inj ((getLast?_concat ..).symm.trans hitem)
          exact absurd rfl hne
      | _ => cases hlist
    | false =>
      rw [countP_cons_of_neg (by simp [hlist])] at hsingle
      cases container with
      | list frame => cases hlist
      | _ => exact .cons (holds_of_not_list hfirst hlist) (ih hsingle)

theorem push_item (h : Texts blocks stack [] stream read)
    (hsingle : stack.countP Container.isList ≤ 1) (depth : ℕ) :
    Texts blocks (modifyList (fun frame => frame.addItem depth) stack) []
      (stream.step (.start .item)) read := by
  obtain ⟨ledger, hfits⟩ := h
  have hwaiting : ledger.waiting = [] := map_eq_nil_iff.mp hfits.waiting
  refine ⟨ledger, hfits.read, hfits.done, ?_, hfits.waiting, ?_, hfits.fresh.nodup,
    fun o ho => Nat.lt_succ_of_lt (hfits.fresh.bounded o ho), fun tag htag hcell => ?_,
    fun frame hframe => ?_⟩
  · exact holds_modifyList hfits.held hsingle depth
  · rw [hwaiting]
    exact forall_mem_nil _
  · obtain rfl | htag := mem_cons.mp htag
    · cases hcell
    · exact hfits.fresh.cells tag htag hcell
  · obtain ⟨frame', rfl⟩ := mem_modifyList hframe hsingle
    refine ⟨iff_of_false (by simp [Stream.step]) (by simp [ListFrame.addItem]),
      fun item hitem hnil m hm ho => ?_⟩
    obtain rfl := Option.some.inj hm
    exact absurd (hfits.fresh.bounded _ ho) (Nat.lt_irrefl _)

end Texts

end Markdown

end OpenBitFun
