import OpenBitFun.ReadFile

/-!
# The decoder does not depend on the chunks

Between chunks the decoder has seen a text and holds the bytes of an unfinished scalar behind it.
Between characters it has handed on all lines that are finished, and holds the start of the one that
is not.
-/

namespace OpenBitFun

open List

namespace ReadFile

open Utf8

/-! ## Lines -/

/-- A line cut to a number of characters, and whether it has more. -/
def clip (maxLineChars : ℕ) (line : List Char) : List Char × Bool :=
  (line.take maxLineChars, decide (maxLineChars < line.length))

/-- A selection that has been handed some lines. -/
def ReadLineSelection.pushLines (s : ReadLineSelection) (lines : List (List Char)) :
    ReadLineSelection :=
  (lines.map (clip s.maxLineChars)).foldl (fun s line => s.push line.1 line.2) s

@[simp] theorem ReadLineSelection.select_maxLineChars (s : ReadLineSelection) (n : ℕ)
    (line : List Char) (truncated : Bool) :
    (s.select n line truncated).maxLineChars = s.maxLineChars := by
  rw [select]
  split
  · rfl
  · split
    · rfl
    · rfl

@[simp] theorem ReadLineSelection.push_maxLineChars (s : ReadLineSelection) (line : List Char)
    (truncated : Bool) : (s.push line truncated).maxLineChars = s.maxLineChars := by
  rw [push]
  dsimp only
  split
  · rfl
  · split
    · rfl
    · split
      · rfl
      · rw [select_maxLineChars]

theorem ReadLineSelection.pushLines_cons (s : ReadLineSelection) (line : List Char)
    (lines : List (List Char)) :
    s.pushLines (line :: lines) =
      (s.push (clip s.maxLineChars line).1 (clip s.maxLineChars line).2).pushLines lines := by
  rw [pushLines, map_cons, foldl_cons, pushLines, push_maxLineChars]

/-- A line without its carriage return. -/
def withoutReturn (line : List Char) : List Char :=
  if line.getLast? = some '\r' then line.dropLast else line

namespace ReadTextDecoder

/-! ## Characters -/

/-- The decoder holds the start of a text. -/
structure Kept (d : ReadTextDecoder) (text : List Char) : Prop where
  line : d.line = text.take d.selection.maxLineChars
  lineChars : d.lineChars = min d.selection.maxLineChars text.length
  lineTruncated : d.lineTruncated = decide (d.selection.maxLineChars < text.length)

theorem Kept.retainChar {d : ReadTextDecoder} {text : List Char} (h : d.Kept text) (c : Char) :
    (d.retainChar c).Kept (text ++ [c]) := by
  rw [ReadTextDecoder.retainChar]
  by_cases hroom : d.lineChars < d.selection.maxLineChars
  · have hlen : text.length < d.selection.maxLineChars := by
      have := h.lineChars
      omega
    have hold : text.take d.selection.maxLineChars = text :=
      take_of_length_le (Nat.le_of_lt hlen)
    have hnew : (text ++ [c]).take d.selection.maxLineChars = text ++ [c] :=
      take_of_length_le (by rw [length_append, length_singleton]; exact hlen)
    rw [if_pos hroom]
    refine ⟨?_, ?_, ?_⟩
    · dsimp only
      rw [h.line, hold, hnew]
    · dsimp only
      rw [h.lineChars, length_append, length_singleton]
      omega
    · dsimp only
      rw [h.lineTruncated, length_append, length_singleton, decide_eq_decide]
      omega
  · have hlen : d.selection.maxLineChars ≤ text.length := by
      have := h.lineChars
      omega
    rw [if_neg hroom]
    refine ⟨?_, ?_, ?_⟩
    · dsimp only
      rw [h.line, take_append_of_le_length hlen]
    · dsimp only
      rw [h.lineChars, length_append, length_singleton]
      omega
    · dsimp only
      rw [length_append, length_singleton]
      exact (decide_eq_true (Nat.lt_succ_of_le hlen)).symm

/-- The decoder holds a line that is not finished. -/
structure Holds (d : ReadTextDecoder) (line : List Char) : Prop where
  /-- It has a line feed nowhere. -/
  feed : '\n' ∉ line
  /-- A carriage return at the end is held back. -/
  kept : d.Kept (withoutReturn line)
  hasLine : d.hasLine = !line.isEmpty
  pendingCr : d.pendingCr = (line.getLast? == some '\r')

@[simp] theorem retainChar_selection (d : ReadTextDecoder) (c : Char) :
    (d.retainChar c).selection = d.selection := by
  rw [retainChar]
  split
  · rfl
  · rfl

@[simp] theorem retainChar_utf8Tail (d : ReadTextDecoder) (c : Char) :
    (d.retainChar c).utf8Tail = d.utf8Tail := by
  rw [retainChar]
  split
  · rfl
  · rfl

@[simp] theorem retainChar_hasLine (d : ReadTextDecoder) (c : Char) :
    (d.retainChar c).hasLine = d.hasLine := by
  rw [retainChar]
  split
  · rfl
  · rfl

/-- The decoder with a carriage return that it had held back. -/
def flush (d : ReadTextDecoder) : ReadTextDecoder := if d.pendingCr then d.retainChar '\r' else d

/-- A carriage return that was held back is part of the line. -/
theorem Holds.kept_flush {d : ReadTextDecoder} {line : List Char} (h : d.Holds line) :
    d.flush.Kept line := by
  have hkept := h.kept
  rw [withoutReturn] at hkept
  rw [flush]
  cases hpending : d.pendingCr with
  | true =>
    have hlast : line.getLast? = some '\r' := by
      rw [h.pendingCr] at hpending
      exact beq_iff_eq.1 hpending
    rw [if_pos hlast] at hkept
    have hline : line.dropLast ++ ['\r'] = line := by
      obtain ⟨start, rfl⟩ := getLast?_eq_some_iff.1 hlast
      rw [dropLast_concat]
    rw [if_pos rfl, ← hline]
    exact hkept.retainChar '\r'
  | false =>
    have hlast : line.getLast? ≠ some '\r' := by
      rw [h.pendingCr] at hpending
      exact fun heq => by simp [heq] at hpending
    rw [if_neg hlast] at hkept
    rw [if_neg (by simp)]
    exact hkept

/-- Where the decoder is in the text does not depend on what it is about to do with it. -/
theorem Kept.congr {d d' : ReadTextDecoder} {text : List Char} (h : d.Kept text)
    (hselection : d'.selection = d.selection) (hline : d'.line = d.line)
    (hchars : d'.lineChars = d.lineChars) (htruncated : d'.lineTruncated = d.lineTruncated) :
    d'.Kept text :=
  ⟨by rw [hline, hselection, h.line], by rw [hchars, hselection, h.lineChars],
    by rw [htruncated, hselection, h.lineTruncated]⟩

@[simp] theorem flush_selection (d : ReadTextDecoder) : d.flush.selection = d.selection := by
  rw [flush]
  split
  · exact d.retainChar_selection '\r'
  · rfl

@[simp] theorem flush_utf8Tail (d : ReadTextDecoder) : d.flush.utf8Tail = d.utf8Tail := by
  rw [flush]
  split
  · exact d.retainChar_utf8Tail '\r'
  · rfl

/-- What a character that is no line feed does. -/
theorem pushChar_eq (d : ReadTextDecoder) {c : Char} (hc : c ≠ '\n') :
    d.pushChar c = { (if c = '\r' then d.flush else d.flush.retainChar c) with
      hasLine := true
      pendingCr := c == '\r' } := by
  rw [pushChar, if_neg hc, flush]
  by_cases hreturn : c = '\r'
  · cases hpending : d.pendingCr with
    | true =>
      simp only [hreturn, hpending, if_true, beq_self_eq_true, retainChar]
      split
      · rfl
      · rfl
    | false => simp [hreturn]
  · have hne : (c == '\r') = false := beq_false_of_ne hreturn
    cases hpending : d.pendingCr with
    | true =>
      simp only [hreturn, hpending, hne, if_true, if_false, Bool.false_eq_true, retainChar]
      grind
    | false =>
      simp only [hreturn, hpending, hne, if_false, Bool.false_eq_true, retainChar]
      grind

/-- A character that is no line feed is added to the line. -/
theorem Holds.pushChar {d : ReadTextDecoder} {line : List Char} (h : d.Holds line) {c : Char}
    (hc : c ≠ '\n') : (d.pushChar c).Holds (line ++ [c]) := by
  have hfeed : '\n' ∉ line ++ [c] := by
    rw [mem_append, mem_singleton, not_or]
    exact ⟨h.feed, Ne.symm hc⟩
  have hflush := h.kept_flush
  rw [pushChar_eq d hc]
  refine ⟨hfeed, ?_, ?_, ?_⟩
  · rw [withoutReturn, getLast?_concat]
    by_cases hreturn : c = '\r'
    · rw [if_pos hreturn, if_pos (by rw [hreturn]), dropLast_concat]
      exact hflush.congr rfl rfl rfl rfl
    · rw [if_neg hreturn, if_neg fun heq => hreturn (Option.some.inj heq)]
      exact (hflush.retainChar c).congr rfl rfl rfl rfl
  · simp
  · simp

@[simp] theorem pushChar_utf8Tail (d : ReadTextDecoder) (c : Char) :
    (d.pushChar c).utf8Tail = d.utf8Tail := by
  by_cases hc : c = '\n'
  · rw [pushChar, if_pos hc]
    rfl
  · rw [pushChar_eq d hc]
    split
    · exact d.flush_utf8Tail
    · exact (d.flush.retainChar_utf8Tail c).trans d.flush_utf8Tail

theorem pushChar_selection (d : ReadTextDecoder) {c : Char} (hc : c ≠ '\n') :
    (d.pushChar c).selection = d.selection := by
  rw [pushChar_eq d hc]
  split
  · exact d.flush_selection
  · exact (d.flush.retainChar_selection c).trans d.flush_selection

/-- A line feed finishes the line, without a carriage return in front of it. -/
theorem Holds.pushFeed {d : ReadTextDecoder} {line : List Char} (h : d.Holds line) :
    (d.pushChar '\n').Holds [] ∧ (d.pushChar '\n').selection =
      d.selection.push (clip d.selection.maxLineChars (withoutReturn line)).1
        (clip d.selection.maxLineChars (withoutReturn line)).2 := by
  rw [ReadTextDecoder.pushChar, if_pos rfl]
  refine ⟨⟨by simp, ⟨by simp [finishLine, withoutReturn], by simp [finishLine, withoutReturn],
    by simp [finishLine, withoutReturn]⟩, rfl, rfl⟩, ?_⟩
  simp only [finishLine, h.kept.line, h.kept.lineTruncated, clip]

/-- A decoder that has nothing to complete hands on the lines of the text, the last one too if it is
not empty. -/
theorem Holds.finish_pushText {d : ReadTextDecoder} {line : List Char} (h : d.Holds line)
    (htail : d.utf8Tail = []) (text : List Char) :
    (d.pushText text).finish = .ok (d.selection.pushLines (Text.lines (line ++ text))) := by
  induction text generalizing d line with
  | nil =>
    rw [append_nil, pushText, foldl_nil, finish, htail, isEmpty_nil, if_pos rfl]
    have hflush := h.kept_flush
    have hhas : d.flush.hasLine = !line.isEmpty := by
      rw [flush]
      split
      · rw [retainChar_hasLine, h.hasLine]
      · exact h.hasLine
    change Except.ok (if d.flush.hasLine = true then d.flush.finishLine else d.flush).selection = _
    rw [hhas]
    cases hline : line with
    | nil => simp [Text.lines, Text.splitInclusive, ReadLineSelection.pushLines]
    | cons c rest =>
      rw [← hline, Text.lines_of_not_mem h.feed (by rw [hline]; simp), hline]
      simp only [isEmpty_cons, Bool.not_false, if_true, finishLine, hflush.line,
        hflush.lineTruncated, flush_selection, hline, ReadLineSelection.pushLines_cons, clip]
      rfl
  | cons c text ih =>
    rw [pushText, foldl_cons, ← pushText]
    by_cases hc : c = '\n'
    · subst hc
      obtain ⟨hholds, hselection⟩ := h.pushFeed
      rw [ih hholds (by rw [pushChar_utf8Tail, htail]), nil_append, hselection,
        Text.lines_append h.feed, ← withoutReturn, ReadLineSelection.pushLines_cons]
    · rw [ih (h.pushChar hc) (by rw [pushChar_utf8Tail, htail]), pushChar_selection d hc,
        append_assoc, singleton_append]

/-! ## Bytes -/

/-- The characters of a text do not depend on the bytes that are kept. -/
theorem pushText_utf8Tail (d : ReadTextDecoder) (tail : List UInt8) (text : List Char) :
    { d with utf8Tail := tail }.pushText text = { d.pushText text with utf8Tail := tail } := by
  induction text generalizing d with
  | nil => rfl
  | cons c text ih =>
    have hchar : { d with utf8Tail := tail }.pushChar c =
        { d.pushChar c with utf8Tail := tail } := by
      by_cases hc : c = '\n'
      · rw [pushChar, if_pos hc, pushChar, if_pos hc]
        rfl
      · rw [pushChar_eq _ hc, pushChar_eq _ hc]
        simp only [flush, retainChar]
        grind
    rw [pushText, foldl_cons, ← pushText, hchar, ih]
    rfl

theorem pushText_append (d : ReadTextDecoder) (text more : List Char) :
    d.pushText (text ++ more) = (d.pushText text).pushText more :=
  foldl_append

/-- A byte behind an unfinished scalar finishes no more than the scalar. -/
theorem eq_nil_of_incomplete {tail more : List UInt8} {byte : UInt8} {c : Char}
    (htail : first tail = .incomplete)
    (h : tail ++ [byte] = String.utf8EncodeChar c ++ more) : more = [] := by
  rcases eq_nil_or_concat more with hnil | ⟨start, last, rfl⟩
  · exact hnil
  · rw [concat_eq_append, ← append_assoc] at h
    rw [(append_inj' h rfl).1, first_utf8EncodeChar] at htail
    cases htail

/-- What has become of some bytes behind an unfinished scalar: a text has been pushed, and an
unfinished scalar is kept, with bytes behind it that have not been looked at. -/
structure Pushed (d : ReadTextDecoder) (bytes : List UInt8) (d' : ReadTextDecoder)
    (text : List Char) (rest : List UInt8) : Prop where
  pushed : d' = { d.pushText text with utf8Tail := d'.utf8Tail }
  split : d.utf8Tail ++ bytes = encode text ++ (d'.utf8Tail ++ rest)
  tail : first d'.utf8Tail = .incomplete

/-- Bytes that are no UTF-8 behind a text. -/
def Broken (bytes : List UInt8) : Prop :=
  ∃ text rest len, bytes = encode text ++ rest ∧ first rest = .invalid len

/-- The loop that completes a scalar stops behind it, or at the end of the bytes, or fails. -/
theorem completeTail_spec (d : ReadTextDecoder) (bytes : List UInt8)
    (htail : first d.utf8Tail = .incomplete) :
    (∃ d' text rest, completeTail d bytes = .ok (d', rest) ∧ Pushed d bytes d' text rest ∧
      (d'.utf8Tail = [] ∨ rest = [])) ∨
    completeTail d bytes = .error invalid ∧ Broken (d.utf8Tail ++ bytes) := by
  induction bytes generalizing d with
  | nil => exact .inl ⟨d, [], [], rfl, ⟨rfl, rfl, htail⟩, .inr rfl⟩
  | cons byte bytes ih =>
    rw [completeTail]
    by_cases hempty : d.utf8Tail = []
    · rw [if_pos (isEmpty_iff.2 hempty)]
      exact .inl ⟨d, [], byte :: bytes, rfl, ⟨rfl, rfl, htail⟩, .inl hempty⟩
    have hlen := length_of_incomplete htail
    rw [if_neg (mt List.isEmpty_iff.1 hempty), if_neg (by omega)]
    cases hread : fromUtf8 (d.utf8Tail ++ [byte]) with
    | ok text =>
      have hbytes := fromUtf8_eq_ok.1 hread
      cases text with
      | nil => simp at hbytes
      | cons c more =>
        -- just the scalar is finished, so that the loop ends here
        rw [encode_cons] at hbytes
        have hmore := eq_nil_of_incomplete htail hbytes
        rw [hmore, append_nil] at hbytes
        refine .inl ⟨{ d with utf8Tail := [] }.pushChar c, [c], bytes, ?_, ⟨?_, ?_, ?_⟩, .inl ?_⟩
        · cases bytes with
          | nil => rfl
          | cons byte bytes =>
            dsimp only
            rw [completeTail, if_pos (by rw [pushChar_utf8Tail]; rfl)]
        · rw [pushChar_utf8Tail]
          exact pushText_utf8Tail d [] [c]
        · rw [pushChar_utf8Tail, encode_cons, encode_nil, append_nil, nil_append,
            ← hbytes, append_assoc, singleton_append]
        · rw [pushChar_utf8Tail]
          rfl
        · rw [pushChar_utf8Tail]
    | error e =>
      obtain ⟨text, rest, hsplit, -, hne, hfirst⟩ :=
        split_of_fromUtf8Loop (Nat.le_refl _) hread
      obtain rfl : text = [] := by
        cases text with
        | nil => rfl
        | cons c text =>
          rw [encode_cons, append_assoc] at hsplit
          exact absurd (append_eq_nil_iff.1 (eq_nil_of_incomplete htail hsplit)).2 hne
      rw [encode_nil, nil_append] at hsplit
      rw [← hsplit] at hfirst
      dsimp only
      cases herror : e.errorLen with
      | none =>
        rw [herror] at hfirst
        have hlen' := length_of_incomplete hfirst
        rw [if_pos ⟨rfl, by omega⟩]
        have hbytes : d.utf8Tail ++ byte :: bytes = d.utf8Tail ++ [byte] ++ bytes := by
          rw [append_assoc, singleton_append]
        rcases ih { d with utf8Tail := d.utf8Tail ++ [byte] } hfirst with
          ⟨d', text, rest', hok, hpushed, hend⟩ | ⟨hfail, hbroken⟩
        · refine .inl ⟨d', text, rest', hok, ⟨?_, ?_, hpushed.tail⟩, hend⟩
          · rw [hpushed.pushed, pushText_utf8Tail]
          · rw [hbytes]
            exact hpushed.split
        · exact .inr ⟨hfail, by rw [hbytes]; exact hbroken⟩
      | some len =>
        rw [herror] at hfirst
        rw [if_neg (by simp)]
        refine .inr ⟨rfl, [], d.utf8Tail ++ byte :: bytes, len, rfl, ?_⟩
        have hmore := first_append_of_invalid hfirst bytes
        rwa [append_assoc, singleton_append] at hmore

/-- The rest of the bytes is pushed up to an unfinished scalar at their end, or fails. -/
theorem pushWhole_spec (d : ReadTextDecoder) (bytes : List UInt8) (htail : d.utf8Tail = []) :
    (∃ d' text, d.pushWhole bytes = .ok d' ∧ Pushed d bytes d' text []) ∨
    d.pushWhole bytes = .error invalid ∧ Broken bytes := by
  rw [pushWhole]
  cases hread : fromUtf8 bytes with
  | ok text =>
    have hbytes := fromUtf8_eq_ok.1 hread
    have hkept : (d.pushText text).utf8Tail = [] := by
      have := congrArg utf8Tail (pushText_utf8Tail d [] text)
      rw [← htail] at this
      exact this.trans htail
    refine .inl ⟨d.pushText text, text, rfl, rfl, ?_, ?_⟩
    · rw [htail, hkept, hbytes, nil_append, append_nil]
      exact (append_nil _).symm
    · rw [hkept]
      rfl
  | error e =>
    obtain ⟨text, rest, hsplit, hvalid, hne, hfirst⟩ :=
      split_of_fromUtf8Loop (Nat.le_refl _) hread
    have htake : bytes.take e.validUpTo = encode text := by
      rw [hsplit, hvalid, take_left]
    have hdrop : bytes.drop e.validUpTo = rest := by
      rw [hsplit, hvalid, drop_left]
    dsimp only
    rw [htake, fromUtf8_eq_ok.2 rfl, hdrop]
    dsimp only
    cases herror : e.errorLen with
    | none =>
      rw [herror] at hfirst
      have hlen := length_of_incomplete hfirst
      rw [if_neg (by simp), if_neg (by omega)]
      refine .inl ⟨{ d.pushText text with utf8Tail := rest }, text, rfl, rfl, ?_, hfirst⟩
      rw [htail, hsplit, nil_append, append_nil]
    | some len =>
      rw [herror] at hfirst
      rw [if_pos Option.isSome_some]
      exact .inr ⟨rfl, text, rest, len, hsplit, hfirst⟩

/-- The bytes of a chunk are pushed up to an unfinished scalar at their end, or fail. -/
theorem pushBytes_spec (d : ReadTextDecoder) (bytes : List UInt8)
    (htail : first d.utf8Tail = .incomplete) :
    (∃ d' text, d.pushBytes bytes = .ok d' ∧ Pushed d bytes d' text []) ∨
    d.pushBytes bytes = .error invalid ∧ Broken (d.utf8Tail ++ bytes) := by
  rw [pushBytes]
  rcases completeTail_spec d bytes htail with
    ⟨d', text, rest, hok, hpushed, hend⟩ | ⟨hfail, hbroken⟩
  · rw [hok]
    dsimp only
    rcases hend with hnil | rfl
    · rcases pushWhole_spec d' rest hnil with ⟨d'', more, hwhole, hmore⟩ | ⟨hwhole, hbroken⟩
      · refine .inl ⟨d'', text ++ more, hwhole, ?_, ?_, hmore.tail⟩
        · rw [hmore.pushed, hpushed.pushed, pushText_utf8Tail, pushText_append]
        · have hsplit := hmore.split
          rw [hpushed.split, hsplit, encode_append, append_assoc]
      · obtain ⟨more, behind, len, hrest, hfirst⟩ := hbroken
        refine .inr ⟨hwhole, text ++ more, behind, len, ?_, hfirst⟩
        rw [hpushed.split, hnil, hrest, encode_append, nil_append, append_assoc]
    · have hwhole : d'.pushWhole [] = .ok d' := rfl
      exact .inl ⟨d', text, hwhole, hpushed⟩
  · rw [hfail]
    exact .inr ⟨rfl, hbroken⟩

theorem Broken.not_encode {bytes : List UInt8} (h : Broken bytes) (more : List UInt8)
    (text : List Char) : bytes ++ more ≠ encode text := by
  obtain ⟨valid, rest, len, rfl, hfirst⟩ := h
  intro htext
  rw [append_assoc] at htext
  obtain ⟨behind, -, hbehind⟩ := encode_of_append htext.symm
  have hinvalid := first_append_of_invalid hfirst more
  refine encode_ne ?_ (fun c rest' hchar => ?_) behind hbehind.symm
  · intro hnil
    rw [hnil] at hinvalid
    cases hinvalid
  · rw [hinvalid] at hchar
    cases hchar

/-- What becomes of chunks behind an unfinished scalar depends on their bytes only. -/
theorem decode_spec (d : ReadTextDecoder) (chunks : List (List UInt8))
    (htail : first d.utf8Tail = .incomplete) :
    (∀ text, d.utf8Tail ++ chunks.flatten = encode text →
      d.decode chunks = ({ d with utf8Tail := [] }.pushText text).finish) ∧
    ((∀ text, d.utf8Tail ++ chunks.flatten ≠ encode text) → d.decode chunks = .error invalid) := by
  induction chunks generalizing d with
  | nil =>
    rw [flatten_nil, append_nil, decode]
    refine ⟨fun text htext => ?_, fun hnone => ?_⟩
    · cases text with
      | nil =>
        rw [encode_nil] at htext
        rw [pushText, foldl_nil, ← htext]
      | cons c text =>
        rw [htext, encode_cons, first_utf8EncodeChar] at htail
        cases htail
    · have hne : d.utf8Tail ≠ [] := hnone []
      rw [finish, if_neg (mt List.isEmpty_iff.1 hne)]
  | cons chunk chunks ih =>
    rw [flatten_cons, decode, ← append_assoc]
    rcases pushBytes_spec d chunk htail with ⟨d', text, hok, hpushed⟩ | ⟨hfail, hbroken⟩
    · rw [hok]
      obtain ⟨hvalid, hinvalid⟩ := ih d' hpushed.tail
      have hsplit : d.utf8Tail ++ chunk ++ chunks.flatten =
          encode text ++ (d'.utf8Tail ++ chunks.flatten) := by
        rw [hpushed.split, append_nil, append_assoc]
      rw [hsplit]
      refine ⟨fun whole hwhole => ?_, fun hnone => ?_⟩
      · obtain ⟨behind, rfl, hbehind⟩ := encode_of_append hwhole.symm
        have hstate : { d' with utf8Tail := [] } = { d with utf8Tail := [] }.pushText text := by
          rw [pushText_utf8Tail, hpushed.pushed]
        dsimp only
        rw [hvalid behind hbehind, hstate, pushText_append]
      · refine hinvalid fun behind hbehind => hnone (text ++ behind) ?_
        rw [hbehind, encode_append]
    · rw [hfail]
      exact ⟨fun text htext => absurd htext (hbroken.not_encode _ text), fun _ => rfl⟩

/-- Whatever the chunks are, the bytes of a text give its lines to the selection, each cut to its
first characters and marked if it has more; bytes of no text are an error, and nothing is a
panic. -/
theorem decode_chunks (selection : ReadLineSelection) (chunks : List (List UInt8)) :
    (∀ text, chunks.flatten = encode text →
      decode { selection } chunks = .ok (selection.pushLines (Text.lines text))) ∧
    ((¬ ∃ text, chunks.flatten = encode text) → decode { selection } chunks = .error invalid) := by
  obtain ⟨hvalid, hinvalid⟩ := decode_spec { selection } chunks rfl
  have hholds : Holds { selection } [] :=
    ⟨by simp, ⟨by simp [withoutReturn], by simp [withoutReturn], by simp [withoutReturn]⟩, rfl,
      rfl⟩
  refine ⟨fun text htext => ?_, fun hnone => hinvalid fun text htext => hnone ⟨text, htext⟩⟩
  rw [hvalid text htext, hholds.finish_pushText rfl, nil_append]

end ReadTextDecoder

end ReadFile

end OpenBitFun
