import OpenBitFun.JsonCanonical
import Std.Data.String.ToInt

/-!
# Renderings can be told apart

The compact rendering of a JSON value determines the value (`render_injective`). A rendering is read
from its first character: the kind of the value, and from it where the value ends, whatever comes
behind it in an array or an object. A number ends where its characters do, so an integer and a
floating-point number are told apart by the point or the exponent the latter always has.
-/

namespace OpenBitFun

open List

namespace Json

/-! ## Strings -/

/-- The value of a hexadecimal digit. -/
def hexValue (c : Char) : ℕ := ((List.range 16).find? fun n => hexDigit n = c).getD 0

/-- Reads what is behind a backslash. -/
def readEscape : List Char → Option (Char × List Char)
  | [] => none
  | c :: text =>
    if c = 'n' then some ('\n', text)
    else if c = 'r' then some ('\r', text)
    else if c = 't' then some ('\t', text)
    else if c = 'b' then some (Char.ofNat 8, text)
    else if c = 'f' then some (Char.ofNat 12, text)
    else if c = 'u' then
      match text with
      | _ :: _ :: high :: low :: text =>
        some (Char.ofNat (16 * hexValue high + hexValue low), text)
      | _ => none
    else some (c, text)

/-- Reads a character of a string back. -/
def readChar : List Char → Option (Char × List Char)
  | [] => none
  | c :: text => if c = '\\' then readEscape text else some (c, text)

theorem hexValue_hexDigit {n : ℕ} (h : n < 16) : hexValue (hexDigit n) = n := by
  have hall : ∀ i : Fin 16, hexValue (hexDigit i) = i := by decide
  exact hall ⟨n, h⟩

theorem readChar_escapeChar (c : Char) (text : List Char) :
    readChar (escapeChar c ++ text) = some (c, text) := by
  have hcode : Char.ofNat c.toNat = c := Char.ofNat_toNat c
  unfold escapeChar
  split_ifs with hquote hslash hn hr ht hb hf hcontrol
  · rw [hquote]
    rfl
  · rw [hslash]
    rfl
  · rw [hn]
    rfl
  · rw [hr]
    rfl
  · rw [ht]
    rfl
  · rw [hb] at hcode
    rw [← hcode]
    rfl
  · rw [hf] at hcode
    rw [← hcode]
    rfl
  · have hhigh : hexValue (hexDigit (c.toNat / 16)) = c.toNat / 16 :=
      hexValue_hexDigit (by omega)
    have hlow : hexValue (hexDigit (c.toNat % 16)) = c.toNat % 16 :=
      hexValue_hexDigit (Nat.mod_lt _ (by decide))
    have hread : readChar ('\\' :: 'u' :: '0' :: '0' :: hexDigit (c.toNat / 16) ::
        hexDigit (c.toNat % 16) :: text) = some (Char.ofNat (16 * hexValue (hexDigit (c.toNat / 16)) +
          hexValue (hexDigit (c.toNat % 16))), text) := rfl
    rw [hhigh, hlow, Nat.div_add_mod, hcode] at hread
    exact hread
  · exact if_neg hslash

/-- An escaped character does not start with the quote that ends a string. -/
theorem escapeChar_append_ne_quote (c : Char) (text after : List Char) :
    escapeChar c ++ text ≠ '"' :: after := by
  unfold escapeChar
  split_ifs with hquote
  all_goals simp [*]

/-- A string can be read off the front of a text. -/
theorem escaped_append_inj {s s' r r' : List Char}
    (h : s.flatMap escapeChar ++ '"' :: r = s'.flatMap escapeChar ++ '"' :: r') :
    s = s' ∧ r = r' := by
  induction s generalizing s' with
  | nil =>
    cases s' with
    | nil => exact ⟨rfl, (List.cons.inj h).2⟩
    | cons c' s' =>
      rw [flatMap_cons, append_assoc] at h
      exact absurd h.symm (escapeChar_append_ne_quote c' _ _)
  | cons c s ih =>
    cases s' with
    | nil =>
      rw [flatMap_cons, append_assoc] at h
      exact absurd h (escapeChar_append_ne_quote c _ _)
    | cons c' s' =>
      rw [flatMap_cons, flatMap_cons, append_assoc, append_assoc] at h
      have hread := congrArg readChar h
      rw [readChar_escapeChar, readChar_escapeChar, Option.some.injEq, Prod.mk.injEq] at hread
      obtain ⟨rfl, hrest⟩ := hread
      obtain ⟨rfl, hr⟩ := ih hrest
      exact ⟨rfl, hr⟩

theorem renderString_append_inj {s s' : String} {r r' : List Char}
    (h : (renderString s).toList ++ r = (renderString s').toList ++ r') : s = s' ∧ r = r' := by
  simp only [renderString, String.toList_ofList, cons_append, append_assoc,
    nil_append] at h
  obtain ⟨hs, hr⟩ := escaped_append_inj (List.cons.inj h).2
  exact ⟨String.toList_inj.1 hs, hr⟩

/-! ## Numbers -/

/-- A character of a number. -/
def isNumeric (c : Char) : Bool := c.isDigit || c ∈ ['-', '+', '.', 'e', 'E']

/-- A character that makes a number a floating-point number. -/
def isFraction (c : Char) : Bool := c ∈ ['.', 'e', 'E']

/-- The text of a floating-point number: `serde_json` writes it with a point or an exponent. -/
structure FloatText (text : String) : Prop where
  numeric : ∀ c ∈ text.toList, isNumeric c
  fraction : ∃ c ∈ text.toList, isFraction c

theorem int_chars (n : ℤ) {c : Char} (h : c ∈ (toString n).toList) :
    c.isDigit ∨ c = '-' := by
  rw [Int.toString_eq_repr, Int.repr_eq_if] at h
  split_ifs at h
  · rw [Nat.toList_repr] at h
    exact .inl (Nat.isDigit_of_mem_toDigits (by decide) (by decide) h)
  · rw [String.toList_append, mem_append, Nat.toList_repr] at h
    obtain hminus | hdigit := h
    · exact .inr (by simpa using hminus)
    · exact .inl (Nat.isDigit_of_mem_toDigits (by decide) (by decide) hdigit)

theorem int_ne_nil (n : ℤ) : (toString n).toList ≠ [] := by
  rw [Int.toString_eq_repr, Int.repr_eq_if]
  split_ifs
  · rw [Nat.toList_repr]
    exact Nat.toDigits_ne_nil
  · rw [String.toList_append]
    exact append_ne_nil_of_left_ne_nil (by decide) _

/-- A number that `serde_json` can hold. -/
def Number.Proper : Number → Prop
  | .int _ => True
  | .float text => FloatText text

theorem Number.numeric {n : Number} (hn : n.Proper) {c : Char} (hc : c ∈ n.render.toList) :
    isNumeric c := by
  cases n with
  | int n =>
    unfold isNumeric
    obtain hdigit | rfl := int_chars n hc
    · rw [hdigit]
      rfl
    · decide
  | float text => exact hn.numeric c hc

theorem Number.render_ne_nil {n : Number} (hn : n.Proper) : n.render.toList ≠ [] := by
  cases n with
  | int n => exact int_ne_nil n
  | float text =>
    obtain ⟨c, hc, -⟩ := hn.fraction
    exact ne_nil_of_mem hc

theorem Number.not_fraction {n : ℤ} {text : String} (htext : FloatText text) :
    (toString n).toList ≠ text.toList := by
  intro h
  obtain ⟨c, hc, hfraction⟩ := htext.fraction
  rw [← h] at hc
  obtain hdigit | rfl := int_chars n hc
  · simp only [isFraction, mem_cons, not_mem_nil, or_false, decide_eq_true_eq] at hfraction
    rcases hfraction with rfl | rfl | rfl <;> exact absurd hdigit (by decide)
  · exact absurd hfraction (by decide)

theorem Number.render_inj {n m : Number} (hn : n.Proper) (hm : m.Proper)
    (h : n.render.toList = m.render.toList) : n = m := by
  cases n with
  | int n =>
    cases m with
    | int m =>
      have hrepr : n.repr = m.repr := String.toList_inj.1 h
      rw [Int.repr_injective hrepr]
    | float text => exact absurd h (not_fraction hm)
  | float text =>
    cases m with
    | int m => exact absurd h.symm (not_fraction hn)
    | float text' => exact congrArg Number.float (String.toList_inj.1 h)

/-- What comes behind a value: nothing, or a character that ends it. -/
def Ends (text : List Char) : Prop := ∀ c ∈ text.head?, c = ',' ∨ c = ']' ∨ c = '\x7d'

theorem Ends.not_numeric {text : List Char} (h : Ends text) :
    ∀ c ∈ text.head?, isNumeric c = false := by
  intro c hc
  rcases h c hc with rfl | rfl | rfl <;> decide

/-- A number can be read off the front of a text. -/
theorem Number.append_inj {n m : Number} (hn : n.Proper) (hm : m.Proper) {r r' : List Char}
    (hr : Ends r) (hr' : Ends r') (h : n.render.toList ++ r = m.render.toList ++ r') :
    n = m ∧ r = r' := by
  have htake : ∀ {n : Number} {r : List Char}, n.Proper → Ends r →
      (n.render.toList ++ r).takeWhile isNumeric = n.render.toList := by
    intro n r hn hr
    have hrest : r.takeWhile isNumeric = [] := by
      cases r with
      | nil => rfl
      | cons c r => exact takeWhile_cons_of_neg (by simp [hr.not_numeric c rfl])
    rw [takeWhile_append_of_pos fun c hc => Number.numeric hn hc, hrest, append_nil]
  have hsame : n.render.toList = m.render.toList := by
    rw [← htake hn hr, h, htake hm hr']
  rw [hsame] at h
  exact ⟨render_inj hn hm hsame, append_cancel_left h⟩

/-! ## Values -/

/-- A value as `serde_json` holds it: its floating-point numbers are written as such. -/
inductive Value.Proper : Value → Prop
  | null : Proper .null
  | bool (b : Bool) : Proper (.bool b)
  | number {n : Number} (hn : n.Proper) : Proper (.number n)
  | string (s : String) : Proper (.string s)
  | array {items : List Value} (hitems : ∀ item ∈ items, Proper item) : Proper (.array items)
  | object {fields : List (String × Value)} (hfields : ∀ key v, (key, v) ∈ fields → Proper v) :
      Proper (.object fields)

/-- The kind of a value. -/
def Value.kind : Value → ℕ
  | .null => 0
  | .bool _ => 1
  | .number _ => 2
  | .string _ => 3
  | .array _ => 4
  | .object _ => 5

/-- The kind of value a character starts. -/
def leadKind (c : Char) : Option ℕ :=
  if c = 'n' then some 0
  else if c = 't' ∨ c = 'f' then some 1
  else if isNumeric c then some 2
  else if c = '"' then some 3
  else if c = '[' then some 4
  else if c = '\x7b' then some 5
  else none

/-- A rendering starts with a character of its kind. -/
theorem Value.render_lead {v : Value} (hv : v.Proper) :
    ∃ c text, v.render.toList = c :: text ∧ leadKind c = some v.kind := by
  cases hv with
  | null => exact ⟨'n', _, rfl, by decide⟩
  | bool b =>
    cases b with
    | true => exact ⟨'t', _, rfl, by decide⟩
    | false => exact ⟨'f', _, rfl, by decide⟩
  | @number n hn =>
    obtain ⟨c, text, htext⟩ := exists_cons_of_ne_nil (Number.render_ne_nil hn)
    have hnumeric : isNumeric c := by
      apply Number.numeric hn
      rw [htext]
      exact mem_cons_self ..
    refine ⟨c, text, htext, ?_⟩
    have hletters : c ≠ 'n' ∧ c ≠ 't' ∧ c ≠ 'f' := by
      refine ⟨?_, ?_, ?_⟩ <;> rintro rfl <;> exact absurd hnumeric (by decide)
    simp [leadKind, hletters, hnumeric, kind]
  | string s =>
    refine ⟨'"', s.toList.flatMap escapeChar ++ ['"'], ?_, rfl⟩
    rw [render, renderString, String.toList_ofList]
    rfl
  | @array items hitems =>
    refine ⟨'[', (renderItems items).toList ++ [']'], ?_, rfl⟩
    rw [render, String.toList_append, String.toList_append]
    rfl
  | @object fields hfields =>
    refine ⟨'\x7b', (renderFields fields).toList ++ ['\x7d'], ?_, rfl⟩
    rw [render, String.toList_append, String.toList_append]
    rfl

theorem kind_eq_of_append {v w : Value} (hv : v.Proper) (hw : w.Proper) {r r' : List Char}
    (h : v.render.toList ++ r = w.render.toList ++ r') : v.kind = w.kind := by
  obtain ⟨c, text, htext, hkind⟩ := Value.render_lead hv
  obtain ⟨c', text', htext', hkind'⟩ := Value.render_lead hw
  rw [htext, htext', cons_append, cons_append] at h
  obtain ⟨rfl, -⟩ := List.cons.inj h
  exact Option.some.inj (hkind.symm.trans hkind')

/-- A value that can be read off the front of a text, if what is behind it ends it. -/
def Readable (v : Value) : Prop :=
  ∀ (w : Value) (r r' : List Char), w.Proper → Ends r → Ends r' →
    v.render.toList ++ r = w.render.toList ++ r' → v = w ∧ r = r'

theorem ends_cons {c : Char} (h : c = ',' ∨ c = ']' ∨ c = '\x7d') (text : List Char) :
    Ends (c :: text) := by
  rintro _ ⟨⟩
  exact h

section Pieces

variable {α : Type} {piece : α → List Char} {Good : α → Prop} {close : Char} {x : α}
  {xs ys : List α} {r r' : List Char}

/-- A piece that can be read off the front of a text, if what is behind it ends it. -/
def ReadsOff (piece : α → List Char) (Good : α → Prop) (x : α) : Prop :=
  ∀ (y : α) (r r' : List Char), Good y → Ends r → Ends r' →
    piece x ++ r = piece y ++ r' → x = y ∧ r = r'

/-- Pieces behind another one. -/
def more (piece : α → List Char) (xs : List α) : List Char := xs.flatMap fun x => ',' :: piece x

/-- Pieces with commas between them. -/
def joined (piece : α → List Char) : List α → List Char
  | [] => []
  | x :: xs => piece x ++ more piece xs

theorem more_cons_append :
    more piece (x :: xs) ++ r = ',' :: (piece x ++ (more piece xs ++ r)) := by
  rw [more, flatMap_cons, append_assoc, cons_append, ← more]

theorem ends_more (hclose : close = ']' ∨ close = '\x7d') (xs : List α) (r : List Char) :
    Ends (more piece xs ++ close :: r) := by
  cases xs with
  | nil => exact ends_cons (.inr hclose) r
  | cons x xs =>
    rw [more_cons_append]
    exact ends_cons (.inl rfl) _

theorem more_append_inj (hclose : close = ']' ∨ close = '\x7d')
    (hxs : ∀ x ∈ xs, ReadsOff piece Good x) (hys : ∀ y ∈ ys, Good y)
    (h : more piece xs ++ close :: r = more piece ys ++ close :: r') : xs = ys ∧ r = r' := by
  have hcomma : close ≠ ',' := by
    rintro rfl
    exact absurd hclose (by decide)
  induction xs generalizing ys with
  | nil =>
    cases ys with
    | nil => exact ⟨rfl, (List.cons.inj h).2⟩
    | cons y ys =>
      rw [more_cons_append] at h
      exact absurd (List.cons.inj h).1 hcomma
  | cons x xs ih =>
    cases ys with
    | nil =>
      rw [more_cons_append] at h
      exact absurd (List.cons.inj h).1.symm hcomma
    | cons y ys =>
      rw [more_cons_append, more_cons_append] at h
      obtain ⟨hx, hmore⟩ := forall_mem_cons.1 hxs
      obtain ⟨hy, hmore'⟩ := forall_mem_cons.1 hys
      obtain ⟨rfl, hrest⟩ := hx y _ _ hy (ends_more hclose xs r) (ends_more hclose ys r')
        (List.cons.inj h).2
      obtain ⟨rfl, hr⟩ := ih hmore hmore' hrest
      exact ⟨rfl, hr⟩

/-- Pieces with commas between them can be read off the front of a text. -/
theorem joined_append_inj (hclose : close = ']' ∨ close = '\x7d')
    (hstart : ∀ (x : α) (text text' : List Char), Good x → piece x ++ text ≠ close :: text')
    (hxs : ∀ x ∈ xs, ReadsOff piece Good x) (hgood : ∀ x ∈ xs, Good x) (hys : ∀ y ∈ ys, Good y)
    (h : joined piece xs ++ close :: r = joined piece ys ++ close :: r') : xs = ys ∧ r = r' := by
  cases xs with
  | nil =>
    cases ys with
    | nil => exact ⟨rfl, (List.cons.inj h).2⟩
    | cons y ys =>
      rw [joined, joined, append_assoc] at h
      exact absurd h.symm (hstart y _ _ (forall_mem_cons.1 hys).1)
  | cons x xs =>
    cases ys with
    | nil =>
      rw [joined, joined, append_assoc] at h
      exact absurd h (hstart x _ _ (forall_mem_cons.1 hgood).1)
    | cons y ys =>
      rw [joined, joined, append_assoc, append_assoc] at h
      obtain ⟨hx, hmore⟩ := forall_mem_cons.1 hxs
      obtain ⟨hy, hmore'⟩ := forall_mem_cons.1 hys
      obtain ⟨rfl, hrest⟩ := hx y _ _ hy (ends_more hclose xs r) (ends_more hclose ys r') h
      obtain ⟨rfl, hr⟩ := more_append_inj hclose hmore hmore' hrest
      exact ⟨rfl, hr⟩

end Pieces

theorem renderItems_eq (items : List Value) :
    (renderItems items).toList = joined (fun v => v.render.toList) items := by
  have hmore (items : List Value) :
      (renderMoreItems items).toList = more (fun v => v.render.toList) items := by
    induction items with
    | nil => rfl
    | cons v items ih =>
      rw [renderMoreItems, String.toList_append, String.toList_append, ih]
      rfl
  cases items with
  | nil => rfl
  | cons v items => rw [renderItems, String.toList_append, hmore, joined]

/-- The text of a field. -/
def fieldText (field : String × Value) : List Char :=
  (renderString field.1).toList ++ ':' :: field.2.render.toList

theorem renderFields_eq (fields : List (String × Value)) :
    (renderFields fields).toList = joined fieldText fields := by
  have hmore (fields : List (String × Value)) :
      (renderMoreFields fields).toList = more fieldText fields := by
    induction fields with
    | nil => rfl
    | cons field fields ih =>
      rw [more, flatMap_cons, ← more, fieldText, ← ih]
      simp [renderMoreFields]
  cases fields with
  | nil => rfl
  | cons field fields =>
    rw [joined, fieldText, ← hmore]
    simp [renderFields]

/-- A field can be read off the front of a text. -/
theorem readsOff_field {field : String × Value} (hv : Readable field.2) :
    ReadsOff fieldText (fun field => field.2.Proper) field := by
  intro field' r r' hv' hr hr' h
  rw [fieldText, fieldText, append_assoc, append_assoc] at h
  obtain ⟨hkey, hvalue⟩ := renderString_append_inj h
  obtain ⟨hsame, hrest⟩ := hv field'.2 r r' hv' hr hr' (List.cons.inj hvalue).2
  exact ⟨Prod.ext hkey hsame, hrest⟩

/-- Every value can be read off the front of a text. -/
theorem readable (v : Value) : v.Proper → Readable v := by
  induction v using Value.inductionOnSize with
  | h v ih =>
    intro hv w r r' hw hr hr' h
    have hkind := kind_eq_of_append hv hw h
    cases hv with
    | null =>
      cases hw with
      | null => exact ⟨rfl, append_cancel_left h⟩
      | _ => exact absurd hkind nofun
    | bool b =>
      cases hw with
      | bool b' =>
        cases b <;> cases b'
        · exact ⟨rfl, append_cancel_left h⟩
        · exact absurd (List.cons.inj h).1 (by decide)
        · exact absurd (List.cons.inj h).1 (by decide)
        · exact ⟨rfl, append_cancel_left h⟩
      | _ => exact absurd hkind nofun
    | number hn =>
      cases hw with
      | number hn' =>
        obtain ⟨rfl, hrest⟩ := Number.append_inj hn hn' hr hr' h
        exact ⟨rfl, hrest⟩
      | _ => exact absurd hkind nofun
    | string s =>
      cases hw with
      | string s' =>
        obtain ⟨rfl, hrest⟩ := renderString_append_inj h
        exact ⟨rfl, hrest⟩
      | _ => exact absurd hkind nofun
    | @array items hitems =>
      cases hw with
      | @array items' hitems' =>
        rw [Value.render, Value.render] at h
        simp only [String.toList_append, append_assoc] at h
        rw [renderItems_eq, renderItems_eq] at h
        have hstart (v : Value) (text text' : List Char) (hv : v.Proper) :
            v.render.toList ++ text ≠ ']' :: text' := by
          intro heq
          obtain ⟨c, rest, hrest, hkind⟩ := Value.render_lead hv
          rw [hrest, cons_append] at heq
          rw [(List.cons.inj heq).1] at hkind
          exact absurd hkind nofun
        obtain ⟨rfl, hrest⟩ := joined_append_inj (.inl rfl) hstart
          (fun item hitem => ih item (Value.sizeOf_lt_array hitem) (hitems item hitem)) hitems
          hitems' (List.cons.inj h).2
        exact ⟨rfl, hrest⟩
      | _ => exact absurd hkind nofun
    | @object fields hfields =>
      cases hw with
      | @object fields' hfields' =>
        rw [Value.render, Value.render] at h
        simp only [String.toList_append, append_assoc] at h
        rw [renderFields_eq, renderFields_eq] at h
        have hstart (field : String × Value) (text text' : List Char) (_ : field.2.Proper) :
            fieldText field ++ text ≠ '\x7d' :: text' := by
          intro heq
          rw [fieldText, renderString, String.toList_ofList] at heq
          exact absurd (List.cons.inj heq).1 (by decide)
        obtain ⟨rfl, hrest⟩ := joined_append_inj (.inr rfl) hstart
          (fun field hfield => readsOff_field
            (ih field.2 (Value.sizeOf_lt_object hfield) (hfields _ _ hfield)))
          (fun field hfield => hfields _ _ hfield) (fun field hfield => hfields' _ _ hfield)
          (List.cons.inj h).2
        exact ⟨rfl, hrest⟩
      | _ => exact absurd hkind nofun

/-- The rendering of a value determines the value. -/
theorem render_injective {v w : Value} (hv : v.Proper) (hw : w.Proper)
    (h : v.render = w.render) : v = w := by
  have hends : Ends [] := nofun
  exact (readable v hv w [] [] hw hends hends (by rw [h])).1

end Json

end OpenBitFun
