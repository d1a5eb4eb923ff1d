import Mathlib

/-!
# UTF-8

Decoding as Rust's standard library does it: the first scalar of some bytes is there, or the bytes
end in it, or they are no UTF-8.
-/

namespace OpenBitFun

open List

namespace Utf8

/-- `as_bytes`: a text in UTF-8. -/
def encode (text : List Char) : List UInt8 := text.flatMap String.utf8EncodeChar

@[simp] theorem encode_nil : encode [] = [] := rfl

@[simp] theorem encode_cons (c : Char) (text : List Char) :
    encode (c :: text) = String.utf8EncodeChar c ++ encode text := rfl

@[simp] theorem encode_append (text more : List Char) :
    encode (text ++ more) = encode text ++ encode more := flatMap_append

/-- What bytes start with. -/
inductive First where
  /-- A scalar, with the bytes behind it. -/
  | char (c : Char) (rest : List UInt8)
  /-- The bytes end in a scalar. -/
  | incomplete
  /-- As many bytes that cannot be part of UTF-8. -/
  | invalid (len : ℕ)

/-- A byte of a scalar that is not the first. -/
def isContinuation (b : UInt8) : Bool := 0x80 ≤ b.toNat && b.toNat < 0xC0

/-- What the second byte may be behind the first of a scalar of three bytes or more: not what a
shorter scalar, a surrogate or a number that is too large would have. -/
def isSecond (first second : UInt8) : Bool :=
  if first.toNat = 0xE0 then 0xA0 ≤ second.toNat && second.toNat < 0xC0
  else if first.toNat = 0xED then 0x80 ≤ second.toNat && second.toNat < 0xA0
  else if first.toNat = 0xF0 then 0x90 ≤ second.toNat && second.toNat < 0xC0
  else if first.toNat = 0xF4 then 0x80 ≤ second.toNat && second.toNat < 0x90
  else isContinuation second

/-- The first scalar of some bytes. -/
def first : List UInt8 → First
  | [] => .incomplete
  | a :: rest =>
    if a.toNat < 0x80 then .char (Char.ofNat a.toNat) rest
    else if a.toNat < 0xC2 then .invalid 1
    else if a.toNat < 0xE0 then
      match rest with
      | [] => .incomplete
      | b :: rest =>
        if isContinuation b then
          .char (Char.ofNat ((a.toNat - 0xC0) * 0x40 + (b.toNat - 0x80))) rest
        else .invalid 1
    else if a.toNat < 0xF0 then
      match rest with
      | [] => .incomplete
      | [b] => if isSecond a b then .incomplete else .invalid 1
      | b :: c :: rest =>
        if !isSecond a b then .invalid 1
        else if isContinuation c then
          .char (Char.ofNat ((a.toNat - 0xE0) * 0x1000 + (b.toNat - 0x80) * 0x40 +
            (c.toNat - 0x80))) rest
        else .invalid 2
    else if a.toNat < 0xF5 then
      match rest with
      | [] => .incomplete
      | [b] => if isSecond a b then .incomplete else .invalid 1
      | [b, c] =>
        if !isSecond a b then .invalid 1
        else if isContinuation c then .incomplete else .invalid 2
      | b :: c :: d :: rest =>
        if !isSecond a b then .invalid 1
        else if !isContinuation c then .invalid 2
        else if isContinuation d then
          .char (Char.ofNat ((a.toNat - 0xF0) * 0x40000 + (b.toNat - 0x80) * 0x1000 +
            (c.toNat - 0x80) * 0x40 + (d.toNat - 0x80))) rest
        else .invalid 3
    else .invalid 1

/-- `Utf8Error`. -/
structure Utf8Error where
  /-- `valid_up_to`: how many bytes are UTF-8. -/
  validUpTo : ℕ
  /-- `error_len`: how many bytes behind them are not, unless the bytes end there. -/
  errorLen : Option ℕ
  deriving DecidableEq, Repr

/-- The loop of `from_utf8`, which takes a byte at least in each round. -/
def fromUtf8Loop : (rounds : ℕ) → List UInt8 → Except Utf8Error (List Char)
  | 0, _ => .ok []
  | _ + 1, [] => .ok []
  | rounds + 1, a :: bytes =>
    match first (a :: bytes) with
    | .char c rest => match fromUtf8Loop rounds rest with
      | .ok text => .ok (c :: text)
      | .error e => .error { e with validUpTo := c.utf8Size + e.validUpTo }
    | .incomplete => .error ⟨0, none⟩
    | .invalid len => .error ⟨0, some len⟩

/-- `str::from_utf8`. -/
def fromUtf8 (bytes : List UInt8) : Except Utf8Error (List Char) :=
  fromUtf8Loop bytes.length bytes

/-! ## The first scalar -/

/-- A number that is a scalar is the number of its character. -/
theorem toNat_ofNat {n : ℕ} (h : n.isValidChar) : (Char.ofNat n).val.toNat = n := by
  rw [Char.ofNat, dif_pos h]
  exact UInt32.toNat_ofNatLT ..

theorem first_one {a : UInt8} (ha : a.toNat < 0x80) (rest : List UInt8) :
    first (a :: rest) = .char (Char.ofNat a.toNat) rest :=
  if_pos ha

theorem first_two {a b : UInt8} (hlow : 0xC2 ≤ a.toNat) (hhigh : a.toNat < 0xE0)
    (hb : isContinuation b = true) (rest : List UInt8) :
    first (a :: b :: rest) =
      .char (Char.ofNat ((a.toNat - 0xC0) * 0x40 + (b.toNat - 0x80))) rest := by
  rw [first, if_neg (by omega), if_neg (by omega), if_pos hhigh]
  exact if_pos hb

theorem first_three {a b c : UInt8} (hlow : 0xE0 ≤ a.toNat) (hhigh : a.toNat < 0xF0)
    (hb : isSecond a b = true) (hc : isContinuation c = true) (rest : List UInt8) :
    first (a :: b :: c :: rest) = .char (Char.ofNat ((a.toNat - 0xE0) * 0x1000 +
      (b.toNat - 0x80) * 0x40 + (c.toNat - 0x80))) rest := by
  rw [first, if_neg (by omega), if_neg (by omega), if_neg (by omega), if_pos hhigh]
  simp only [hb, hc, Bool.not_true, Bool.false_eq_true, if_true, if_false]

theorem first_four {a b c d : UInt8} (hlow : 0xF0 ≤ a.toNat) (hhigh : a.toNat < 0xF5)
    (hb : isSecond a b = true) (hc : isContinuation c = true) (hd : isContinuation d = true)
    (rest : List UInt8) :
    first (a :: b :: c :: d :: rest) = .char (Char.ofNat ((a.toNat - 0xF0) * 0x40000 +
      (b.toNat - 0x80) * 0x1000 + (c.toNat - 0x80) * 0x40 + (d.toNat - 0x80))) rest := by
  rw [first, if_neg (by omega), if_neg (by omega), if_neg (by omega), if_neg (by omega),
    if_pos hhigh]
  simp only [hb, hc, hd, Bool.not_true, Bool.false_eq_true, if_true, if_false]

/-- A byte that is built from six bits is a continuation. -/
theorem isContinuation_ofNat (n : ℕ) : isContinuation (UInt8.ofNat (n % 0x40 + 0x80)) = true := by
  simp only [isContinuation, UInt8.toNat_ofNat', Bool.and_eq_true, decide_eq_true_eq]
  omega

theorem first_utf8EncodeChar (c : Char) (rest : List UInt8) :
    first (String.utf8EncodeChar c ++ rest) = .char c rest := by
  have hvalid : c.val.toNat < 0xD800 ∨ 0xDFFF < c.val.toNat ∧ c.val.toNat < 0x110000 := c.valid
  have hchar : Char.ofNat c.val.toNat = c := Char.ofNat_toNat c
  rw [String.utf8EncodeChar]
  generalize c.val.toNat = n at hvalid hchar
  have hbyte : ∀ m, m < 256 → (UInt8.ofNat m).toNat = m := fun m hm => by
    rw [UInt8.toNat_ofNat']
    exact Nat.mod_eq_of_lt hm
  split
  · rename_i hone
    have hn := hbyte n (by omega)
    rw [singleton_append, first_one (by rw [hn]; omega), hn, hchar]
  · split
    · have ha := hbyte (n / 64 % 32 + 192) (by omega)
      have hb := hbyte (n % 64 + 128) (by omega)
      rw [cons_append, singleton_append, first_two (by rw [ha]; omega)
        (by rw [ha]; omega) (isContinuation_ofNat n), ha, hb]
      have hsum : (n / 64 % 32 + 192 - 0xC0) * 0x40 + (n % 64 + 128 - 0x80) = n := by omega
      rw [hsum, hchar]
    · split
      · have ha := hbyte (n / 4096 % 16 + 224) (by omega)
        have hb := hbyte (n / 64 % 64 + 128) (by omega)
        have hc := hbyte (n % 64 + 128) (by omega)
        have hsecond : isSecond (UInt8.ofNat (n / 4096 % 16 + 224))
            (UInt8.ofNat (n / 64 % 64 + 128)) = true := by
          simp only [isSecond, isContinuation, ha, hb]
          grind
        rw [cons_append, cons_append, singleton_append,
          first_three (by rw [ha]; omega) (by rw [ha]; omega) hsecond (isContinuation_ofNat n),
          ha, hb, hc]
        have hsum : (n / 4096 % 16 + 224 - 0xE0) * 0x1000 + (n / 64 % 64 + 128 - 0x80) * 0x40 +
            (n % 64 + 128 - 0x80) = n := by omega
        rw [hsum, hchar]
      · have ha := hbyte (n / 262144 % 8 + 240) (by omega)
        have hb := hbyte (n / 4096 % 64 + 128) (by omega)
        have hc := hbyte (n / 64 % 64 + 128) (by omega)
        have hd := hbyte (n % 64 + 128) (by omega)
        have hsecond : isSecond (UInt8.ofNat (n / 262144 % 8 + 240))
            (UInt8.ofNat (n / 4096 % 64 + 128)) = true := by
          simp only [isSecond, isContinuation, ha, hb]
          grind
        rw [cons_append, cons_append, cons_append, singleton_append,
          first_four (by rw [ha]; omega) (by rw [ha]; omega) hsecond (isContinuation_ofNat (n / 64))
            (isContinuation_ofNat n), ha, hb, hc, hd]
        have hsum : (n / 262144 % 8 + 240 - 0xF0) * 0x40000 +
            (n / 4096 % 64 + 128 - 0x80) * 0x1000 + (n / 64 % 64 + 128 - 0x80) * 0x40 +
              (n % 64 + 128 - 0x80) = n := by omega
        rw [hsum, hchar]

theorem utf8EncodeChar_ofNat {n : ℕ} (h : n.isValidChar) :
    String.utf8EncodeChar (Char.ofNat n) =
      if n ≤ 0x7F then [UInt8.ofNat n]
      else if n ≤ 0x7FF then [UInt8.ofNat (n / 64 % 32 + 192), UInt8.ofNat (n % 64 + 128)]
      else if n ≤ 0xFFFF then
        [UInt8.ofNat (n / 4096 % 16 + 224), UInt8.ofNat (n / 64 % 64 + 128),
          UInt8.ofNat (n % 64 + 128)]
      else
        [UInt8.ofNat (n / 262144 % 8 + 240), UInt8.ofNat (n / 4096 % 64 + 128),
          UInt8.ofNat (n / 64 % 64 + 128), UInt8.ofNat (n % 64 + 128)] := by
  rw [String.utf8EncodeChar, toNat_ofNat h]

theorem ofNat_eq {a : UInt8} {n : ℕ} (h : n = a.toNat) : UInt8.ofNat n = a := by
  rw [h, UInt8.ofNat_toNat]

theorem isContinuation_iff {b : UInt8} :
    isContinuation b = true ↔ 0x80 ≤ b.toNat ∧ b.toNat < 0xC0 := by
  rw [isContinuation, Bool.and_eq_true, decide_eq_true_eq, decide_eq_true_eq]

/-- A second byte is a continuation, and leads to no scalar that is too short, too large or a
surrogate. -/
theorem isSecond_bounds {a b : UInt8} (h : isSecond a b = true) :
    (0x80 ≤ b.toNat ∧ b.toNat < 0xC0) ∧ (a.toNat = 0xE0 → 0xA0 ≤ b.toNat) ∧
      (a.toNat = 0xED → b.toNat < 0xA0) ∧ (a.toNat = 0xF0 → 0x90 ≤ b.toNat) ∧
        (a.toNat = 0xF4 → b.toNat < 0x90) := by
  unfold isSecond at h
  split at h
  · simp at h
    omega
  · split at h
    · simp at h
      omega
    · split at h
      · simp at h
        omega
      · split at h
        · simp at h
          omega
        · rw [isContinuation_iff] at h
          omega

/-- What is read as a scalar is its bytes. -/
theorem eq_of_first {bytes rest : List UInt8} {c : Char} (h : first bytes = .char c rest) :
    bytes = String.utf8EncodeChar c ++ rest := by
  unfold first at h
  split at h
  · cases h
  rename_i a bytes
  split at h
  · obtain ⟨rfl, rfl⟩ := First.char.inj h
    rw [utf8EncodeChar_ofNat (.inl (by omega)), if_pos (by omega), UInt8.ofNat_toNat]
    rfl
  split at h
  · cases h
  split at h
  · -- two bytes
    split at h
    · cases h
    split at h
    · rename_i b rest hb
      have hb := isContinuation_iff.1 hb
      obtain ⟨rfl, rfl⟩ := First.char.inj h
      rw [utf8EncodeChar_ofNat (.inl (by omega)), if_neg (by omega), if_pos (by omega),
        ofNat_eq (a := a) (by omega), ofNat_eq (a := b) (by omega)]
      rfl
    · cases h
  split at h
  · -- three bytes
    split at h
    · cases h
    · split at h
      · cases h
      · cases h
    rename_i b c' rest
    split at h
    · cases h
    rename_i hb
    obtain ⟨hb, hlong, hsurrogate, -, -⟩ :=
      isSecond_bounds (a := a) (b := b) (by simpa using hb)
    split at h
    · rename_i hc
      have hc := isContinuation_iff.1 hc
      obtain ⟨rfl, rfl⟩ := First.char.inj h
      have hvalid : ((a.toNat - 0xE0) * 0x1000 + (b.toNat - 0x80) * 0x40 +
          (c'.toNat - 0x80)).isValidChar := by
        rw [Nat.isValidChar]
        omega
      rw [utf8EncodeChar_ofNat hvalid, if_neg (by omega), if_neg (by omega), if_pos (by omega),
        ofNat_eq (a := a) (by omega), ofNat_eq (a := b) (by omega), ofNat_eq (a := c') (by omega)]
      rfl
    · cases h
  split at h
  · -- four bytes
    split at h
    · cases h
    · split at h
      · cases h
      · cases h
    · split at h
      · cases h
      · split at h
        · cases h
        · cases h
    rename_i b c' d rest
    split at h
    · cases h
    rename_i hb
    obtain ⟨hb, -, -, hlong, hlarge⟩ := isSecond_bounds (a := a) (b := b) (by simpa using hb)
    split at h
    · cases h
    rename_i hc
    have hc := (isContinuation_iff (b := c')).1 (by simpa using hc)
    split at h
    · rename_i hd
      have hd := isContinuation_iff.1 hd
      obtain ⟨rfl, rfl⟩ := First.char.inj h
      have hvalid : ((a.toNat - 0xF0) * 0x40000 + (b.toNat - 0x80) * 0x1000 +
          (c'.toNat - 0x80) * 0x40 + (d.toNat - 0x80)).isValidChar := by
        rw [Nat.isValidChar]
        omega
      rw [utf8EncodeChar_ofNat hvalid, if_neg (by omega), if_neg (by omega), if_neg (by omega),
        ofNat_eq (a := a) (by omega), ofNat_eq (a := b) (by omega), ofNat_eq (a := c') (by omega),
        ofNat_eq (a := d) (by omega)]
      rfl
    · cases h
  cases h

/-- Bytes that end in a scalar are three at most. -/
theorem length_of_incomplete {bytes : List UInt8} (h : first bytes = .incomplete) :
    bytes.length ≤ 3 := by
  unfold first at h
  grind

/-- Bytes that cannot be UTF-8 cannot with more bytes behind them. -/
theorem first_append_of_invalid {bytes : List UInt8} {len : ℕ} (h : first bytes = .invalid len)
    (more : List UInt8) : first (bytes ++ more) = .invalid len := by
  unfold first at h
  split at h
  · cases h
  rename_i a bytes
  rw [cons_append]
  unfold first
  grind

/-! ## `from_utf8` -/

theorem eq_of_fromUtf8Loop {rounds : ℕ} {bytes : List UInt8} {text : List Char}
    (hrounds : bytes.length ≤ rounds) (h : fromUtf8Loop rounds bytes = .ok text) :
    bytes = encode text := by
  induction rounds generalizing bytes text with
  | zero =>
    cases bytes with
    | nil => cases h; rfl
    | cons => cases hrounds
  | succ rounds ih =>
    cases bytes with
    | nil => cases h; rfl
    | cons a bytes =>
      rw [fromUtf8Loop] at h
      split at h
      · rename_i c rest hfirst
        have hbytes := eq_of_first hfirst
        split at h
        · rename_i text htext
          cases h
          have hlen := congrArg List.length hbytes
          have hpos := String.length_utf8EncodeChar c
          have hsize := c.utf8Size_pos
          rw [length_append] at hlen
          rw [hbytes, encode_cons, ih (by omega) htext]
        · cases h
      · cases h
      · cases h

/-- Where reading fails, a text has been read, and what is behind it ends in a scalar or cannot be
UTF-8. -/
theorem split_of_fromUtf8Loop {rounds : ℕ} {bytes : List UInt8} {e : Utf8Error}
    (hrounds : bytes.length ≤ rounds) (h : fromUtf8Loop rounds bytes = .error e) :
    ∃ text rest, bytes = encode text ++ rest ∧ e.validUpTo = (encode text).length ∧ rest ≠ [] ∧
      first rest = match e.errorLen with
        | none => .incomplete
        | some len => .invalid len := by
  induction rounds generalizing bytes e with
  | zero => cases h
  | succ rounds ih =>
    cases bytes with
    | nil => cases h
    | cons a bytes =>
      rw [fromUtf8Loop] at h
      split at h
      · rename_i c rest hfirst
        have hbytes := eq_of_first hfirst
        split at h
        · cases h
        · rename_i e hloop
          cases h
          have hlen := congrArg List.length hbytes
          have hpos := String.length_utf8EncodeChar c
          have hsize := c.utf8Size_pos
          rw [length_append] at hlen
          obtain ⟨text, behind, rfl, hvalid, hne, hbehind⟩ := ih (by omega) hloop
          refine ⟨c :: text, behind, ?_, ?_, hne, hbehind⟩
          · rw [hbytes, encode_cons, append_assoc]
          · rw [encode_cons, length_append, hvalid, String.length_utf8EncodeChar]
      · rename_i hfirst
        cases h
        exact ⟨[], a :: bytes, rfl, rfl, by simp, hfirst⟩
      · rename_i len hfirst
        cases h
        exact ⟨[], a :: bytes, rfl, rfl, by simp, hfirst⟩

/-- What is behind a text in the bytes of a text is the rest of the text. -/
theorem encode_of_append {text more : List Char} {rest : List UInt8}
    (h : encode more = encode text ++ rest) :
    ∃ behind, more = text ++ behind ∧ rest = encode behind := by
  induction text generalizing more with
  | nil => exact ⟨more, rfl, h.symm⟩
  | cons c text ih =>
    cases more with
    | nil =>
      have hlen := congrArg List.length h
      have hpos := String.length_utf8EncodeChar c
      have hsize := c.utf8Size_pos
      simp only [encode_nil, encode_cons, length_nil, length_append] at hlen
      omega
    | cons d more =>
      rw [encode_cons, encode_cons, append_assoc] at h
      have hfirst := first_utf8EncodeChar d (encode more)
      rw [h, first_utf8EncodeChar] at hfirst
      obtain ⟨rfl, hrest⟩ := First.char.inj hfirst
      obtain ⟨behind, rfl, hbehind⟩ := ih hrest.symm
      exact ⟨behind, rfl, hbehind⟩

/-- What does not start with a scalar is no text. -/
theorem encode_ne {rest : List UInt8} (hne : rest ≠ []) (h : ∀ c more, first rest ≠ .char c more)
    (text : List Char) : encode text ≠ rest := by
  rintro rfl
  cases text with
  | nil => exact hne rfl
  | cons c text => exact h c _ (first_utf8EncodeChar c (encode text))

theorem encode_injective {text more : List Char} (h : encode more = encode text) :
    more = text := by
  obtain ⟨behind, rfl, hbehind⟩ := encode_of_append (h.trans (append_nil _).symm)
  cases behind with
  | nil => exact append_nil text
  | cons c behind =>
    have hlen := congrArg List.length hbehind
    have hpos := String.length_utf8EncodeChar c
    have hsize := c.utf8Size_pos
    simp only [encode_cons, length_nil, length_append] at hlen
    omega

/-- `from_utf8` reads just the bytes of a text, as the text. -/
theorem fromUtf8_eq_ok {bytes : List UInt8} {text : List Char} :
    fromUtf8 bytes = .ok text ↔ bytes = encode text := by
  refine ⟨eq_of_fromUtf8Loop (Nat.le_refl _), ?_⟩
  rintro rfl
  cases hread : fromUtf8 (encode text) with
  | ok more => rw [← encode_injective (eq_of_fromUtf8Loop (Nat.le_refl _) hread)]
  | error e =>
    obtain ⟨valid, rest, hsplit, -, hne, hfirst⟩ := split_of_fromUtf8Loop (Nat.le_refl _) hread
    obtain ⟨behind, -, hbehind⟩ := encode_of_append hsplit
    refine absurd hbehind.symm (encode_ne hne (fun c more hchar => ?_) behind)
    rw [hchar] at hfirst
    cases hlen : e.errorLen with
    | none => simp [hlen] at hfirst
    | some len => simp [hlen] at hfirst

end Utf8

end OpenBitFun
