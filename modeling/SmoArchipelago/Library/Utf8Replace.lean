import SmoArchipelago.Library.Utf8

/-! # UTF-8 with replacement

A decoder that puts one replacement character for each longest sequence of bytes that begins a
character and does not end it, and for each byte that begins none. ASCII bytes stand for
themselves wherever they are, so a text whose marks are ASCII keeps its form. -/

namespace SmoArchipelago.Library.Utf8

def replacement : Char := '\ufffd'

/-- Some character that needs so many continuation bytes has these bits before its last ones. -/
def Reaches (extra left bits : ℕ) : Prop :=
  max (least extra) (bits * 64 ^ left) ≤ min 0x10FFFF (bits * 64 ^ left + (64 ^ left - 1)) ∧
    ¬ (0xD800 ≤ max (least extra) (bits * 64 ^ left) ∧
      min 0x10FFFF (bits * 64 ^ left + (64 ^ left - 1)) ≤ 0xDFFF)

instance (extra left bits : ℕ) : Decidable (Reaches extra left bits) :=
  inferInstanceAs (Decidable (_ ∧ _))

/-- A character of which some bytes were read, and `left + 1` are to come. -/
structure Started where
  extra : ℕ
  left : ℕ
  bits : ℕ
  many : extra ≠ 0

/-- What a byte is that comes first: a character, or the start of one. -/
def firstByte (b : UInt8) : Char ⊕ Started :=
  if b.toNat < 0x80 then .inl (Char.ofNat b.toNat)
  else
    match lead b with
    | some (bits, left + 1) =>
        if Reaches (left + 1) (left + 1) bits then .inr ⟨left + 1, left, bits, left.succ_ne_zero⟩
        else .inl replacement
    | _ => .inl replacement

/-- What a byte is that comes next: the end of the character or more of it, or nothing of it. -/
def nextByte (p : Started) (b : UInt8) : Option (Char ⊕ Started) :=
  if IsContinuation b ∧ Reaches p.extra p.left (pushBits p.bits b) then
    match p.left with
    | 0 => some (.inl (Char.ofNat (pushBits p.bits b)))
    | left + 1 => some (.inr { p with left := left, bits := pushBits p.bits b })
  else none

def decodeFrom : Option Started → List UInt8 → List Char
  | none, [] => []
  | some _, [] => [replacement]
  | none, b :: bs =>
      match firstByte b with
      | .inl c => c :: decodeFrom none bs
      | .inr p => decodeFrom (some p) bs
  | some p, b :: bs =>
      match nextByte p b with
      | some (.inl c) => c :: decodeFrom none bs
      | some (.inr p) => decodeFrom (some p) bs
      | none =>
          match firstByte b with
          | .inl c => replacement :: c :: decodeFrom none bs
          | .inr p => replacement :: decodeFrom (some p) bs

/-- `bytes.decode("utf-8", errors="replace")`. -/
def decodeReplacing (bs : List UInt8) : List Char := decodeFrom none bs

/-! ## ASCII bytes -/

/-- What is put for a character that does not end. -/
def cutOff : Option Started → List Char
  | none => []
  | some _ => [replacement]

theorem firstByte_ascii {b : UInt8} (ascii : b.toNat < 0x80) : firstByte b = .inl (Char.ofNat b.toNat) :=
  if_pos ascii

theorem nextByte_ascii {b : UInt8} (ascii : b.toNat < 0x80) (p : Started) : nextByte p b = none := by
  apply if_neg
  rintro ⟨continuation, -⟩
  have above := ((isContinuation_iff b).1 continuation).1
  omega

theorem decodeFrom_nil (p : Option Started) : decodeFrom p [] = cutOff p := by
  cases p <;> rfl

theorem decodeFrom_ascii {b : UInt8} (ascii : b.toNat < 0x80) (p : Option Started)
    (rest : List UInt8) :
    decodeFrom p (b :: rest) = cutOff p ++ Char.ofNat b.toNat :: decodeFrom none rest := by
  cases p with
  | none => rw [decodeFrom, firstByte_ascii ascii, cutOff, List.nil_append]
  | some p =>
      rw [decodeFrom, nextByte_ascii ascii, firstByte_ascii ascii, cutOff, List.singleton_append]

/-- What comes before an ASCII byte and what comes after it are decoded apart. -/
theorem decodeFrom_append_ascii {b : UInt8} (ascii : b.toNat < 0x80) (p : Option Started)
    (s rest : List UInt8) :
    decodeFrom p (s ++ b :: rest) =
      decodeFrom p s ++ Char.ofNat b.toNat :: decodeFrom none rest := by
  induction s generalizing p with
  | nil => rw [List.nil_append, decodeFrom_ascii ascii, decodeFrom_nil]
  | cons a s ih =>
      cases p with
      | none =>
          rw [List.cons_append, decodeFrom, decodeFrom]
          cases firstByte a with
          | inl c => exact congrArg (c :: ·) (ih none)
          | inr p => exact ih (some p)
      | some p =>
          rw [List.cons_append, decodeFrom, decodeFrom]
          cases nextByte p a with
          | none =>
              cases firstByte a with
              | inl c => exact congrArg (replacement :: c :: ·) (ih none)
              | inr p => exact congrArg (replacement :: ·) (ih (some p))
          | some more =>
              cases more with
              | inl c => exact congrArg (c :: ·) (ih none)
              | inr p => exact ih (some p)

/-- A text that is decoded by itself, whatever follows it. -/
def Closed (s : List UInt8) : Prop :=
  ∀ rest, decodeReplacing (s ++ rest) = decodeReplacing s ++ decodeReplacing rest

/-- What an ASCII byte ends is decoded by itself. -/
theorem closed_concat {b : UInt8} (ascii : b.toNat < 0x80) (s : List UInt8) : Closed (s ++ [b]) := by
  intro rest
  have whole := decodeFrom_append_ascii ascii none s rest
  have alone := decodeFrom_append_ascii ascii none s []
  rw [List.append_assoc, List.singleton_append, decodeReplacing, whole, decodeReplacing, alone,
    List.append_assoc]
  rfl

/-- The bytes of ASCII characters. -/
def asciiBytes (text : List Char) : List UInt8 := text.map fun c => UInt8.ofNat c.toNat

def isAscii (c : Char) : Bool := c.toNat < 0x80

theorem byte_of_ascii {c : Char} (ascii : isAscii c = true) :
    (UInt8.ofNat c.toNat).toNat < 0x80 ∧ Char.ofNat (UInt8.ofNat c.toNat).toNat = c := by
  have small : c.toNat < 0x80 := of_decide_eq_true ascii
  have same : (UInt8.ofNat c.toNat).toNat = c.toNat := by
    rw [UInt8.toNat_ofNat']
    exact Nat.mod_eq_of_lt (small.trans (by decide))
  rw [same]
  exact ⟨small, Char.ofNat_toNat c⟩

theorem decodeFrom_asciiBytes {text : List Char} (ascii : text.all isAscii = true)
    (p : Option Started) (s rest : List UInt8) (some_text : text ≠ []) :
    decodeFrom p (s ++ asciiBytes text ++ rest) =
      decodeFrom p s ++ text ++ decodeFrom none rest := by
  induction text generalizing p s with
  | nil => exact absurd rfl some_text
  | cons c text ih =>
      rw [List.all_cons, Bool.and_eq_true] at ascii
      obtain ⟨small, back⟩ := byte_of_ascii ascii.1
      have here := decodeFrom_append_ascii small p s (asciiBytes text ++ rest)
      have split : s ++ asciiBytes (c :: text) ++ rest =
          s ++ UInt8.ofNat c.toNat :: (asciiBytes text ++ rest) := by
        rw [List.append_assoc]
        rfl
      rw [split, here, back]
      by_cases last : text = []
      · rw [last, List.append_assoc]
        rfl
      · have later := ih ascii.2 none [] last
        rw [List.nil_append] at later
        rw [later, decodeFrom_nil, cutOff, List.nil_append, List.append_assoc]
        rfl

/-- An ASCII text comes out as it is. -/
theorem decodeReplacing_asciiBytes {text : List Char} (ascii : text.all isAscii = true)
    (rest : List UInt8) :
    decodeReplacing (asciiBytes text ++ rest) = text ++ decodeReplacing rest := by
  by_cases empty : text = []
  · rw [empty]
    rfl
  · have whole := decodeFrom_asciiBytes ascii none [] rest empty
    rwa [List.nil_append] at whole

theorem closed_asciiBytes {text : List Char} (ascii : text.all isAscii = true) :
    Closed (asciiBytes text) := by
  intro rest
  have alone := decodeReplacing_asciiBytes ascii []
  rw [List.append_nil] at alone
  rw [decodeReplacing_asciiBytes ascii, alone]
  exact congrArg (· ++ _) (List.append_nil text).symm

/-! ## Escapes -/

theorem least_of_ne_zero {extra : ℕ} (many : extra ≠ 0) : 0x80 ≤ least extra := by
  unfold least
  split <;> omega

/-- What the bits of a whole character say is one, and it is not ASCII. -/
theorem reaches_zero {extra bits : ℕ} (many : extra ≠ 0) (h : Reaches extra 0 bits) :
    0x80 ≤ (Char.ofNat bits).toNat := by
  obtain ⟨ordered, no_surrogate⟩ := h
  rw [pow_zero, Nat.mul_one, Nat.sub_self, Nat.add_zero] at ordered no_surrogate
  have low := (le_max_left (least extra) bits).trans (ordered.trans (min_le_right _ _))
  have high := (le_max_right (least extra) bits).trans (ordered.trans (min_le_left _ _))
  rw [max_eq_right low, min_eq_right high] at no_surrogate
  have valid : bits.isValidChar := by
    unfold Nat.isValidChar
    omega
  have same : (Char.ofNat bits).toNat = bits := by
    rw [Char.ofNat, dif_pos valid]
    rfl
  rw [same]
  exact (least_of_ne_zero many).trans low

theorem replacement_not_ascii : isAscii replacement = false := by decide

theorem nextByte_not_ascii {p : Started} {b : UInt8} {c : Char}
    (ends : nextByte p b = some (.inl c)) : isAscii c = false := by
  unfold nextByte at ends
  split_ifs at ends with more
  split at ends
  · next none_left =>
      cases ends
      rw [none_left] at more
      exact decide_eq_false (Nat.not_lt.2 (reaches_zero p.many more.2))
  · cases ends

theorem firstByte_above {b : UInt8} (above : ¬ b.toNat < 0x80) :
    firstByte b = .inl replacement ∨ ∃ p, firstByte b = .inr p := by
  unfold firstByte
  rw [if_neg above]
  split
  · split_ifs
    · exact .inr ⟨_, rfl⟩
    · exact .inl rfl
  · exact .inl rfl

/-- Only ASCII characters are escaped, and with ASCII characters. -/
structure AsciiEscape (esc : Char → List Char) : Prop where
  ascii : ∀ c, isAscii c = true → (esc c).all isAscii = true ∧ esc c ≠ []
  above : ∀ c, isAscii c = false → esc c = [c]

def escapeByte (esc : Char → List Char) (b : UInt8) : List UInt8 :=
  if b.toNat < 0x80 then asciiBytes (esc (Char.ofNat b.toNat)) else [b]

theorem isAscii_ofNat {b : UInt8} (small : b.toNat < 0x80) : isAscii (Char.ofNat b.toNat) = true := by
  have valid : b.toNat.isValidChar := .inl (small.trans (by decide))
  have same : (Char.ofNat b.toNat).toNat = b.toNat := by
    rw [Char.ofNat, dif_pos valid]
    rfl
  rw [isAscii, same]
  exact decide_eq_true small

theorem flatMap_cutOff {esc : Char → List Char} (h : AsciiEscape esc) (p : Option Started) :
    (cutOff p).flatMap esc = cutOff p := by
  cases p with
  | none => rfl
  | some p =>
      rw [cutOff, List.flatMap_singleton]
      exact h.above _ replacement_not_ascii

/-- An escape may come before or after the decoding. -/
theorem decodeFrom_escape {esc : Char → List Char} (h : AsciiEscape esc) (p : Option Started)
    (s : List UInt8) :
    decodeFrom p (s.flatMap (escapeByte esc)) = (decodeFrom p s).flatMap esc := by
  induction s generalizing p with
  | nil =>
      rw [List.flatMap_nil, decodeFrom_nil]
      exact (flatMap_cutOff h p).symm
  | cons b s ih =>
      rw [List.flatMap_cons]
      by_cases small : b.toNat < 0x80
      · obtain ⟨ascii, some_text⟩ := h.ascii _ (isAscii_ofNat small)
        have here := decodeFrom_asciiBytes ascii p [] (s.flatMap (escapeByte esc)) some_text
        rw [List.nil_append] at here
        rw [escapeByte, if_pos small, here, decodeFrom_ascii small, List.flatMap_append,
          List.flatMap_cons, ih, decodeFrom_nil, flatMap_cutOff h, List.append_assoc]
      · have one : escapeByte esc b = [b] := if_neg small
        have bad := h.above replacement replacement_not_ascii
        rw [one, List.singleton_append]
        cases p with
        | none =>
            rw [decodeFrom, decodeFrom]
            rcases firstByte_above small with whole | ⟨q, started⟩
            · simp only [whole, ih, List.flatMap_cons, bad, List.singleton_append]
            · simp only [started, ih]
        | some p =>
            rw [decodeFrom, decodeFrom]
            cases more : nextByte p b with
            | none =>
                rcases firstByte_above small with whole | ⟨q, started⟩
                · simp only [whole, ih, List.flatMap_cons, bad, List.singleton_append]
                · simp only [started, ih, List.flatMap_cons, bad, List.singleton_append]
            | some more' =>
                cases more' with
                | inl c =>
                    have kept := h.above c (nextByte_not_ascii more)
                    simp only [ih, List.flatMap_cons, kept, List.singleton_append]
                | inr q => simp only [ih]

/-- A test that every character above the ASCII range passes is one of the ASCII bytes. -/
theorem all_decodeFrom {clean : Char → Bool} (above : ∀ c, isAscii c = false → clean c = true)
    (p : Option Started) (s : List UInt8) :
    (decodeFrom p s).all clean =
      s.all fun b => if b.toNat < 0x80 then clean (Char.ofNat b.toNat) else true := by
  have bad := above replacement replacement_not_ascii
  have cut (p : Option Started) : (cutOff p).all clean = true := by
    cases p with
    | none => rfl
    | some p => rw [cutOff, List.all_cons, bad, Bool.true_and, List.all_nil]
  induction s generalizing p with
  | nil => rw [decodeFrom_nil, cut, List.all_nil]
  | cons b s ih =>
      rw [List.all_cons]
      by_cases small : b.toNat < 0x80
      · rw [decodeFrom_ascii small, List.all_append, cut, List.all_cons, ih, if_pos small,
          Bool.true_and]
      · rw [if_neg small, Bool.true_and]
        cases p with
        | none =>
            rw [decodeFrom]
            rcases firstByte_above small with whole | ⟨q, started⟩
            · simp only [whole, ih, List.all_cons, bad, Bool.true_and]
            · simp only [started, ih]
        | some p =>
            rw [decodeFrom]
            cases more : nextByte p b with
            | none =>
                rcases firstByte_above small with whole | ⟨q, started⟩
                · simp only [whole, ih, List.all_cons, bad, Bool.true_and]
                · simp only [started, ih, List.all_cons, bad, Bool.true_and]
            | some more' =>
                cases more' with
                | inl c =>
                    have kept := above c (nextByte_not_ascii more)
                    simp only [ih, List.all_cons, kept, Bool.true_and]
                | inr q => simp only [ih]

end SmoArchipelago.Library.Utf8
