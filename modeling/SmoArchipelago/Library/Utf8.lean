import Mathlib

/-! # Lead and continuation bytes of UTF-8

A lead byte holds the high bits of a code point and announces its continuation bytes. A sequence
that is read without further tests may be ill-formed: longer than its code point needs, a
surrogate, or above the last code point. -/

namespace SmoArchipelago.Library.Utf8

def IsContinuation (b : UInt8) : Prop := b &&& 0xC0 = 0x80

instance (b : UInt8) : Decidable (IsContinuation b) := inferInstanceAs (Decidable (_ = _))

/-- The high bits of a lead byte, and the number of continuation bytes it announces. -/
def lead (b : UInt8) : Option (ℕ × ℕ) :=
  if b &&& 0xE0 = 0xC0 then some ((b &&& 0x1F).toNat, 1)
  else if b &&& 0xF0 = 0xE0 then some ((b &&& 0x0F).toNat, 2)
  else if b &&& 0xF8 = 0xF0 then some ((b &&& 0x07).toNat, 3)
  else none

/-- The bits of a continuation byte below those read before. -/
def pushBits (cp : ℕ) (b : UInt8) : ℕ := cp <<< 6 ||| (b &&& 0x3F).toNat

/-- Read a number of continuation bytes, and what follows them. -/
def readOn : ℕ → ℕ → List UInt8 → Option (ℕ × List UInt8)
  | 0, cp, bs => some (cp, bs)
  | _ + 1, _, [] => none
  | extra + 1, cp, b :: bs => if IsContinuation b then readOn extra (pushBits cp b) bs else none

/-- The least code point that needs so many continuation bytes. -/
def least : ℕ → ℕ
  | 0 => 0
  | 1 => 0x80
  | 2 => 0x800
  | _ => 0x10000

/-- What a lead byte is when its high bits are 0, and where they end. -/
def leadBase : ℕ → ℕ
  | 1 => 0xC0
  | 2 => 0xE0
  | _ => 0xF0

def leadLimit : ℕ → ℕ
  | 1 => 0x20
  | 2 => 0x10
  | _ => 0x08

/-- The continuation bytes of a code point. -/
def continuations : ℕ → ℕ → List UInt8
  | 0, _ => []
  | extra + 1, cp => UInt8.ofNat (cp / 64 ^ extra % 64 + 0x80) :: continuations extra cp

/-! ## Bytes -/

theorem forall_byte {P : UInt8 → Prop} (h : ∀ n < 256, P (UInt8.ofNat n)) (b : UInt8) : P b := by
  have this := h b.toNat b.toNat_lt
  rwa [UInt8.ofNat_toNat] at this

theorem isContinuation_iff (b : UInt8) : IsContinuation b ↔ 0x80 ≤ b.toNat ∧ b.toNat < 0xC0 := by
  revert b
  apply forall_byte
  unfold IsContinuation
  decide +kernel

theorem lead_eq (b : UInt8) :
    lead b = if b.toNat < 0xC0 then none
      else if b.toNat < 0xE0 then some (b.toNat - 0xC0, 1)
      else if b.toNat < 0xF0 then some (b.toNat - 0xE0, 2)
      else if b.toNat < 0xF8 then some (b.toNat - 0xF0, 3)
      else none := by
  revert b
  apply forall_byte
  decide +kernel

theorem pushBits_eq (cp : ℕ) (b : UInt8) : pushBits cp b = cp * 64 + b.toNat % 64 := by
  have low : (b &&& 0x3F).toNat = b.toNat % 64 := by
    rw [UInt8.toNat_and]
    exact Nat.and_two_pow_sub_one_eq_mod _ 6
  rw [pushBits, low, ← Nat.shiftLeft_add_eq_or_of_lt (Nat.mod_lt _ (by decide)), Nat.shiftLeft_eq]

theorem lead_eq_some {b : UInt8} {bits extra : ℕ} :
    lead b = some (bits, extra) ↔
      (extra = 1 ∨ extra = 2 ∨ extra = 3) ∧ bits < leadLimit extra ∧
        b = UInt8.ofNat (bits + leadBase extra) := by
  have small : b.toNat < 256 := b.toNat_lt
  have split : lead b = some (bits, extra) ↔
      b.toNat = bits + 0xC0 ∧ bits < 0x20 ∧ extra = 1 ∨
        b.toNat = bits + 0xE0 ∧ bits < 0x10 ∧ extra = 2 ∨
          b.toNat = bits + 0xF0 ∧ bits < 0x08 ∧ extra = 3 := by
    rw [lead_eq]
    split_ifs <;> simp <;> omega
  rw [split, ← UInt8.toNat_inj, UInt8.toNat_ofNat']
  constructor
  · rintro (⟨same, limit, rfl⟩ | ⟨same, limit, rfl⟩ | ⟨same, limit, rfl⟩)
    · refine ⟨.inl rfl, limit, ?_⟩
      change _ = (bits + 0xC0) % 256
      omega
    · refine ⟨.inr (.inl rfl), limit, ?_⟩
      change _ = (bits + 0xE0) % 256
      omega
    · refine ⟨.inr (.inr rfl), limit, ?_⟩
      change _ = (bits + 0xF0) % 256
      omega
  · rintro ⟨rfl | rfl | rfl, limit, same⟩ <;> simp only [leadLimit, leadBase] at limit same
    · exact .inl ⟨by omega, limit, rfl⟩
    · exact .inr (.inl ⟨by omega, limit, rfl⟩)
    · exact .inr (.inr ⟨by omega, limit, rfl⟩)

/-! ## Code points -/

theorem isContinuation_ofNat (cp extra : ℕ) :
    IsContinuation (UInt8.ofNat (cp / 64 ^ extra % 64 + 0x80)) ∧
      (UInt8.ofNat (cp / 64 ^ extra % 64 + 0x80)).toNat % 64 = cp / 64 ^ extra % 64 := by
  have small : cp / 64 ^ extra % 64 < 64 := Nat.mod_lt _ (by decide)
  rw [isContinuation_iff, UInt8.toNat_ofNat_of_lt' (by change _ < 256; omega)]
  omega

theorem length_continuations (extra cp : ℕ) : (continuations extra cp).length = extra := by
  induction extra with
  | zero => rfl
  | succ extra ih => exact congrArg (· + 1) ih

theorem isContinuation_of_mem {b : UInt8} {extra cp : ℕ} (member : b ∈ continuations extra cp) :
    IsContinuation b := by
  induction extra with
  | zero => cases member
  | succ extra ih =>
      rcases List.mem_cons.1 member with rfl | later
      · exact (isContinuation_ofNat cp extra).1
      · exact ih later

theorem readOn_continuations (extra high cp : ℕ) (rest : List UInt8) :
    readOn extra high (continuations extra cp ++ rest) =
      some (high * 64 ^ extra + cp % 64 ^ extra, rest) := by
  induction extra generalizing high with
  | zero => simp [readOn, continuations, Nat.mod_one]
  | succ extra ih =>
      obtain ⟨continuation, low⟩ := isContinuation_ofNat cp extra
      rw [continuations, List.cons_append, readOn, if_pos continuation, ih, pushBits_eq, low]
      have split : cp % 64 ^ (extra + 1) = cp % 64 ^ extra + 64 ^ extra * (cp / 64 ^ extra % 64) := by
        rw [pow_succ, Nat.mod_mul]
      rw [split]
      congr 2
      ring

/-- What was read is what the continuation bytes of the code point are. -/
theorem eq_of_readOn {extra high cp : ℕ} {bs rest : List UInt8}
    (read : readOn extra high bs = some (cp, rest)) :
    bs = continuations extra cp ++ rest ∧ cp / 64 ^ extra = high := by
  induction extra generalizing high bs with
  | zero =>
      cases read
      exact ⟨rfl, Nat.div_one _⟩
  | succ extra ih =>
      cases bs with
      | nil => cases read
      | cons b bs =>
          rw [readOn] at read
          split_ifs at read with continuation
          obtain ⟨tail, top⟩ := ih read
          rw [pushBits_eq] at top
          have bound := (isContinuation_iff b).1 continuation
          constructor
          · rw [continuations, List.cons_append, ← tail, top]
            congr 1
            rw [← UInt8.toNat_inj, UInt8.toNat_ofNat']
            omega
          · rw [pow_succ, ← Nat.div_div_eq_div_mul, top]
            omega

/-- The encoding of a character that is not ASCII. -/
theorem utf8EncodeChar_eq {c : Char} (high : 0x80 ≤ c.toNat) :
    ∃ extra, (extra = 1 ∨ extra = 2 ∨ extra = 3) ∧ least extra ≤ c.toNat ∧
      c.toNat / 64 ^ extra < leadLimit extra ∧
      String.utf8EncodeChar c =
        UInt8.ofNat (c.toNat / 64 ^ extra + leadBase extra) :: continuations extra c.toNat := by
  have valid : c.toNat < 0x110000 := by
    have := c.valid
    change c.val.toNat.isValidChar at this
    change c.val.toNat < _
    unfold Nat.isValidChar at this
    omega
  have low : ¬ c.val.toNat ≤ 0x7f := not_le.2 high
  unfold String.utf8EncodeChar
  dsimp only
  rw [if_neg low]
  change 0x80 ≤ c.val.toNat at high
  change c.val.toNat < 0x110000 at valid
  change ∃ extra, _ ∧ least extra ≤ c.val.toNat ∧ c.val.toNat / 64 ^ extra < leadLimit extra ∧
    _ = UInt8.ofNat (c.val.toNat / 64 ^ extra + leadBase extra) :: continuations extra c.val.toNat
  split_ifs with two three
  · refine ⟨1, .inl rfl, high, ?_, ?_⟩ <;>
      simp only [leadLimit, leadBase, continuations, pow_one, pow_zero, Nat.div_one]
    · omega
    · rw [Nat.mod_eq_of_lt (by omega)]
  · refine ⟨2, .inr (.inl rfl), ?_, ?_, ?_⟩ <;>
      simp only [least, leadLimit, leadBase, continuations, Nat.reducePow, Nat.div_one]
    · omega
    · omega
    · rw [Nat.mod_eq_of_lt (by omega)]
  · refine ⟨3, .inr (.inr rfl), ?_, ?_, ?_⟩ <;>
      simp only [least, leadLimit, leadBase, continuations, Nat.reducePow, Nat.div_one]
    · omega
    · omega
    · rw [Nat.mod_eq_of_lt (by omega)]

theorem utf8EncodeChar_ascii {c : Char} (low : c.toNat < 0x80) :
    String.utf8EncodeChar c = [UInt8.ofNat c.toNat] :=
  if_pos (Nat.le_of_lt_succ low)

/-- An encoding is read as its character. -/
theorem read_utf8EncodeChar {c : Char} (high : 0x80 ≤ c.toNat) (rest : List UInt8) :
    ∃ b bits extra tail, String.utf8EncodeChar c ++ rest = b :: tail ∧
      lead b = some (bits, extra) ∧ readOn extra bits tail = some (c.toNat, rest) ∧
      least extra ≤ c.toNat := by
  obtain ⟨extra, known, enough, limit, encoding⟩ := utf8EncodeChar_eq high
  refine ⟨_, c.toNat / 64 ^ extra, extra, _, by rw [encoding, List.cons_append],
    lead_eq_some.2 ⟨known, limit, rfl⟩, ?_, enough⟩
  rw [readOn_continuations, Nat.div_add_mod']

/-- A code point that is read is the character that its bytes encode, if they are not too many. -/
theorem utf8EncodeChar_of_read {b : UInt8} {bits extra cp : ℕ} {tail rest : List UInt8}
    (leads : lead b = some (bits, extra)) (read : readOn extra bits tail = some (cp, rest))
    (enough : least extra ≤ cp) (valid : cp.isValidChar) :
    b :: tail = String.utf8EncodeChar (Char.ofNatAux cp valid) ++ rest := by
  obtain ⟨known, limit, rfl⟩ := lead_eq_some.1 leads
  obtain ⟨rfl, rfl⟩ := eq_of_readOn read
  have value : (Char.ofNatAux cp valid).toNat = cp := rfl
  have high : 0x80 ≤ cp := by
    refine le_trans ?_ enough
    rcases known with rfl | rfl | rfl <;> decide
  obtain ⟨extra', known', enough', limit', encoding⟩ :=
    utf8EncodeChar_eq (c := Char.ofNatAux cp valid) high
  rw [value] at enough' limit' encoding
  have same : extra' = extra := by
    rcases known with rfl | rfl | rfl <;> rcases known' with rfl | rfl | rfl <;>
      simp only [least, leadLimit, Nat.reducePow] at enough limit enough' limit' <;> omega
  rw [encoding, same, List.cons_append]

/-- No encoding starts with a continuation byte. -/
theorem utf8EncodeChar_head {c : Char} {b : UInt8} {tail rest : List UInt8}
    (start : b :: tail = String.utf8EncodeChar c ++ rest) : ¬ IsContinuation b := by
  rw [isContinuation_iff]
  by_cases high : 0x80 ≤ c.toNat
  · obtain ⟨b', bits, extra, tail', split, leads, -⟩ := read_utf8EncodeChar high rest
    obtain ⟨rfl, -⟩ := List.cons.inj (start.trans split)
    rw [lead_eq] at leads
    split_ifs at leads <;> omega
  · rw [utf8EncodeChar_ascii (not_le.1 high), List.singleton_append] at start
    rw [(List.cons.inj start).1, UInt8.toNat_ofNat']
    omega

/-- Only the first byte of an encoding is not a continuation byte. -/
theorem isContinuation_of_tail {c : Char} {b : UInt8} {tail : List UInt8}
    (encoding : String.utf8EncodeChar c = b :: tail) : ∀ b' ∈ tail, IsContinuation b' := by
  by_cases high : 0x80 ≤ c.toNat
  · obtain ⟨extra, -, -, -, bytes⟩ := utf8EncodeChar_eq high
    obtain ⟨-, rfl⟩ := List.cons.inj (encoding.symm.trans bytes)
    exact fun b' member => isContinuation_of_mem member
  · rw [utf8EncodeChar_ascii (not_le.1 high)] at encoding
    obtain ⟨-, rfl⟩ := List.cons.inj encoding
    exact fun b' member => absurd member List.not_mem_nil

/-- An ASCII byte stands for its character alone. -/
theorem toNat_of_mem_utf8EncodeChar {c : Char} {b : UInt8} (low : b.toNat < 0x80)
    (member : b ∈ String.utf8EncodeChar c) : c.toNat = b.toNat := by
  have high {n : ℕ} (high : 0x80 ≤ n) (small : n < 256) : b ≠ UInt8.ofNat n := by
    rintro rfl
    rw [UInt8.toNat_ofNat_of_lt' small] at low
    omega
  unfold String.utf8EncodeChar at member
  dsimp only at member
  split_ifs at member with one two three
  · obtain rfl := List.mem_singleton.1 member
    exact (UInt8.toNat_ofNat_of_lt' (by change c.val.toNat < 256; omega)).symm
  all_goals
    simp only [List.mem_cons, List.not_mem_nil, or_false] at member
  · rcases member with same | same <;> exact absurd same (high (by omega) (by omega))
  · rcases member with same | same | same <;> exact absurd same (high (by omega) (by omega))
  · rcases member with same | same | same | same <;> exact absurd same (high (by omega) (by omega))

/-- Only a NUL has a zero byte. -/
theorem ne_zero_of_mem_utf8EncodeChar {c : Char} (no_nul : c ≠ Char.ofNat 0) {b : UInt8}
    (member : b ∈ String.utf8EncodeChar c) : b ≠ 0 := by
  rintro rfl
  have value := toNat_of_mem_utf8EncodeChar (by decide) member
  exact no_nul (Char.toNat_inj.1 value)

end SmoArchipelago.Library.Utf8
