import SmoArchipelago.Library.FieldLoop

/-! # The line reader of the Switch module

A cursor over the bytes of one line with a stack of open objects and arrays.
Reading past a malformed value sets `error`, and every later read fails on it.

## Implementation notes

String escapes are decoded in place by the source; the decoded bytes stay behind
the cursor and are copied out before the next read, so they are values here. The
cursor of a failed read is not kept, since no read looks at it again. -/

namespace SmoArchipelago.Switch.Json

open Library.FieldLoop

/-- The bytes of a literal. -/
def ascii (s : String) : List UInt8 := s.toList.map fun c => c.toNat.toUInt8

/-- An open object or array, and whether its next entry needs a comma. -/
structure Frame where
  isObject : Bool
  needsComma : Bool
  deriving DecidableEq

def kMaxDepth : ℕ := 8

/-- The bytes left, the open frames (innermost first) and the error flag. -/
structure Reader where
  rest : List UInt8
  stack : List Frame
  error : Bool

namespace Reader

/-- A reader at the start of a line. -/
def ofLine (line : List UInt8) : Reader := ⟨line, [], false⟩

/-- Number of bytes left. -/
def size (r : Reader) : ℕ := r.rest.length

def fail (r : Reader) : Reader := { r with error := true }

def isWs (b : UInt8) : Bool := b = 0x20 || b = 0x09 || b = 0x0a || b = 0x0d

def skipWs (bs : List UInt8) : List UInt8 := bs.dropWhile isWs

/-- Inside an array whose next value needs a comma. -/
def wantsComma (r : Reader) : Bool :=
  match r.stack with
  | [] => false
  | f :: _ => !f.isObject && f.needsComma

/-- Move to the start of a value; in an array, past the comma before it. -/
def prepareValue (r : Reader) : Bool × Reader :=
  if r.error then (false, r)
  else if r.wantsComma then
    match skipWs r.rest with
    | 0x2c :: bs => (!(skipWs bs).isEmpty, { r with rest := skipWs bs })
    | bs => (false, fail { r with rest := bs })
  else (!(skipWs r.rest).isEmpty, { r with rest := skipWs r.rest })

/-- After a value in an array, the next one needs a comma. -/
def markValueDone (r : Reader) : Reader :=
  match r.stack with
  | [] => r
  | f :: fs => if f.isObject then r else { r with stack := { f with needsComma := true } :: fs }

def hexVal (b : UInt8) : Option ℕ :=
  if 0x30 ≤ b ∧ b ≤ 0x39 then some (b.toNat - 0x30)
  else if 0x61 ≤ b ∧ b ≤ 0x66 then some (b.toNat - 0x61 + 10)
  else if 0x41 ≤ b ∧ b ≤ 0x46 then some (b.toNat - 0x41 + 10)
  else none

/-- UTF-8 bytes of a code point below 0x10000. -/
def utf8 (cp : ℕ) : List UInt8 :=
  if cp < 0x80 then [cp.toUInt8]
  else if cp < 0x800 then [(0xc0 + cp / 64).toUInt8, (0x80 + cp % 64).toUInt8]
  else [(0xe0 + cp / 4096).toUInt8, (0x80 + cp / 64 % 64).toUInt8, (0x80 + cp % 64).toUInt8]

/-- The byte a one-letter escape stands for. -/
def escapeByte (esc : UInt8) : Option UInt8 :=
  if esc = 0x22 then some 0x22
  else if esc = 0x5c then some 0x5c
  else if esc = 0x2f then some 0x2f
  else if esc = 0x6e then some 0x0a
  else if esc = 0x72 then some 0x0d
  else if esc = 0x74 then some 0x09
  else if esc = 0x62 then some 0x08
  else if esc = 0x66 then some 0x0c
  else none

/-- Decode up to the closing quote: the string's bytes and what follows it. -/
def stringBody : List UInt8 → Option (List UInt8 × List UInt8)
  | [] => none
  | 0x22 :: bs => some ([], bs)
  | 0x5c :: 0x75 :: a :: b :: c :: d :: bs =>
      match hexVal a, hexVal b, hexVal c, hexVal d with
      | some a, some b, some c, some d =>
          (stringBody bs).map fun p => (utf8 (((a * 16 + b) * 16 + c) * 16 + d) ++ p.1, p.2)
      | _, _, _, _ => none
  | [0x5c] => none
  | 0x5c :: esc :: bs =>
      match escapeByte esc with
      | some b => (stringBody bs).map fun p => (b :: p.1, p.2)
      | none => none
  | b :: bs => (stringBody bs).map fun p => (b :: p.1, p.2)

/-- Read a string literal at the cursor. -/
def readString (bs : List UInt8) : Option (List UInt8 × List UInt8) :=
  match bs with
  | 0x22 :: bs => stringBody bs
  | _ => none

def enterObject (r : Reader) : Bool × Reader :=
  match r.prepareValue with
  | (false, r) => (false, r.fail)
  | (true, r) =>
      match r.rest with
      | 0x7b :: bs =>
          if r.stack.length ≥ kMaxDepth then (false, fail { r with rest := bs })
          else (true, { r with rest := bs, stack := ⟨true, false⟩ :: r.stack })
      | _ => (false, r.fail)

def exitObject (r : Reader) : Bool × Reader :=
  if r.error then (false, r)
  else
    match r.stack with
    | ⟨true, _⟩ :: fs =>
        match skipWs r.rest with
        | 0x7d :: bs => (true, markValueDone { r with rest := bs, stack := fs })
        | bs => (false, fail { r with rest := bs })
    | _ => (false, r.fail)

/-- The part of `nextField` after the comma: the key and its colon. -/
def fieldKey (bs : List UInt8) : Option (List UInt8 × List UInt8) :=
  match readString bs with
  | none => none
  | some (k, bs) =>
      match skipWs bs with
      | 0x3a :: bs => some (k, skipWs bs)
      | _ => none

/-- The next key of the open object, with the cursor at its value. -/
def nextField (r : Reader) : Option (List UInt8) × Reader :=
  if r.error then (none, r)
  else
    match r.stack with
    | ⟨true, needsComma⟩ :: fs =>
        match skipWs r.rest with
        | [] => (none, fail { r with rest := [] })
        | 0x7d :: bs => (none, { r with rest := 0x7d :: bs })
        | b :: bs =>
            if needsComma && b != 0x2c then (none, fail { r with rest := b :: bs })
            else
              match fieldKey (if needsComma then skipWs bs else b :: bs) with
              | none => (none, fail { r with rest := [] })
              | some (k, bs) => (some k, { r with rest := bs, stack := ⟨true, true⟩ :: fs })
    | _ => (none, r.fail)

def enterArray (r : Reader) : Bool × Reader :=
  match r.prepareValue with
  | (false, r) => (false, r.fail)
  | (true, r) =>
      match r.rest with
      | 0x5b :: bs =>
          if r.stack.length ≥ kMaxDepth then (false, fail { r with rest := bs })
          else (true, { r with rest := bs, stack := ⟨false, false⟩ :: r.stack })
      | _ => (false, r.fail)

def exitArray (r : Reader) : Bool × Reader :=
  if r.error then (false, r)
  else
    match r.stack with
    | ⟨false, _⟩ :: fs =>
        match skipWs r.rest with
        | 0x5d :: bs => (true, markValueDone { r with rest := bs, stack := fs })
        | bs => (false, fail { r with rest := bs })
    | _ => (false, r.fail)

def hasMoreInArray (r : Reader) : Bool :=
  if r.error then false
  else
    match r.stack with
    | ⟨false, _⟩ :: _ =>
        match skipWs r.rest with
        | [] => false
        | b :: _ => b != 0x5d
    | _ => false

def nextString (r : Reader) : Option (List UInt8) × Reader :=
  match r.prepareValue with
  | (false, r) => (none, r.fail)
  | (true, r) =>
      match readString r.rest with
      | none => (none, r.fail)
      | some (v, bs) => (some v, markValueDone { r with rest := bs })

/-- A signed 64-bit value, wrapped. -/
def toInt64 (v : ℤ) : ℤ := v.bmod (2 ^ 64)

/-- A signed 32-bit value, wrapped. -/
def toInt32 (v : ℤ) : ℤ := v.bmod (2 ^ 32)

def isDigit (b : UInt8) : Bool := 0x30 ≤ b && b ≤ 0x39

/-- Read decimal digits onto an accumulator. -/
def digits : List UInt8 → ℤ → ℤ × List UInt8
  | [], v => (v, [])
  | b :: bs, v =>
      if isDigit b then digits bs (toInt64 (v * 10 + (b.toNat - 0x30))) else (v, b :: bs)

def nextInt (r : Reader) : Option ℤ × Reader :=
  match r.prepareValue with
  | (false, r) => (none, r.fail)
  | (true, r) =>
      let neg := r.rest.head? == some 0x2d
      let bs := if neg then r.rest.tail else r.rest
      if !(bs.head?.any isDigit) then (none, r.fail)
      else
        let read := digits bs 0
        if read.2.head?.any fun b => b = 0x2e || b = 0x65 || b = 0x45 then (none, r.fail)
        else
          (some (if neg then toInt64 (-read.1) else read.1), markValueDone { r with rest := read.2 })

def nextBool (r : Reader) : Option Bool × Reader :=
  match r.prepareValue with
  | (false, r) => (none, r.fail)
  | (true, r) =>
      if r.rest.take 4 = ascii "true" then
        (some true, markValueDone { r with rest := r.rest.drop 4 })
      else if r.rest.take 5 = ascii "false" then
        (some false, markValueDone { r with rest := r.rest.drop 5 })
      else (none, r.fail)

/-! ## Reads consume input -/

theorem length_skipWs (bs : List UInt8) : (skipWs bs).length ≤ bs.length :=
  (List.dropWhile_suffix _).length_le

@[simp] theorem size_fail (r : Reader) : r.fail.size = r.size := rfl

@[simp] theorem size_markValueDone (r : Reader) : r.markValueDone.size = r.size := by
  unfold markValueDone
  split
  · rfl
  · split_ifs <;> rfl

theorem size_prepareValue (r : Reader) : r.prepareValue.2.size ≤ r.size := by
  have blanks := length_skipWs r.rest
  unfold prepareValue
  split_ifs
  · exact le_rfl
  · split
    · rename_i bs h
      have := length_skipWs bs
      simp only [h, List.length_cons] at blanks
      simp only [size]
      omega
    · exact blanks
  · exact blanks

theorem length_stringBody (bs : List UInt8) :
    ∀ p, stringBody bs = some p → p.2.length < bs.length := by
  fun_induction stringBody bs with
  | case1 => simp
  | case2 bs => rintro p h; obtain rfl := Option.some.inj h; simp
  | case3 a b c d bs _ _ _ _ _ _ _ _ ih =>
      intro p h
      obtain ⟨q, hq, rfl⟩ := Option.map_eq_some_iff.1 h
      have := ih q hq
      simp only [List.length_cons]
      omega
  | case4 => simp
  | case5 => simp
  | case6 esc bs _ _ _ ih =>
      intro p h
      obtain ⟨q, hq, rfl⟩ := Option.map_eq_some_iff.1 h
      have := ih q hq
      simp only [List.length_cons]
      omega
  | case7 => simp
  | case8 b bs _ _ _ _ ih =>
      intro p h
      obtain ⟨q, hq, rfl⟩ := Option.map_eq_some_iff.1 h
      have := ih q hq
      simp only [List.length_cons]
      omega

theorem length_readString {bs : List UInt8} {p : List UInt8 × List UInt8}
    (h : readString bs = some p) : p.2.length < bs.length := by
  unfold readString at h
  split at h
  · have := length_stringBody _ p h
    simp only [List.length_cons]
    omega
  · cases h

theorem length_digits (bs : List UInt8) (v : ℤ) : (digits bs v).2.length ≤ bs.length := by
  induction bs generalizing v with
  | nil => exact le_rfl
  | cons b bs ih =>
      unfold digits
      split_ifs
      · exact (ih _).trans (Nat.le_succ _)
      · exact le_rfl

theorem length_fieldKey {bs : List UInt8} {p : List UInt8 × List UInt8}
    (h : fieldKey bs = some p) : p.2.length < bs.length := by
  unfold fieldKey at h
  split at h
  · cases h
  · rename_i k bs' read
    have body := length_readString read
    split at h
    · rename_i bs'' colon
      obtain rfl := Option.some.inj h
      have blanks := length_skipWs bs'
      have blanks' := length_skipWs bs''
      simp only [colon, List.length_cons] at blanks
      dsimp only at body ⊢
      omega
    · cases h

theorem size_nextString (r : Reader) :
    r.nextString.2.size ≤ r.size ∧ (r.nextString.1.isSome → r.nextString.2.size < r.size) := by
  have start := size_prepareValue r
  unfold nextString
  revert start
  rcases r.prepareValue with ⟨_ | _, r'⟩
  · exact fun start => ⟨start, fun h => absurd h Bool.false_ne_true⟩
  · intro start
    dsimp only at start ⊢
    split
    · exact ⟨start, fun h => absurd h Bool.false_ne_true⟩
    · rename_i v bs read
      have body := length_readString read
      rw [size_markValueDone]
      simp only [size] at *
      omega

theorem size_nextInt (r : Reader) : r.nextInt.2.size ≤ r.size := by
  have start := size_prepareValue r
  unfold nextInt
  revert start
  rcases r.prepareValue with ⟨_ | _, r'⟩
  · exact id
  · intro start
    dsimp only at start ⊢
    have sign : (if (r'.rest.head? == some 0x2d) = true then r'.rest.tail
        else r'.rest).length ≤ r'.rest.length := by
      split_ifs <;> simp
    revert sign
    generalize (if (r'.rest.head? == some 0x2d) = true then r'.rest.tail else r'.rest) = bs
    intro sign
    have body := length_digits bs 0
    simp only [size] at start
    split_ifs
    all_goals simp only [size_fail, size_markValueDone]
    all_goals simp only [size] at *
    all_goals omega

theorem size_nextBool (r : Reader) : r.nextBool.2.size ≤ r.size := by
  have start := size_prepareValue r
  unfold nextBool
  revert start
  rcases r.prepareValue with ⟨_ | _, r'⟩
  · exact id
  · intro start
    dsimp only at start ⊢
    split_ifs
    all_goals simp only [size_fail, size_markValueDone]
    all_goals simp only [size, List.length_drop] at *
    all_goals omega

theorem size_nextField (r : Reader) :
    r.nextField.2.size ≤ r.size ∧ (r.nextField.1.isSome → r.nextField.2.size < r.size) := by
  have blanks := length_skipWs r.rest
  unfold nextField
  split_ifs
  · simp
  · split
    · rename_i needsComma fs _
      split
      · simp [size, fail]
      · rename_i bs h
        rw [h] at blanks
        simpa [size] using blanks
      · rename_i b bs _ h
        rw [h] at blanks
        have afterComma : (if needsComma = true then skipWs bs else b :: bs).length ≤
            (b :: bs).length := by
          split_ifs
          · exact (length_skipWs bs).trans (Nat.le_succ _)
          · exact le_rfl
        revert afterComma
        generalize (if needsComma = true then skipWs bs else b :: bs) = bs₁
        intro afterComma
        split_ifs
        · simpa [size, fail] using blanks
        · split
          · simp [size, fail]
          · rename_i k bs' key
            have shorter := length_fieldKey key
            simp only [size, List.length_cons] at *
            omega
    · simp

/-- Entering a container consumes its opening byte. -/
theorem size_enterObject (r : Reader) :
    r.enterObject.2.size ≤ r.size ∧ (r.enterObject.1 = true → r.enterObject.2.size < r.size) := by
  have start := size_prepareValue r
  unfold enterObject
  revert start
  rcases r.prepareValue with ⟨_ | _, r'⟩
  · exact fun start => ⟨start, fun h => absurd h Bool.false_ne_true⟩
  · intro start
    dsimp only at start ⊢
    split
    · rename_i bs h
      simp only [size, h, List.length_cons] at start
      split_ifs
      all_goals simp only [size, fail]
      all_goals omega
    · exact ⟨start, fun h => absurd h Bool.false_ne_true⟩

theorem size_enterArray (r : Reader) : r.enterArray.2.size ≤ r.size := by
  have start := size_prepareValue r
  unfold enterArray
  revert start
  rcases r.prepareValue with ⟨_ | _, r'⟩
  · exact id
  · intro start
    dsimp only at start ⊢
    split
    · rename_i bs h
      simp only [size, h, List.length_cons] at start
      split_ifs
      all_goals simp only [size, fail]
      all_goals omega
    · exact start

theorem size_exitObject (r : Reader) : r.exitObject.2.size ≤ r.size := by
  have blanks := length_skipWs r.rest
  unfold exitObject
  split_ifs
  · exact le_rfl
  · split
    · split
      · rename_i bs h
        simp only [h, List.length_cons] at blanks
        rw [size_markValueDone]
        simp only [size]
        omega
      · exact blanks
    · exact le_rfl

theorem size_exitArray (r : Reader) : r.exitArray.2.size ≤ r.size := by
  have blanks := length_skipWs r.rest
  unfold exitArray
  split_ifs
  · exact le_rfl
  · split
    · split
      · rename_i bs h
        simp only [h, List.length_cons] at blanks
        rw [size_markValueDone]
        simp only [size]
        omega
      · exact blanks
    · exact le_rfl

/-! ## The reads as scanners -/

/-- `while (r.nextField(key))` reads keys with this scanner. -/
def fieldKeys : StrictScanner size (List UInt8) where
  scan := nextField
  shrinks r := (size_nextField r).1
  progress r k h := (size_nextField r).2 (by rw [h]; rfl)

def string : StrictScanner size (List UInt8) where
  scan := nextString
  shrinks r := (size_nextString r).1
  progress r v h := (size_nextString r).2 (by rw [h]; rfl)

def int : Scanner size ℤ := ⟨nextInt, size_nextInt⟩

def bool : Scanner size Bool := ⟨nextBool, size_nextBool⟩

end Reader

end SmoArchipelago.Switch.Json
