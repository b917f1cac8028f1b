import SmoArchipelago.Library.JsonText
import SmoArchipelago.Library.Utf8
import SmoArchipelago.Switch.ReplayLine

/-! # Reading back compact JSON

What a compact writer prints is read back by the line reader: a string as its UTF-8 bytes, a
number modulo the word size, an object member by member through the handlers of its keys.

## Implementation notes

A member that is left out has no effect, so an object with optional members is read like one
with all of them. -/

namespace SmoArchipelago.Switch.Json

open Library JsonText

/-- The UTF-8 bytes of a text. -/
def utf8Bytes (s : String) : List UInt8 := bytes s.toList

theorem utf8Bytes_injective : Function.Injective utf8Bytes := by
  intro s s' same
  have encoded (s : String) : s.toByteArray = (utf8Bytes s).toByteArray := by
    rw [utf8Bytes, bytes]
    exact String.utf8Encode_toList.symm
  rw [← String.toByteArray_inj, encoded, encoded, same]

namespace Reader

/-! ## Strings -/

/-- A byte that stands for itself in a string. -/
def Plain (b : UInt8) : Prop := b ≠ 0x22 ∧ b ≠ 0x5c

theorem stringBody_plain {l : List UInt8} (plain : ∀ b ∈ l, Plain b) (rest : List UInt8) :
    stringBody (l ++ rest) = (stringBody rest).map fun p => (l ++ p.1, p.2) := by
  induction l with
  | nil => simp
  | cons b l ih =>
      obtain ⟨no_quote, no_escape⟩ := plain b List.mem_cons_self
      have later := ih fun x member => plain x (List.mem_cons_of_mem b member)
      rw [List.cons_append, stringBody.eq_6]
      · rw [later, Option.map_map]
        rfl
      · exact no_quote
      · exact fun _ _ _ _ _ escape _ => no_escape escape
      · exact fun escape _ => no_escape escape
      · exact fun _ _ escape _ => no_escape escape

/-- A byte of a character above ASCII. -/
theorem plain_high {n : ℕ} (low : 0x80 ≤ n) (high : n < 256) : Plain (UInt8.ofNat n) := by
  have value : (UInt8.ofNat n).toNat = n := UInt8.toNat_ofNat_of_lt' high
  constructor
  · intro same
    rw [same] at value
    change 0x22 = n at value
    omega
  · intro same
    rw [same] at value
    change 0x5c = n at value
    omega

/-- The bytes of a character that is not escaped. -/
theorem plain_utf8EncodeChar {c : Char} (no_quote : c ≠ '"') (no_backslash : c ≠ '\\') :
    ∀ b ∈ String.utf8EncodeChar c, Plain b := by
  unfold String.utf8EncodeChar
  dsimp only
  split_ifs with one two three
  · intro b member
    obtain rfl := List.mem_singleton.1 member
    have value : (UInt8.ofNat c.val.toNat).toNat = c.val.toNat :=
      UInt8.toNat_ofNat_of_lt' (by change c.val.toNat < 256; omega)
    constructor
    · intro same
      rw [same] at value
      exact no_quote (Char.toNat_inj.1 value.symm)
    · intro same
      rw [same] at value
      exact no_backslash (Char.toNat_inj.1 value.symm)
  all_goals
    simp only [List.forall_mem_cons, List.not_mem_nil, false_implies, implies_true, and_true]
  · exact ⟨plain_high (by omega) (by omega), plain_high (by omega) (by omega)⟩
  · exact ⟨plain_high (by omega) (by omega), plain_high (by omega) (by omega),
      plain_high (by omega) (by omega)⟩
  · exact ⟨plain_high (by omega) (by omega), plain_high (by omega) (by omega),
      plain_high (by omega) (by omega), plain_high (by omega) (by omega)⟩

/-- An escaped control character. -/
theorem stringBody_control {n : ℕ} (small : n < 32) (rest : List UInt8) :
    stringBody (bytes ['\\', 'u', '0', '0', Nat.digitChar (n / 16), Nat.digitChar (n % 16)] ++ rest) =
      (stringBody rest).map fun p => (UInt8.ofNat n :: p.1, p.2) := by
  let digit (d : ℕ) : UInt8 := UInt8.ofNat (Nat.digitChar d).toNat
  have read : ∀ n < 32,
      bytes ['\\', 'u', '0', '0', Nat.digitChar (n / 16), Nat.digitChar (n % 16)] =
          [0x5c, 0x75, 0x30, 0x30, digit (n / 16), digit (n % 16)] ∧
        hexVal (digit (n / 16)) = some (n / 16) ∧ hexVal (digit (n % 16)) = some (n % 16) ∧
        utf8 (((0 * 16 + 0) * 16 + n / 16) * 16 + n % 16) = [UInt8.ofNat n] := by
    decide
  obtain ⟨printed, first, second, value⟩ := read n small
  have zero : hexVal 0x30 = some 0 := rfl
  rw [printed]
  simp only [List.cons_append, List.nil_append, stringBody, zero, first, second, value]

theorem stringBody_escape (c : Char) (rest : List UInt8) :
    stringBody (bytes (escape c) ++ rest) =
      (stringBody rest).map fun p => (String.utf8EncodeChar c ++ p.1, p.2) := by
  unfold escape
  split_ifs with marked newline ret tab back feed control
  · rcases marked with rfl | rfl <;> rfl
  · subst newline; rfl
  · subst ret; rfl
  · subst tab; rfl
  · subst back; rfl
  · subst feed; rfl
  · have one : String.utf8EncodeChar c = [UInt8.ofNat c.toNat] := by
      unfold String.utf8EncodeChar
      exact if_pos (by change c.toNat ≤ 127; omega)
    rw [stringBody_control control, one]
    rfl
  · push Not at marked
    have alone : bytes [c] = String.utf8EncodeChar c := List.append_nil _
    rw [alone, stringBody_plain (plain_utf8EncodeChar marked.1 marked.2)]

theorem stringBody_quoted (text : List Char) (rest : List UInt8) :
    stringBody (bytes (text.flatMap escape) ++ 0x22 :: rest) = some (bytes text, rest) := by
  induction text with
  | nil => rfl
  | cons c text ih =>
      rw [List.flatMap_cons, bytes_append, List.append_assoc, stringBody_escape, ih]
      rfl

/-- A printed string is read as its bytes. -/
theorem readString_quoted (s : String) (rest : List UInt8) :
    readString (bytes (quoted s) ++ rest) = some (utf8Bytes s, rest) := by
  have printed : bytes (quoted s) ++ rest =
      0x22 :: (bytes (s.toList.flatMap escape) ++ 0x22 :: rest) := by
    rw [quoted, bytes_cons, bytes_append, List.append_assoc, List.append_assoc]
    rfl
  rw [printed]
  exact stringBody_quoted s.toList rest

/-! ## Numbers -/

theorem toInt64_step (a : ℤ) (d : ℕ) : toInt64 (toInt64 a * 10 + d) = toInt64 (a * 10 + d) := by
  unfold toInt64
  rw [← Int.bmod_add_bmod, Int.bmod_mul_bmod, Int.bmod_add_bmod]

/-- The byte of a decimal digit. -/
theorem digit_byte {d : ℕ} (small : d < 10) : ∃ b, bytes [Nat.digitChar d] = [b] ∧
    isDigit b = true ∧ b.toNat - 0x30 = (d : ℤ) ∧ b ≠ 0x2d := by
  have all : ∀ d < 10, bytes [Nat.digitChar d] = [UInt8.ofNat (Nat.digitChar d).toNat] ∧
      isDigit (UInt8.ofNat (Nat.digitChar d).toNat) = true ∧
      ((UInt8.ofNat (Nat.digitChar d).toNat).toNat : ℤ) - 0x30 = d ∧
      UInt8.ofNat (Nat.digitChar d).toNat ≠ 0x2d := by
    decide
  exact ⟨_, all d small⟩

/-- The digits of a number are read onto an empty accumulator. -/
theorem digits_toDigits (n : ℕ) (rest : List UInt8) :
    digits (bytes (Nat.toDigits 10 n) ++ rest) 0 = digits rest (toInt64 n) := by
  induction n using Nat.strongRecOn generalizing rest with
  | ind n ih =>
      by_cases small : n < 10
      · obtain ⟨b, printed, digit, value, -⟩ := digit_byte small
        rw [Nat.toDigits_of_lt_base small, printed, List.singleton_append, digits, if_pos digit, value,
          zero_mul, zero_add]
      · obtain ⟨b, printed, digit, value, -⟩ := digit_byte (Nat.mod_lt n (by decide : 0 < 10))
        have split : Nat.toDigits 10 n = Nat.toDigits 10 (n / 10) ++ [Nat.digitChar (n % 10)] := by
          rw [← Nat.toDigits_of_lt_base (b := 10) (Nat.mod_lt n (by decide)),
            Nat.toDigits_append_toDigits (by decide) (Nat.div_pos (by omega) (by decide))
              (Nat.mod_lt n (by decide)), Nat.div_add_mod]
        have whole : ((n / 10 : ℕ) : ℤ) * 10 + (n % 10 : ℕ) = n := by omega
        rw [split, bytes_append, List.append_assoc, ih (n / 10) (Nat.div_lt_self (by omega) (by decide)),
          printed, List.singleton_append, digits, if_pos digit, value, toInt64_step, whole]

/-- A printed number starts with a digit. -/
theorem toDigits_start (n : ℕ) : ∃ b bs, bytes (Nat.toDigits 10 n) = b :: bs ∧ isDigit b = true ∧
    b ≠ 0x2d := by
  induction n using Nat.strongRecOn with
  | ind n ih =>
      by_cases small : n < 10
      · obtain ⟨b, printed, digit, -, sign⟩ := digit_byte small
        exact ⟨b, [], by rw [Nat.toDigits_of_lt_base small, printed], digit, sign⟩
      · obtain ⟨b, bs, printed, digit, sign⟩ := ih (n / 10) (Nat.div_lt_self (by omega) (by decide))
        refine ⟨b, bs ++ bytes (Nat.toDigits 10 (n % 10)), ?_, digit, sign⟩
        rw [← List.cons_append, ← printed, ← bytes_append,
          Nat.toDigits_append_toDigits (by decide) (Nat.div_pos (by omega) (by decide))
            (Nat.mod_lt n (by decide)), Nat.div_add_mod]

/-! ## Values -/

theorem prepareValue_member {b : UInt8} (no_blank : isWs b = false) (bs : List UInt8) (comma : Bool)
    (fs : List Frame) :
    prepareValue ⟨b :: bs, ⟨true, comma⟩ :: fs, false⟩ =
      (true, ⟨b :: bs, ⟨true, comma⟩ :: fs, false⟩) := by
  simp [prepareValue, wantsComma, skipWs, no_blank]

theorem prepareValue_element {b : UInt8} (no_blank : isWs b = false) (bs : List UInt8)
    (comma : Bool) (fs : List Frame) :
    prepareValue ⟨ApProtocol.separator comma ++ b :: bs, ⟨false, comma⟩ :: fs, false⟩ =
      (true, ⟨b :: bs, ⟨false, comma⟩ :: fs, false⟩) := by
  have comma_byte : isWs 0x2c = false := rfl
  cases comma <;> simp [prepareValue, wantsComma, skipWs, no_blank, ApProtocol.separator, comma_byte]

theorem quoted_start (s : String) (rest : List UInt8) :
    ∃ bs, bytes (quoted s) ++ rest = 0x22 :: bs := ⟨_, rfl⟩

theorem nextString_member (s : String) (rest : List UInt8) (comma : Bool) (fs : List Frame) :
    nextString ⟨bytes (quoted s) ++ rest, ⟨true, comma⟩ :: fs, false⟩ =
      (some (utf8Bytes s), ⟨rest, ⟨true, comma⟩ :: fs, false⟩) := by
  obtain ⟨bs, start⟩ := quoted_start s rest
  have read := readString_quoted s rest
  rw [start] at read ⊢
  rw [nextString, prepareValue_member rfl]
  dsimp only
  rw [read]
  rfl

theorem nextString_element (s : String) (rest : List UInt8) (comma : Bool) (fs : List Frame) :
    nextString ⟨ApProtocol.separator comma ++ (bytes (quoted s) ++ rest), ⟨false, comma⟩ :: fs, false⟩ =
      (some (utf8Bytes s), ⟨rest, ⟨false, true⟩ :: fs, false⟩) := by
  obtain ⟨bs, start⟩ := quoted_start s rest
  have read := readString_quoted s rest
  rw [start] at read ⊢
  rw [nextString, prepareValue_element rfl]
  dsimp only
  rw [read]
  rfl

/-- The bytes that can follow a member of an object. -/
def Closes (b : UInt8) : Prop := b = 0x2c ∨ b = 0x7d

theorem digits_closed {b : UInt8} (closes : Closes b) (rest : List UInt8) (v : ℤ) :
    digits (b :: rest) v = (v, b :: rest) := by
  rcases closes with rfl | rfl <;> rfl

/-- The text of a number: a sign, if it is negative, and the digits. -/
theorem bytes_int (z : ℤ) :
    bytes (JsonText.int z) = (if z < 0 then [0x2d] else []) ++ bytes (Nat.toDigits 10 z.natAbs) := by
  cases z with
  | ofNat n =>
      have sign : ¬ Int.ofNat n < 0 := Int.not_lt.2 (Int.natCast_nonneg n)
      rw [if_neg sign]
      change bytes (Nat.repr n).toList = _
      rw [Nat.repr, String.toList_ofList]
      rfl
  | negSucc n =>
      rw [if_pos (Int.negSucc_lt_zero n)]
      change bytes (("-" ++ Nat.repr (n + 1)).toList) = _
      simp only [String.toList_append, bytes_append, Nat.repr, String.toList_ofList]
      rfl

theorem isWs_of_isDigit {b : UInt8} (digit : isDigit b = true) : isWs b = false := by
  rw [Bool.eq_false_iff]
  intro blank
  simp only [isWs, Bool.or_eq_true, decide_eq_true_eq] at blank
  rcases blank with ((rfl | rfl) | rfl) | rfl <;> cases digit

theorem nextInt_member (z : ℤ) {b : UInt8} (closes : Closes b) (rest : List UInt8) (comma : Bool)
    (fs : List Frame) :
    nextInt ⟨bytes (JsonText.int z) ++ b :: rest, ⟨true, comma⟩ :: fs, false⟩ =
      (some (toInt64 z), ⟨b :: rest, ⟨true, comma⟩ :: fs, false⟩) := by
  obtain ⟨d, ds, start, digit, not_sign⟩ := toDigits_start z.natAbs
  have read : digits (d :: (ds ++ b :: rest)) 0 = (toInt64 z.natAbs, b :: rest) := by
    rw [← List.cons_append, ← start, digits_toDigits, digits_closed closes]
  have no_fraction : ((some b).any fun b => b = 0x2e || b = 0x65 || b = 0x45) = false := by
    rcases closes with rfl | rfl <;> rfl
  have some_digit : (some d).any isDigit = true := digit
  rw [bytes_int, start]
  by_cases negative : z < 0
  · have value : toInt64 (-toInt64 z.natAbs) = toInt64 z := by
      unfold toInt64
      rw [← Int.zero_sub, Int.sub_bmod_bmod, Int.zero_sub, Int.ofNat_natAbs_of_nonpos negative.le, neg_neg]
    have text : [0x2d] ++ d :: ds ++ b :: rest = 0x2d :: d :: (ds ++ b :: rest) := rfl
    rw [if_pos negative, text, nextInt, prepareValue_member rfl]
    simp only [List.head?_cons, beq_self_eq_true, if_true, List.tail_cons, some_digit, Bool.not_true,
      Bool.false_eq_true, if_false, read, no_fraction, value]
    rfl
  · have value : (z.natAbs : ℤ) = z := Int.natAbs_of_nonneg (not_lt.1 negative)
    have no_sign : (some d == some 0x2d) = false := by
      simpa using not_sign
    have text : [] ++ d :: ds ++ b :: rest = d :: (ds ++ b :: rest) := rfl
    rw [if_neg negative, text, nextInt, prepareValue_member (isWs_of_isDigit digit)]
    simp only [List.head?_cons, no_sign, Bool.false_eq_true, if_false, some_digit, Bool.not_true, read, no_fraction, value]
    rfl

theorem nextBool_member (v : Bool) (rest : List UInt8) (comma : Bool) (fs : List Frame) :
    nextBool ⟨bytes (JsonText.bool v) ++ rest, ⟨true, comma⟩ :: fs, false⟩ =
      (some v, ⟨rest, ⟨true, comma⟩ :: fs, false⟩) := by
  cases v <;> rfl

end Reader

end SmoArchipelago.Switch.Json

namespace SmoArchipelago.Switch.ApProtocol

open Library JsonText FieldLoop Json

/-! ## Arrays and objects as bytes -/

theorem bytes_array {κ : Type} (text : κ → List Char) (ks : List κ) :
    bytes (array (ks.map text)) =
      0x5b :: (elementsText (fun k => bytes (text k)) false ks ++ [0x5d]) := by
  rw [array, bytes_cons, bytes_append, bytes_commas]
  rfl

/-- The bytes of a member. -/
def memberText (f : String × List Char) : List UInt8 := bytes (member f)

theorem bytes_object (fields : List (String × List Char)) :
    bytes (object fields) = 0x7b :: (elementsText memberText false fields ++ [0x7d]) := by
  rw [object, bytes_cons, bytes_append, bytes_commas]
  rfl

/-! ## Members -/

/-- A printed value is not blank, and the scanner reads it inside an object. -/
structure Scans {α : Type} (x : Scanner Reader.size α) (text : List Char) (a : α) : Prop where
  start : ∃ b bs, bytes text = b :: bs ∧ Reader.isWs b = false
  scan : ∀ b rest fs, Reader.Closes b →
    x.scan ⟨bytes text ++ b :: rest, ⟨true, true⟩ :: fs, false⟩ =
      (some a, ⟨b :: rest, ⟨true, true⟩ :: fs, false⟩)

theorem Scans.map {α β : Type} {x : Scanner Reader.size α} {text : List Char} {a : α}
    (h : Scans x text a) (f : α → β) : Scans (x.map f) text (f a) where
  start := h.start
  scan b rest fs closes := by
    change (((x.scan _).1.map f), (x.scan _).2) = _
    rw [h.scan b rest fs closes]
    rfl

theorem scans_string (s : String) : Scans Reader.string.toScanner (quoted s) (utf8Bytes s) where
  start := ⟨0x22, _, rfl, rfl⟩
  scan b rest fs _ := Reader.nextString_member s (b :: rest) true fs

theorem scans_field (cap : ℕ) [NeZero cap] (s : String) :
    Scans (readIntoField cap).toScanner (quoted s) (CStr.ofBytes (utf8Bytes s)) :=
  (scans_string s).map CStr.ofBytes

theorem scans_bool (v : Bool) : Scans Reader.bool (JsonText.bool v) v where
  start := by cases v <;> exact ⟨_, _, rfl, rfl⟩
  scan b rest fs _ := Reader.nextBool_member v (b :: rest) true fs

theorem scans_int64 (z : ℤ) : Scans Reader.int (JsonText.int z) (Reader.toInt64 z) where
  start := by
    obtain ⟨b, bs, start, digit, -⟩ := Reader.toDigits_start z.natAbs
    by_cases negative : z < 0
    · exact ⟨0x2d, _, by rw [Reader.bytes_int, if_pos negative]; rfl, rfl⟩
    · refine ⟨b, bs, ?_, Reader.isWs_of_isDigit digit⟩
      rw [Reader.bytes_int, if_neg negative, start]
      rfl
  scan _ rest fs closes := Reader.nextInt_member z closes rest true fs

/-- A number that fits an `int` is read as it is. -/
theorem toInt32_toInt64 {z : ℤ} (low : -2 ^ 31 ≤ z) (high : z < 2 ^ 31) :
    Reader.toInt32 (Reader.toInt64 z) = z ∧ Reader.toInt64 z = z := by
  have wide : Reader.toInt64 z = z := Int.bmod_eq_of_le (by omega) (by omega)
  refine ⟨?_, wide⟩
  rw [wide]
  exact Int.bmod_eq_of_le (by omega) (by omega)

/-- A member of an object, which may be left out, and what reading it does. -/
structure Slot (σ : Type) where
  key : String
  value : Option (List Char)
  effect : σ → σ

section Members

variable {σ : Type} {handlers : List (Handler Reader.size (List UInt8) σ)} {fs : List Frame}

/-- The members that are printed. -/
def printed (slots : List (Slot σ)) : List (String × List Char) :=
  present (slots.map fun m => (m.key, m.value))

/-- What reading all members does. -/
def effects (slots : List (Slot σ)) (s : σ) : σ := slots.foldl (fun s m => m.effect s) s

/-- The handler of the key reads the value; a member that is left out does nothing. -/
def Slot.Reads (handlers : List (Handler Reader.size (List UInt8) σ)) (fs : List Frame)
    (m : Slot σ) : Prop :=
  match m.value with
  | none => m.effect = id
  | some text => (∃ b bs, bytes text = b :: bs ∧ Reader.isWs b = false) ∧
      ∃ h, handlerOf handlers (utf8Bytes m.key) = some h ∧ ∀ b rest s, Reader.Closes b →
        h.act ⟨bytes text ++ b :: rest, ⟨true, true⟩ :: fs, false⟩ s =
          (true, ⟨b :: rest, ⟨true, true⟩ :: fs, false⟩, m.effect s)

/-- A member that is read into a field. -/
theorem reads_field {f : Field Reader.size (List UInt8) σ} {key : String} {text : List Char}
    {a : f.α} (found : handlerOf handlers (utf8Bytes key) = some f.handler)
    (scans : Scans f.value text a) : Slot.Reads handlers fs ⟨key, some text, f.set a⟩ := by
  refine ⟨scans.start, f.handler, found, fun b rest s closes => ?_⟩
  change f.act _ s = _
  rw [Field.act, scans.scan b rest fs closes]

/-- A member that is printed if there is a value. -/
theorem reads_optional {f : Field Reader.size (List UInt8) σ} {key : String} {α : Type}
    {text : α → List Char} {read : α → f.α}
    (found : handlerOf handlers (utf8Bytes key) = some f.handler)
    (scans : ∀ v, Scans f.value (text v) (read v)) (same : ∀ s, f.set (f.get s) s = s)
    (value : Option α) :
    Slot.Reads handlers fs ⟨key, value.map text, fun s => f.set (value.elim (f.get s) read) s⟩ := by
  cases value with
  | none => exact funext same
  | some v => exact reads_field found (scans v)

/-- After the members that are left comes a comma or the closing brace. -/
theorem closes_members (fields : List (String × List Char)) (rest : List UInt8) :
    ∃ b bs, elementsText memberText true fields ++ 0x7d :: rest = b :: bs ∧ Reader.Closes b := by
  cases fields with
  | nil => exact ⟨0x7d, rest, rfl, .inr rfl⟩
  | cons f fields => exact ⟨0x2c, _, rfl, .inl rfl⟩

/-- The key of a member is read, with the cursor at its value. -/
theorem nextField_member (key : String) {text : List Char} {b : UInt8} {bs : List UInt8}
    (start : bytes text = b :: bs) (no_blank : Reader.isWs b = false) (comma : Bool)
    (rest : List UInt8) :
    Reader.nextField ⟨separator comma ++ (memberText (key, text) ++ rest), ⟨true, comma⟩ :: fs, false⟩ =
      (some (utf8Bytes key), ⟨bytes text ++ rest, ⟨true, true⟩ :: fs, false⟩) := by
  have body : memberText (key, text) ++ rest = bytes (quoted key) ++ 0x3a :: (bytes text ++ rest) := by
    rw [memberText, member, bytes_append, List.append_assoc]
    rfl
  have at_value : Reader.skipWs (bytes text ++ rest) = bytes text ++ rest := by
    rw [start, List.cons_append, Reader.skipWs, List.dropWhile_cons_of_neg (by simp [no_blank])]
  have read : Reader.fieldKey (memberText (key, text) ++ rest) =
      some (utf8Bytes key, bytes text ++ rest) := by
    rw [body, Reader.fieldKey, Reader.readString_quoted]
    change some (utf8Bytes key, Reader.skipWs (bytes text ++ rest)) = _
    rw [at_value]
  obtain ⟨tail, quote⟩ : ∃ tail, memberText (key, text) ++ rest = 0x22 :: tail := by
    rw [body]
    exact ⟨_, rfl⟩
  rw [quote] at read ⊢
  cases comma with
  | false =>
      have at_key : Reader.skipWs (separator false ++ 0x22 :: tail) = 0x22 :: tail := rfl
      simp [Reader.nextField, at_key, read]
  | true =>
      have at_comma : Reader.skipWs (separator true ++ 0x22 :: tail) = 0x2c :: 0x22 :: tail := rfl
      have at_key : Reader.skipWs (0x22 :: tail) = 0x22 :: tail := rfl
      simp [Reader.nextField, at_comma, at_key, read]

/-- An object is read member by member up to its closing brace. -/
theorem loop_members {slots : List (Slot σ)} (all : ∀ m ∈ slots, m.Reads handlers fs) (comma : Bool)
    (rest : List UInt8) (s : σ) {n : ℕ}
    (fuel : Reader.size ⟨elementsText memberText comma (printed slots) ++ 0x7d :: rest,
      ⟨true, comma⟩ :: fs, false⟩ < n) :
    loop (fieldBody Reader.fieldKeys handlers) n
        ⟨elementsText memberText comma (printed slots) ++ 0x7d :: rest, ⟨true, comma⟩ :: fs, false⟩ s =
      (true, ⟨0x7d :: rest, ⟨true, comma || !(printed slots).isEmpty⟩ :: fs, false⟩, effects slots s) := by
  induction slots generalizing comma s n with
  | nil =>
      obtain ⟨n, rfl⟩ : ∃ m, n = m + 1 := ⟨n - 1, by omega⟩
      have closed : (fieldBody Reader.fieldKeys handlers).turn
          ⟨0x7d :: rest, ⟨true, comma⟩ :: fs, false⟩ s =
            (.stop true, ⟨0x7d :: rest, ⟨true, comma⟩ :: fs, false⟩, s) := rfl
      change loop _ (n + 1) (⟨0x7d :: rest, ⟨true, comma⟩ :: fs, false⟩ : Reader) s = _
      rw [loop_stop n (congrArg Prod.fst closed), closed]
      cases comma <;> rfl
  | cons m slots ih =>
      have here := all m List.mem_cons_self
      have later := fun m' member => all m' (List.mem_cons_of_mem m member)
      obtain ⟨key, value, effect⟩ := m
      cases value with
      | none =>
          obtain rfl : effect = id := here
          exact ih later comma s fuel
      | some text =>
          obtain ⟨⟨b, bs, start, no_blank⟩, h, found, act⟩ := here
          obtain ⟨n, rfl⟩ : ∃ m, n = m + 1 := ⟨n - 1, by omega⟩
          obtain ⟨c, cs, next, closes⟩ := closes_members (printed slots) rest
          have text_eq : elementsText memberText comma (printed (⟨key, some text, effect⟩ :: slots)) ++
              0x7d :: rest = separator comma ++ (memberText (key, text) ++ c :: cs) := by
            have first : printed (⟨key, some text, effect⟩ :: slots) = (key, text) :: printed slots := rfl
            rw [first, elementsText, List.append_assoc, List.append_assoc, next]
          have turn : (fieldBody Reader.fieldKeys handlers).turn
              ⟨separator comma ++ (memberText (key, text) ++ c :: cs), ⟨true, comma⟩ :: fs, false⟩ s =
                (.again, ⟨c :: cs, ⟨true, true⟩ :: fs, false⟩, effect s) := by
            have scanned : Reader.fieldKeys.scan
                ⟨separator comma ++ (memberText (key, text) ++ c :: cs), ⟨true, comma⟩ :: fs, false⟩ =
                  (some (utf8Bytes key), ⟨bytes text ++ c :: cs, ⟨true, true⟩ :: fs, false⟩) :=
              nextField_member key start no_blank comma (c :: cs)
            change fieldTurn Reader.fieldKeys handlers _ s = _
            unfold fieldTurn
            rw [scanned]
            dsimp only
            rw [found]
            dsimp only
            rw [act c cs s closes]
            rfl
          have less := (fieldBody Reader.fieldKeys handlers).progress _ s (congrArg Prod.fst turn)
          rw [text_eq] at fuel ⊢
          rw [turn] at less
          have shorter := less.trans_le (Nat.lt_succ_iff.1 fuel)
          rw [loop_again _ (congrArg Prod.fst turn), turn, ← next]
          rw [← next] at shorter
          rw [ih later true (effect s) shorter]
          cases comma <;> rfl

/-- The body of an object that has a first member already is read by its handlers. -/
theorem parseHandlers_members {slots : List (Slot σ)} (all : ∀ m ∈ slots, m.Reads handlers fs)
    (rest : List UInt8) (s : σ) :
    parseHandlers handlers
        ⟨elementsText memberText true (printed slots) ++ 0x7d :: rest, ⟨true, true⟩ :: fs, false⟩ s =
      (true, ⟨0x7d :: rest, ⟨true, true⟩ :: fs, false⟩, effects slots s) :=
  loop_members all true rest s (Nat.lt_add_one _)

end Members

/-! ## Elements -/

/-- An object in an array, read by a body that reads its members. -/
theorem inObject_members {σ : Type} {body : Reader → σ → Bool × Reader × σ}
    {fields : List (String × List Char)} {comma : Bool} {rest : List UInt8} {fs : List Frame}
    {s s' : σ} {last : Bool} (depth : fs.length + 1 < kMaxDepth)
    (read : body ⟨elementsText memberText false fields ++ 0x7d :: rest,
        ⟨true, false⟩ :: ⟨false, comma⟩ :: fs, false⟩ s =
      (true, ⟨0x7d :: rest, ⟨true, last⟩ :: ⟨false, comma⟩ :: fs, false⟩, s')) :
    inObject body ⟨separator comma ++ (bytes (object fields) ++ rest), ⟨false, comma⟩ :: fs, false⟩ s =
      (true, ⟨rest, ⟨false, true⟩ :: fs, false⟩, s') := by
  have text : bytes (object fields) ++ rest =
      0x7b :: (elementsText memberText false fields ++ 0x7d :: rest) := by
    rw [bytes_object, List.cons_append, List.append_assoc]
    rfl
  have opened : Reader.enterObject
      ⟨separator comma ++ (bytes (object fields) ++ rest), ⟨false, comma⟩ :: fs, false⟩ =
        (true, ⟨elementsText memberText false fields ++ 0x7d :: rest,
          ⟨true, false⟩ :: ⟨false, comma⟩ :: fs, false⟩) := by
    rw [text, Reader.enterObject, Reader.prepareValue_element rfl]
    exact if_neg (Nat.not_le.2 depth)
  rw [inObject, opened, if_pos rfl]
  dsimp only
  rw [read]
  rfl

theorem readEntry_eq {α : Type} {table : Table α} {init a : α} {r r' : Reader}
    (read : inObject (parseFields table) r init = (true, r', a)) :
    readEntry table init r = (some a, r') := by
  unfold inObject at read
  unfold readEntry
  dsimp only at read ⊢
  by_cases opened : r.enterObject.1 = true
  · by_cases body : (parseFields table r.enterObject.2 init).1 = true
    · rw [if_pos opened, if_pos body] at read ⊢
      obtain ⟨ok, rest⟩ := Prod.mk.inj read
      obtain ⟨same_reader, same_entry⟩ := Prod.mk.inj rest
      rw [if_pos ok, same_reader, same_entry]
    · rw [if_pos opened, if_neg body] at read
      exact absurd (congrArg Prod.fst read) body
  · rw [if_neg opened] at read
    cases congrArg Prod.fst read

section Arrays

variable {σ κ : Type} {fs : List Frame}

theorem element_act {α : Type} {x : StrictScanner Reader.size α} (store : α → σ → σ) {r r' : Reader}
    {a : α} (s : σ) (read : x.scan r = (some a, r')) : (x.element store).act r s = (true, r', store a s) := by
  simp only [StrictScanner.element, read]

/-- An object of an array is read into a fresh entry and stored. -/
theorem entry_readsBack {α : Type} (table : Table α) (init : α) (slots : κ → List (Slot α))
    (store : α → σ → σ) (depth : fs.length + 1 < kMaxDepth)
    (good : ∀ k comma, ∀ m ∈ slots k,
      m.Reads (table.fields.map Field.handler) (⟨false, comma⟩ :: fs)) :
    ReadsBack ((entryScanner table init).element store)
      (fun k => bytes (object (printed (slots k)))) (fun k => store (effects (slots k) init)) fs where
  more k comma rest := by cases comma <;> rfl
  act k comma rest s := by
    have members := loop_members (good k comma) false rest init (Nat.lt_add_one _)
    exact element_act store s (readEntry_eq (inObject_members depth members))

/-- A string of an array is read and stored. -/
theorem string_readsBack (cap : ℕ) [NeZero cap] (store : CStr cap → σ → σ) :
    ReadsBack ((readIntoField cap).element store) (fun s : String => bytes (quoted s))
      (fun s => store (CStr.ofBytes (utf8Bytes s))) fs where
  more s comma rest := by cases comma <;> rfl
  act s comma rest t := by
    have read := Reader.nextString_element s rest comma fs
    apply element_act
    change ((Reader.nextString _).1.map CStr.ofBytes, (Reader.nextString _).2) = _
    rw [read]
    rfl

variable {handlers : List (Handler Reader.size (List UInt8) σ)}

/-- A member whose value is an array. -/
theorem reads_array {key : String} {element : Element Reader.size σ} {text : κ → List Char}
    {store : κ → σ → σ}
    (reads : ReadsBack element (fun k => bytes (text k)) store (⟨true, true⟩ :: fs))
    (depth : fs.length + 1 < kMaxDepth)
    (found : handlerOf handlers (utf8Bytes key) = some (arrayHandler key element)) (ks : List κ) :
    Slot.Reads handlers fs
      ⟨key, some (array (ks.map text)), fun s => ks.foldl (fun s k => store k s) s⟩ := by
  refine ⟨⟨0x5b, _, bytes_array text ks, rfl⟩, arrayHandler key element, found, ?_⟩
  intro b rest s _
  have shape : bytes (array (ks.map text)) ++ b :: rest =
      0x5b :: (elementsText (fun k => bytes (text k)) false ks ++ 0x5d :: b :: rest) := by
    rw [bytes_array, List.cons_append, List.append_assoc]
    rfl
  rw [shape]
  exact reads.readArray_eq depth ks (b :: rest) s

end Arrays

/-! ## Lines -/

/-- A line is decoded by the parser of its tag. -/
theorem decode_tagged {t : String} {type : MsgType} {fields : List (String × List Char)}
    {m m' : DecodedMsg} (known : MsgType.ofTag (CStr.ofBytes (utf8Bytes t)) = some type)
    (parsed : DecodedMsg.parse { m with t := CStr.ofBytes (utf8Bytes t) }
        ⟨elementsText memberText true fields ++ [0x7d], [⟨true, true⟩], false⟩ type =
      (true, ⟨[0x7d], [⟨true, true⟩], false⟩, m')) :
    decode (bytes (object (("t", quoted t) :: fields))) m = (true, m') := by
  let rest : List UInt8 := elementsText memberText true fields ++ [0x7d]
  obtain ⟨c, cs, next, closes⟩ := closes_members fields []
  have text : bytes (object (("t", quoted t) :: fields)) =
      0x7b :: (memberText ("t", quoted t) ++ rest) := by
    rw [bytes_object, elementsText, List.append_assoc, List.append_assoc]
    rfl
  have opened : (Reader.ofLine (0x7b :: (memberText ("t", quoted t) ++ rest))).enterObject =
      (true, ⟨memberText ("t", quoted t) ++ rest, [⟨true, false⟩], false⟩) := rfl
  have keyed : Reader.nextField ⟨memberText ("t", quoted t) ++ rest, [⟨true, false⟩], false⟩ =
      (some (utf8Bytes "t"), ⟨bytes (quoted t) ++ rest, [⟨true, true⟩], false⟩) :=
    nextField_member (b := 0x22) "t" rfl rfl false rest
  have scanned : (readIntoField kCheckFieldCap).scan ⟨bytes (quoted t) ++ rest, [⟨true, true⟩], false⟩ =
      (some (CStr.ofBytes (utf8Bytes t)), ⟨rest, [⟨true, true⟩], false⟩) := by
    have read := (scans_field kCheckFieldCap t).scan c cs [] closes
    rwa [← next] at read
  have tag : decodeTag (bytes (object (("t", quoted t) :: fields))) =
      some (CStr.ofBytes (utf8Bytes t), ⟨rest, [⟨true, true⟩], false⟩) := by
    rw [text, decodeTag, if_neg (by simp), opened]
    dsimp only
    rw [keyed]
    dsimp only
    rw [if_pos (by decide), scanned]
  rw [decode, tag]
  dsimp only
  rw [known]
  dsimp only
  rw [parsed]
  rfl

end SmoArchipelago.Switch.ApProtocol
