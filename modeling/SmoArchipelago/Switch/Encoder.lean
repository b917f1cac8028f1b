import SmoArchipelago.Library.JsonBytes
import SmoArchipelago.Switch.Json

/-! # The line writer of the Switch module

A buffer for one line, which drops what goes beyond its capacity, and a writer that keeps a stack
of the open objects and arrays for the commas between their entries.

## Implementation notes

What the writer has put out is stated as the text that it would have put out without a limit. A
value is kept with the strings that stand in it, since a string with a control character that has
no escape here is refused by a reader. -/

namespace SmoArchipelago.Switch.Json

open Library JsonReader Utf8

/-- The buffer of a line. What has no room is dropped. -/
@[ext]
structure LineBuffer where
  bytes : List UInt8
  truncated : Bool
  within : bytes.length ≤ 8 * 1024

namespace LineBuffer

def kCap : ℕ := 8 * 1024

def clear : LineBuffer := ⟨[], false, Nat.zero_le _⟩

/-- `append`, for one byte or more. -/
def append (l : LineBuffer) (s : List UInt8) : LineBuffer where
  bytes := l.bytes ++ s.take (kCap - l.bytes.length)
  truncated := l.truncated || kCap < l.bytes.length + s.length
  within := by
    have room := l.within
    rw [List.length_append, List.length_take, kCap]
    omega

/-- The buffer after a text. -/
def holding (text : List UInt8) : LineBuffer := clear.append text

theorem holding_append (text s : List UInt8) : (holding text).append s = holding (text ++ s) := by
  have cut : (text.take kCap).length = min kCap text.length := List.length_take
  ext1
  · change text.take kCap ++ s.take (kCap - (text.take kCap).length) = (text ++ s).take kCap
    rw [List.take_append, cut]
    by_cases room : text.length ≤ kCap
    · rw [min_eq_right room]
    · rw [min_eq_left (Nat.le_of_not_le room), Nat.sub_self, Nat.sub_eq_zero_of_le
        (Nat.le_of_not_le room)]
  · change (decide (kCap < 0 + text.length) || decide (kCap < (text.take kCap).length + s.length)) =
      decide (kCap < 0 + (text ++ s).length)
    rw [cut, List.length_append, ← Bool.decide_or, decide_eq_decide]
    omega

end LineBuffer

/-- Overflows are silent: an entry beyond this depth has no place on the stack. -/
def Encoder.kMaxDepth : ℕ := 16

/-- The buffer, and for each open object or array, innermost first, whether its next entry needs a
comma. -/
structure Encoder where
  out : LineBuffer
  needsComma : List Bool

namespace Encoder

def start : Encoder := ⟨.clear, []⟩

def emit (e : Encoder) (s : List UInt8) : Encoder := { e with out := e.out.append s }

def maybeComma (e : Encoder) : Encoder :=
  match e.needsComma with
  | true :: _ => e.emit [0x2c]
  | _ => e

def pushFrame (e : Encoder) : Encoder :=
  if e.needsComma.length < kMaxDepth then { e with needsComma := false :: e.needsComma } else e

def popFrame (e : Encoder) : Encoder := { e with needsComma := e.needsComma.tail }

def setNeedsComma (b : Bool) (e : Encoder) : Encoder :=
  match e.needsComma with
  | [] => e
  | _ :: rest => { e with needsComma := b :: rest }

def markNeedsComma : Encoder → Encoder := setNeedsComma true

def clearNeedsComma : Encoder → Encoder := setNeedsComma false

def beginObject (e : Encoder) : Encoder := (e.maybeComma.emit [0x7b]).pushFrame

def endObject (e : Encoder) : Encoder := (e.emit [0x7d]).popFrame.markNeedsComma

def beginArray (e : Encoder) : Encoder := (e.maybeComma.emit [0x5b]).pushFrame

def endArray (e : Encoder) : Encoder := (e.emit [0x5d]).popFrame.markNeedsComma

def key (e : Encoder) (k : List UInt8) : Encoder :=
  ((((e.maybeComma.emit [0x22]).emit k).emit [0x22]).emit [0x3a]).clearNeedsComma

/-- Quotes, backslashes and three control characters are escaped. -/
def escape (c : UInt8) : List UInt8 :=
  if c = 0x22 then [0x5c, 0x22]
  else if c = 0x5c then [0x5c, 0x5c]
  else if c = 0x0a then [0x5c, 0x6e]
  else if c = 0x0d then [0x5c, 0x72]
  else if c = 0x09 then [0x5c, 0x74]
  else [c]

def value (e : Encoder) (s : List UInt8) : Encoder :=
  (((e.maybeComma.emit [0x22]).emit (s.flatMap escape)).emit [0x22]).markNeedsComma

def valueInt (e : Encoder) (v : ℤ) : Encoder :=
  (e.maybeComma.emit (asciiBytes (JsonText.int v))).markNeedsComma

def valueBool (e : Encoder) (v : Bool) : Encoder :=
  (e.maybeComma.emit (asciiBytes (JsonText.bool v))).markNeedsComma

end Encoder

/-! ## What is put out -/

open JsonBytes (commas comma)

/-- The comma before an entry that comes after others. -/
def separatorAfter : List (List UInt8) → List UInt8
  | [] => []
  | _ :: _ => [comma]

theorem commas_concat (parts : List (List UInt8)) (part : List UInt8) :
    commas (parts ++ [part]) = commas parts ++ separatorAfter parts ++ part := by
  cases parts with
  | nil => exact List.append_nil part
  | cons first parts =>
      change first ++ (parts ++ [part]).flatMap (comma :: ·) = _
      rw [List.flatMap_append, List.flatMap_singleton]
      change _ = first ++ parts.flatMap (comma :: ·) ++ [comma] ++ part
      simp only [List.append_assoc, List.singleton_append]

namespace Encoder

/-- The writer within an object or array that has these entries. -/
def inside (text : List UInt8) (parts : List (List UInt8)) (outer : List Bool) : Encoder :=
  ⟨.holding (text ++ commas parts), (!parts.isEmpty) :: outer⟩

/-- The text up to the next entry. -/
def upTo (text : List UInt8) (parts : List (List UInt8)) : List UInt8 :=
  text ++ commas parts ++ separatorAfter parts

@[simp] theorem emit_holding (text s : List UInt8) (frames : List Bool) :
    (⟨.holding text, frames⟩ : Encoder).emit s = ⟨.holding (text ++ s), frames⟩ := by
  rw [emit, LineBuffer.holding_append]

@[simp] theorem maybeComma_inside (text : List UInt8) (parts : List (List UInt8))
    (outer : List Bool) :
    (inside text parts outer).maybeComma =
      ⟨.holding (upTo text parts), (!parts.isEmpty) :: outer⟩ := by
  cases parts with
  | nil =>
      rw [upTo, separatorAfter, List.append_nil]
      rfl
  | cons part parts => exact emit_holding _ _ _

/-- An entry is put after those before it. -/
theorem inside_concat (text : List UInt8) (parts : List (List UInt8)) (part : List UInt8)
    (outer : List Bool) :
    inside text (parts ++ [part]) outer = ⟨.holding (upTo text parts ++ part), true :: outer⟩ := by
  have some_part : (!(parts ++ [part]).isEmpty) = true := by
    cases parts <;> rfl
  rw [inside, some_part, commas_concat, upTo]
  simp only [List.append_assoc]

theorem quoted_eq (s : List UInt8) :
    JsonBytes.quote :: (s.flatMap escape ++ [JsonBytes.quote]) =
      [0x22] ++ s.flatMap escape ++ [0x22] := rfl

theorem value_inside (text : List UInt8) (parts : List (List UInt8)) (outer : List Bool)
    (s : List UInt8) :
    (inside text parts outer).value s =
      inside text (parts ++ [JsonBytes.quote :: (s.flatMap escape ++ [JsonBytes.quote])]) outer := by
  rw [value, maybeComma_inside, emit_holding, emit_holding, emit_holding, inside_concat, quoted_eq]
  simp only [List.append_assoc]
  rfl

/-! Within an object a name comes before each value. -/

def nameText (k : List UInt8) : List UInt8 := [0x22] ++ k ++ [0x22] ++ [0x3a]

theorem key_inside (text : List UInt8) (parts : List (List UInt8)) (outer : List Bool)
    (k : List UInt8) :
    (inside text parts outer).key k = ⟨.holding (upTo text parts ++ nameText k), false :: outer⟩ := by
  rw [key, maybeComma_inside, emit_holding, emit_holding, emit_holding, emit_holding, nameText]
  simp only [List.append_assoc]
  rfl

/-- After a name the next value has no comma before it. -/
theorem maybeComma_named (text : List UInt8) (outer : List Bool) :
    (⟨.holding text, false :: outer⟩ : Encoder).maybeComma = ⟨.holding text, false :: outer⟩ := rfl

theorem key_value (text : List UInt8) (parts : List (List UInt8)) (outer : List Bool)
    (k s : List UInt8) :
    ((inside text parts outer).key k).value s = inside text (parts ++
      [nameText k ++ JsonBytes.quote :: (s.flatMap escape ++ [JsonBytes.quote])]) outer := by
  rw [key_inside, value, maybeComma_named, emit_holding, emit_holding, emit_holding, inside_concat,
    quoted_eq]
  simp only [List.append_assoc]
  rfl

theorem key_valueInt (text : List UInt8) (parts : List (List UInt8)) (outer : List Bool)
    (k : List UInt8) (v : ℤ) :
    ((inside text parts outer).key k).valueInt v =
      inside text (parts ++ [nameText k ++ asciiBytes (JsonText.int v)]) outer := by
  rw [key_inside, valueInt, maybeComma_named, emit_holding, inside_concat, List.append_assoc]
  rfl

theorem key_valueBool (text : List UInt8) (parts : List (List UInt8)) (outer : List Bool)
    (k : List UInt8) (v : Bool) :
    ((inside text parts outer).key k).valueBool v =
      inside text (parts ++ [nameText k ++ asciiBytes (JsonText.bool v)]) outer := by
  rw [key_inside, valueBool, maybeComma_named, emit_holding, inside_concat, List.append_assoc]
  rfl

/-! What is opened within another is one entry of it when it is closed. -/

theorem start_beginObject : start.beginObject = inside [0x7b] [] [] := rfl

theorem pushFrame_of_lt (out : LineBuffer) {frames : List Bool} (shallow : frames.length < kMaxDepth) :
    (⟨out, frames⟩ : Encoder).pushFrame = ⟨out, false :: frames⟩ := if_pos shallow

theorem beginObject_inside (text : List UInt8) (parts : List (List UInt8)) {outer : List Bool}
    (shallow : outer.length + 1 < kMaxDepth) :
    (inside text parts outer).beginObject =
      inside (upTo text parts ++ [0x7b]) [] ((!parts.isEmpty) :: outer) := by
  have room : ((!parts.isEmpty) :: outer).length < kMaxDepth := shallow
  rw [beginObject, maybeComma_inside, emit_holding, pushFrame_of_lt _ room, inside]
  rw [show commas [] = [] from rfl, List.append_nil]
  rfl

theorem endObject_inside (text : List UInt8) (before parts : List (List UInt8)) (b : Bool)
    (outer : List Bool) :
    (inside (upTo text before ++ [0x7b]) parts (b :: outer)).endObject =
      inside text (before ++ [0x7b :: (commas parts ++ [0x7d])]) outer := by
  rw [endObject, inside, emit_holding, inside_concat]
  simp only [List.append_assoc, List.singleton_append]
  rfl

theorem key_beginArray (text : List UInt8) (parts : List (List UInt8)) {outer : List Bool}
    (k : List UInt8) (shallow : outer.length + 1 < kMaxDepth) :
    ((inside text parts outer).key k).beginArray =
      inside (upTo text parts ++ nameText k ++ [0x5b]) [] (false :: outer) := by
  have room : (false :: outer).length < kMaxDepth := shallow
  rw [key_inside, beginArray, maybeComma_named, emit_holding, pushFrame_of_lt _ room, inside]
  rw [show commas [] = [] from rfl, List.append_nil]
  rfl

theorem endArray_inside (text : List UInt8) (before parts : List (List UInt8)) (k : List UInt8)
    (b : Bool) (outer : List Bool) :
    (inside (upTo text before ++ nameText k ++ [0x5b]) parts (b :: outer)).endArray =
      inside text (before ++ [nameText k ++ JsonBytes.array parts]) outer := by
  rw [endArray, inside, emit_holding, inside_concat, JsonBytes.array]
  simp only [List.append_assoc, List.singleton_append]
  rfl

/-- The line of an object, with its newline. -/
theorem finish (parts : List (List UInt8)) :
    (inside [0x7b] parts []).endObject.out.append [0x0a] =
      .holding (0x7b :: (commas parts ++ [0x7d]) ++ [0x0a]) := by
  rw [endObject, inside, emit_holding]
  change (LineBuffer.holding _).append _ = _
  rw [LineBuffer.holding_append]
  rfl

/-! ## The escapes -/

/-- The escape of a character. -/
def escapeChar (c : Char) : List Char :=
  if c = '"' then ['\\', '"']
  else if c = '\\' then ['\\', '\\']
  else if c = '\n' then ['\\', 'n']
  else if c = '\r' then ['\\', 'r']
  else if c = '\t' then ['\\', 't']
  else [c]

/-- The characters that a reader takes from a string as they were. -/
def clean (c : Char) : Bool := 0x20 ≤ c.toNat || c = '\n' || c = '\r' || c = '\t'

theorem escape_eq (b : UInt8) : escape b = escapeByte escapeChar b := by
  revert b
  apply forall_byte
  decide +kernel

theorem escapeChar_ascii : AsciiEscape escapeChar where
  ascii c ascii := by
    unfold escapeChar
    split_ifs
    · exact ⟨rfl, List.cons_ne_nil _ _⟩
    · exact ⟨rfl, List.cons_ne_nil _ _⟩
    · exact ⟨rfl, List.cons_ne_nil _ _⟩
    · exact ⟨rfl, List.cons_ne_nil _ _⟩
    · exact ⟨rfl, List.cons_ne_nil _ _⟩
    · exact ⟨by rw [List.all_cons, ascii]; rfl, List.cons_ne_nil _ _⟩
  above c above := by
    have apart (d : Char) (low : isAscii d = true) : c ≠ d := by
      rintro rfl
      rw [low] at above
      cases above
    rw [escapeChar, if_neg (apart _ rfl), if_neg (apart _ rfl), if_neg (apart _ rfl),
      if_neg (apart _ rfl), if_neg (apart _ rfl)]

theorem escapeChar_escapes : Escapes escapeChar clean where
  reads c rest := by
    by_cases quote : c = '"'
    · rw [quote]; rfl
    by_cases backslash : c = '\\'
    · rw [backslash]; rfl
    by_cases feed : c = '\n'
    · rw [feed]; rfl
    by_cases back : c = '\r'
    · rw [back]; rfl
    by_cases tab : c = '\t'
    · rw [tab]; rfl
    have one : escapeChar c = [c] := by
      rw [escapeChar, if_neg quote, if_neg backslash, if_neg feed, if_neg back, if_neg tab]
    have tested : clean c = decide (0x20 ≤ c.toNat) := by
      simp only [clean, feed, back, tab, decide_false, Bool.or_false]
    rw [one, List.singleton_append, tested]
    by_cases fine : 0x20 ≤ c.toNat
    · have stays : plain c = true := by
        simp only [plain, quote, backslash, fine, ne_eq, not_false_eq_true, decide_true, Bool.and_self]
      rw [scanChar_plain stays, if_pos (decide_eq_true fine)]
    · rw [decide_eq_false fine, if_neg Bool.false_ne_true]
      unfold scanChar
      split
      · rfl
      · next same => exact absurd (List.cons.inj same).1 backslash
      · next same => exact absurd (List.cons.inj same).1 backslash
      · next same =>
          obtain ⟨rfl, -⟩ := List.cons.inj same
          exact if_pos (.inr (.inr (Nat.not_le.1 fine)))
  opens c := by
    unfold escapeChar
    split_ifs with quote
    · exact ⟨_, _, rfl, by decide⟩
    · exact ⟨_, _, rfl, by decide⟩
    · exact ⟨_, _, rfl, by decide⟩
    · exact ⟨_, _, rfl, by decide⟩
    · exact ⟨_, _, rfl, by decide⟩
    · exact ⟨_, _, rfl, quote⟩

end Encoder

end SmoArchipelago.Switch.Json
