import SmoArchipelago.Library.JsonReader
import SmoArchipelago.Library.Utf8Replace

/-! # JSON texts of bytes

What a writer that knows no encoding prints, and what a reader that decodes with replacement gets
from it. The marks of a text are ASCII, so a string of any bytes is read as their decoding. -/

namespace SmoArchipelago.Library.JsonBytes

open JsonReader Utf8

/-- The bytes are decoded by themselves, and read as the value or refused. -/
structure Writes (depth : ℕ) (bs : List UInt8) (value : Option JsonValue) : Prop where
  closed : Closed bs
  reads : Reads depth (decodeReplacing bs) value

theorem Writes.mono {depth depth' : ℕ} {bs : List UInt8} {value : Option JsonValue}
    (h : Writes depth bs value) (deeper : depth ≤ depth') : Writes depth' bs value :=
  ⟨h.closed, h.reads.mono deeper⟩

/-- `json.loads` of the decoding. -/
def parse (bs : List UInt8) : Option JsonValue := loads (decodeReplacing bs)

/-- An ASCII text is written as it is. -/
theorem writes_ascii {depth : ℕ} {text : List Char} {value : Option JsonValue}
    (ascii : text.all isAscii = true) (reads : Reads depth text value) :
    Writes depth (asciiBytes text) value := by
  have same := decodeReplacing_asciiBytes ascii []
  rw [List.append_nil, show decodeReplacing [] = [] from rfl, List.append_nil] at same
  refine ⟨closed_asciiBytes ascii, ?_⟩
  rwa [same]

theorem ascii_int (z : ℤ) : (JsonText.int z).all isAscii = true := by
  have digits : (Nat.toDigits 10 z.natAbs).all isAscii = true := by
    rw [List.all_eq_true]
    intro c member
    have digit := Nat.isDigit_of_mem_toDigits (by decide) (by decide) member
    simp only [Char.isDigit, Bool.and_eq_true, decide_eq_true_eq] at digit
    have upper : c.toNat ≤ 57 := digit.2
    exact decide_eq_true (lt_of_le_of_lt upper (by decide))
  rw [int_eq]
  split_ifs
  · rw [List.all_append, digits]
    rfl
  · exact digits

theorem writes_int (z : ℤ) : Writes 1 (asciiBytes (JsonText.int z)) (some (.int z)) :=
  writes_ascii (ascii_int z) (reads_int z)

theorem writes_bool (b : Bool) : Writes 1 (asciiBytes (JsonText.bool b)) (some (.bool b)) :=
  writes_ascii (by cases b <;> rfl) (reads_bool b)

/-! ## Strings -/

def quote : UInt8 := 0x22

/-- Bytes between quotes, with their ASCII characters escaped. -/
def quoted (esc : Char → List Char) (s : List UInt8) : List UInt8 :=
  quote :: (s.flatMap (escapeByte esc) ++ [quote])

/-- A byte that comes first and is ASCII is decoded by itself. -/
theorem decodeReplacing_cons {b : UInt8} (ascii : b.toNat < 0x80) (rest : List UInt8) :
    decodeReplacing (b :: rest) = Char.ofNat b.toNat :: decodeReplacing rest := by
  rw [decodeReplacing, decodeFrom_ascii ascii]
  rfl

theorem decodeReplacing_append_ascii {b : UInt8} (ascii : b.toNat < 0x80) (s rest : List UInt8) :
    decodeReplacing (s ++ b :: rest) =
      decodeReplacing s ++ Char.ofNat b.toNat :: decodeReplacing rest :=
  decodeFrom_append_ascii ascii none s rest

theorem closed_concat_cons {b c : UInt8} (ascii : c.toNat < 0x80) (s : List UInt8) :
    Closed (b :: (s ++ [c])) :=
  closed_concat (s := b :: s) ascii

theorem writes_quoted {esc : Char → List Char} {clean : Char → Bool} (escapes : Escapes esc clean)
    (ascii : AsciiEscape esc) (s : List UInt8) :
    Writes 1 (quoted esc s)
      (if (decodeReplacing s).all clean then some (.str (decodeReplacing s)) else none) := by
  have mark : quote.toNat < 0x80 := by decide
  refine ⟨closed_concat_cons mark _, ?_⟩
  have text : decodeReplacing (quoted esc s) = quotedWith esc (decodeReplacing s) := by
    rw [quoted, decodeReplacing_cons mark, decodeReplacing_append_ascii mark]
    change _ :: (decodeFrom none (s.flatMap (escapeByte esc)) ++ _) = _
    rw [decodeFrom_escape ascii]
    rfl
  rw [text]
  exact reads_str escapes (decodeReplacing s)

/-! ## Lists -/

def comma : UInt8 := 0x2c

/-- The parts with commas between them. -/
def commas : List (List UInt8) → List UInt8
  | [] => []
  | part :: rest => part ++ rest.flatMap (comma :: ·)

def array (parts : List (List UInt8)) : List UInt8 := 0x5b :: (commas parts ++ [0x5d])

theorem decodeReplacing_flatMap {parts : List (List UInt8)} (closed : ∀ p ∈ parts, Closed p)
    (rest : List UInt8) :
    decodeReplacing (parts.flatMap (comma :: ·) ++ rest) =
      (parts.map decodeReplacing).flatMap (',' :: ·) ++ decodeReplacing rest := by
  induction parts with
  | nil => rfl
  | cons part parts ih =>
      have later := ih fun p member => closed p (List.mem_cons_of_mem part member)
      have mark : comma.toNat < 0x80 := by decide
      rw [List.flatMap_cons, List.append_assoc, List.cons_append, decodeReplacing_cons mark,
        closed part List.mem_cons_self, later, List.map_cons, List.flatMap_cons, List.append_assoc]
      rfl

theorem decodeReplacing_commas {parts : List (List UInt8)} (closed : ∀ p ∈ parts, Closed p)
    (rest : List UInt8) :
    decodeReplacing (commas parts ++ rest) =
      JsonText.commas (parts.map decodeReplacing) ++ decodeReplacing rest := by
  cases parts with
  | nil => rfl
  | cons part parts =>
      have later := decodeReplacing_flatMap (fun p member => closed p (List.mem_cons_of_mem part member))
        rest
      rw [commas, List.append_assoc, closed part List.mem_cons_self, later, List.map_cons,
        JsonText.commas_cons, List.append_assoc]

/-- Bytes with the value that they are read as. -/
abbrev Part := List UInt8 × Option JsonValue

def valuesOf (parts : List Part) : Option (List JsonValue) := parts.mapM Prod.snd

theorem writes_array {depth : ℕ} {parts : List Part} (each : ∀ p ∈ parts, Writes depth p.1 p.2) :
    Writes (depth + 1) (array (parts.map Prod.fst)) ((valuesOf parts).map .list) := by
  have closed : ∀ p ∈ parts.map Prod.fst, Closed p := by
    intro p member
    obtain ⟨q, here, rfl⟩ := List.mem_map.1 member
    exact (each q here).closed
  have bracket : (0x5b : UInt8).toNat < 0x80 ∧ (0x5d : UInt8).toNat < 0x80 := ⟨by decide, by decide⟩
  refine ⟨closed_concat_cons bracket.2 _, ?_⟩
  have text : decodeReplacing (array (parts.map Prod.fst)) =
      JsonText.array ((parts.map fun p => (decodeReplacing p.1, p.2)).map Prod.fst) := by
    rw [array, decodeReplacing_cons bracket.1, decodeReplacing_commas closed, List.map_map,
      List.map_map]
    rfl
  have values : valuesOf parts = partValues (parts.map fun p => (decodeReplacing p.1, p.2)) := by
    rw [valuesOf, partValues, List.mapM_map]
    rfl
  rw [text, values]
  apply reads_list
  intro p member
  obtain ⟨q, here, rfl⟩ := List.mem_map.1 member
  exact (each q here).reads

/-! ## Dictionaries -/

/-- A name, bytes and the value that they are read as. -/
structure Member where
  name : List Char
  bytes : List UInt8
  value : Option JsonValue

namespace Member

def written (m : Member) : List UInt8 := quote :: (asciiBytes m.name ++ quote :: 0x3a :: m.bytes)

def named (m : Member) : Option (List Char × JsonValue) := m.value.map (m.name, ·)

def decoded (m : Member) : JsonReader.Field := ⟨m.name, decodeReplacing m.bytes, m.value⟩

/-- The name is plain and ASCII, and the bytes are read as the value. -/
def Writes (depth : ℕ) (m : Member) : Prop :=
  (m.name.all plain = true ∧ m.name.all isAscii = true) ∧ JsonBytes.Writes depth m.bytes m.value

end Member

def namedValues (members : List Member) : Option (List (List Char × JsonValue)) :=
  members.mapM Member.named

def object (members : List Member) : List UInt8 :=
  0x7b :: (commas (members.map Member.written) ++ [0x7d])

theorem decodeReplacing_written {depth : ℕ} {m : Member} (h : m.Writes depth) (rest : List UInt8) :
    decodeReplacing (m.written ++ rest) =
      m.decoded.written ++ decodeReplacing rest := by
  have mark : quote.toNat < 0x80 := by decide
  have colon : (0x3a : UInt8).toNat < 0x80 := by decide
  rw [Member.written, List.cons_append, decodeReplacing_cons mark, List.append_assoc,
    decodeReplacing_asciiBytes h.1.2, List.cons_append, decodeReplacing_cons mark, List.cons_append,
    decodeReplacing_cons colon, h.2.closed, JsonReader.Field.written, List.cons_append, List.append_assoc]
  rfl

theorem closed_written {depth : ℕ} {m : Member} (h : m.Writes depth) : Closed m.written := by
  intro rest
  have alone := decodeReplacing_written h []
  rw [List.append_nil, show decodeReplacing [] = [] from rfl, List.append_nil] at alone
  rw [decodeReplacing_written h, alone]

theorem writes_object {depth : ℕ} {members : List Member} (each : ∀ m ∈ members, m.Writes depth)
    (apart : (members.map Member.name).Nodup) :
    Writes (depth + 1) (object members) ((namedValues members).map .dict) := by
  have closed : ∀ p ∈ members.map Member.written, Closed p := by
    intro p member
    obtain ⟨m, here, rfl⟩ := List.mem_map.1 member
    exact closed_written (each m here)
  have brace : (0x7b : UInt8).toNat < 0x80 ∧ (0x7d : UInt8).toNat < 0x80 := ⟨by decide, by decide⟩
  have decoded : (members.map Member.written).map decodeReplacing =
      (members.map Member.decoded).map JsonReader.Field.written := by
    rw [List.map_map, List.map_map]
    apply List.map_congr_left
    intro m here
    have alone := decodeReplacing_written (each m here) []
    rwa [List.append_nil, show decodeReplacing [] = [] from rfl, List.append_nil] at alone
  have text : decodeReplacing (object members) =
      objectText (members.map Member.decoded) := by
    rw [object, decodeReplacing_cons brace.1, decodeReplacing_commas closed, decoded]
    rfl
  have values : namedValues members =
      fieldValues (members.map Member.decoded) := by
    rw [namedValues, fieldValues, List.mapM_map]
    rfl
  refine ⟨closed_concat_cons brace.2 _, ?_⟩
  rw [text, values]
  apply reads_dict
  · intro f member
    obtain ⟨m, here, rfl⟩ := List.mem_map.1 member
    exact ⟨(each m here).1.1, (each m here).2.reads⟩
  · rw [List.map_map]
    exact apart

/-- A whole text is read as its value. -/
theorem Writes.parse {depth : ℕ} {bs : List UInt8} {value : Option JsonValue}
    (h : Writes depth bs value) (shallow : depth ≤ (decodeReplacing bs).length + 1) :
    parse bs = value :=
  h.reads.loads shallow

/-- So is one that ends with a newline. -/
theorem Writes.parse_line {depth : ℕ} {bs : List UInt8} {value : Option JsonValue}
    (h : Writes depth bs value) (shallow : depth ≤ (decodeReplacing bs).length + 1) :
    JsonBytes.parse (bs ++ [0x0a]) = value := by
  have text : decodeReplacing (bs ++ [0x0a]) = decodeReplacing bs ++ ['\n'] :=
    decodeReplacing_append_ascii (by decide) bs []
  rw [JsonBytes.parse, text]
  exact h.reads.loads_append shallow rfl (stops_cons (by decide) [])

end SmoArchipelago.Library.JsonBytes
