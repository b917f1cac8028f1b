import SmoArchipelago.Library.Utf8

/-! # Compact JSON text

Strings, numbers, arrays and objects as a compact writer prints them, with every character
above the ASCII control range as it is. The size of a text is that of its UTF-8 bytes, and
each printer has a lemma that says how large its output is. What is printed is one line. -/

namespace SmoArchipelago.Library.JsonText

/-- A control character, a quote or a backslash is escaped. -/
def escape (c : Char) : List Char :=
  if c = '"' ∨ c = '\\' then ['\\', c]
  else if c = '\n' then ['\\', 'n']
  else if c = '\r' then ['\\', 'r']
  else if c = '\t' then ['\\', 't']
  else if c = '\x08' then ['\\', 'b']
  else if c = '\x0c' then ['\\', 'f']
  else if c.toNat < 0x20 then
    ['\\', 'u', '0', '0', Nat.digitChar (c.toNat / 16), Nat.digitChar (c.toNat % 16)]
  else [c]

def quoted (s : String) : List Char := '"' :: (s.toList.flatMap escape ++ ['"'])

def int (z : ℤ) : List Char := (toString z).toList

def bool (b : Bool) : List Char := if b then "true".toList else "false".toList

/-- The parts with commas between them. -/
def commas : List (List Char) → List Char
  | [] => []
  | [part] => part
  | part :: rest => part ++ ',' :: commas rest

theorem commas_cons (part : List Char) (rest : List (List Char)) :
    commas (part :: rest) = part ++ rest.flatMap (',' :: ·) := by
  induction rest generalizing part with
  | nil => exact (List.append_nil part).symm
  | cons next rest ih =>
      calc commas (part :: next :: rest) = part ++ ',' :: commas (next :: rest) := rfl
        _ = part ++ ',' :: (next ++ rest.flatMap (',' :: ·)) := by rw [ih]
        _ = part ++ (next :: rest).flatMap (',' :: ·) := rfl

def array (values : List (List Char)) : List Char := '[' :: (commas values ++ [']'])

def member (f : String × List Char) : List Char := quoted f.1 ++ ':' :: f.2

/-- An object with its members in order, their values printed. -/
def object (fields : List (String × List Char)) : List Char :=
  '{' :: (commas (fields.map member) ++ ['}'])

/-- The members that have a value. -/
def present (fields : List (String × Option (List Char))) : List (String × List Char) :=
  fields.filterMap fun f => f.2.map (f.1, ·)

/-! ## Sizes -/

def bytes (text : List Char) : List UInt8 := text.flatMap String.utf8EncodeChar

theorem bytes_cons (c : Char) (text : List Char) :
    bytes (c :: text) = String.utf8EncodeChar c ++ bytes text := rfl

theorem bytes_append (text text' : List Char) : bytes (text ++ text') = bytes text ++ bytes text' :=
  List.flatMap_append

def size (text : List Char) : ℕ := (text.map Char.utf8Size).sum

/-- The size of a string without its quotes. -/
def textSize (s : String) : ℕ := (s.toList.map fun c => size (escape c)).sum

@[simp] theorem length_bytes (text : List Char) : (bytes text).length = size text := by
  rw [bytes, List.length_flatMap, size]
  simp only [String.length_utf8EncodeChar]

@[simp] theorem size_nil : size [] = 0 := rfl

@[simp] theorem size_cons (c : Char) (text : List Char) :
    size (c :: text) = c.utf8Size + size text := by
  rw [size, List.map_cons, List.sum_cons, size]

@[simp] theorem size_append (text text' : List Char) :
    size (text ++ text') = size text + size text' := by
  rw [size, List.map_append, List.sum_append, size, size]

theorem size_flatMap {α : Type*} (xs : List α) (f : α → List Char) :
    size (xs.flatMap f) = (xs.map fun x => size (f x)).sum := by
  induction xs with
  | nil => rfl
  | cons x xs ih => rw [List.flatMap_cons, size_append, ih, List.map_cons, List.sum_cons]

/-- Every character takes a byte at least. -/
theorem length_le_textSize (s : String) : s.toList.length ≤ textSize s := by
  have one (c : Char) : 1 ≤ size (escape c) := by
    have first (d : Char) (text : List Char) : 1 ≤ size (d :: text) := by
      rw [size_cons]
      exact Nat.le_add_right_of_le d.utf8Size_pos
    unfold escape
    split_ifs <;> exact first _ _
  have sum := List.length_le_sum_of_one_le (s.toList.map fun c => size (escape c)) fun n member => by
    obtain ⟨c, -, rfl⟩ := List.mem_map.1 member
    exact one c
  rwa [List.length_map] at sum

theorem size_quoted (s : String) : size (quoted s) = textSize s + 2 := by
  have quote : '"'.utf8Size = 1 := rfl
  rw [quoted, size_cons, size_append, size_flatMap, size_cons, size_nil, quote, textSize]
  omega

/-- The commas are one fewer than the parts. -/
theorem size_commas (parts : List (List Char)) :
    size (commas parts) = (parts.map size).sum + (parts.length - 1) := by
  have comma : ','.utf8Size = 1 := rfl
  induction parts with
  | nil => rfl
  | cons part rest ih =>
      cases rest with
      | nil => simp [commas]
      | cons next rest =>
          rw [commas, size_append, size_cons, ih, comma]
          · simp only [List.map_cons, List.sum_cons, List.length_cons]
            omega
          · exact fun h => List.cons_ne_nil next rest h

theorem size_array (values : List (List Char)) :
    size (array values) = 2 + (values.map size).sum + (values.length - 1) := by
  have brackets : '['.utf8Size = 1 ∧ ']'.utf8Size = 1 := ⟨rfl, rfl⟩
  rw [array, size_cons, size_append, size_commas, size_cons, size_nil, brackets.1, brackets.2]
  omega

theorem size_member (f : String × List Char) : size (member f) = textSize f.1 + 3 + size f.2 := by
  have colon : ':'.utf8Size = 1 := rfl
  rw [member, size_append, size_quoted, size_cons, colon]
  omega

theorem size_object (fields : List (String × List Char)) :
    size (object fields) =
      2 + (fields.map fun f => textSize f.1 + 3 + size f.2).sum + (fields.length - 1) := by
  have braces : '{'.utf8Size = 1 ∧ '}'.utf8Size = 1 := ⟨rfl, rfl⟩
  have members : (fields.map member).map size =
      fields.map fun f => textSize f.1 + 3 + size f.2 := by
    rw [List.map_map]
    exact List.map_congr_left fun f _ => size_member f
  rw [object, size_cons, size_append, size_commas, size_cons, size_nil, members, braces.1,
    braces.2, List.length_map]
  omega

/-- What a member adds to an object that has one already. -/
def presentSize : String × Option (List Char) → ℕ
  | (_, none) => 0
  | (name, some value) => textSize name + 4 + size value

theorem size_object_present (f : String × List Char) (fields : List (String × Option (List Char))) :
    size (object (f :: present fields)) =
      5 + textSize f.1 + size f.2 + (fields.map presentSize).sum := by
  have rest : (fields.map presentSize).sum =
      ((present fields).map fun g => textSize g.1 + 3 + size g.2).sum + (present fields).length := by
    induction fields with
    | nil => rfl
    | cons g fields ih =>
        obtain ⟨name, value⟩ := g
        cases value with
        | none =>
            rw [List.map_cons, List.sum_cons, ih, presentSize, Nat.zero_add]
            rfl
        | some value =>
            have split : present ((name, some value) :: fields) = (name, value) :: present fields := rfl
            rw [List.map_cons, List.sum_cons, ih, presentSize, split]
            simp only [List.map_cons, List.sum_cons, List.length_cons]
            omega
  rw [size_object, rest, List.map_cons, List.sum_cons, List.length_cons]
  omega

example : String.ofList (object [("t", quoted "a\"b"), ("n", array [int (-3), bool true])]) =
    "\x7b\"t\":\"a\\\"b\",\"n\":[-3,true]\x7d" := by decide

/-! ## One line -/

theorem newline_not_mem_escape (c : Char) : '\n' ∉ escape c := by
  have digits : ∀ n < 16, Nat.digitChar n ≠ '\n' := by decide
  unfold escape
  split_ifs with marked newline ret tab back feed control
  · rcases marked with rfl | rfl <;> decide
  · decide
  · decide
  · decide
  · decide
  · decide
  · have high := digits (c.toNat / 16) (by omega)
    have low := digits (c.toNat % 16) (Nat.mod_lt _ (by decide))
    simp [high.symm, low.symm]
  · intro member
    exact newline (List.mem_singleton.1 member).symm

theorem newline_not_mem_quoted (s : String) : '\n' ∉ quoted s := by
  intro member
  rcases List.mem_cons.1 member with first | member
  · cases first
  · rcases List.mem_append.1 member with inside | last
    · obtain ⟨c, -, here⟩ := List.mem_flatMap.1 inside
      exact newline_not_mem_escape c here
    · cases List.mem_singleton.1 last

theorem newline_not_mem_bool (b : Bool) : '\n' ∉ bool b := by
  cases b <;> decide

theorem newline_not_mem_commas {parts : List (List Char)} (each : ∀ part ∈ parts, '\n' ∉ part) :
    '\n' ∉ commas parts := by
  cases parts with
  | nil => exact List.not_mem_nil
  | cons part rest =>
      rw [commas_cons]
      intro member
      rcases List.mem_append.1 member with first | later
      · exact each part List.mem_cons_self first
      · obtain ⟨next, listed, here⟩ := List.mem_flatMap.1 later
        rcases List.mem_cons.1 here with comma | inside
        · cases comma
        · exact each next (List.mem_cons_of_mem part listed) inside

theorem newline_not_mem_array {values : List (List Char)} (each : ∀ value ∈ values, '\n' ∉ value) :
    '\n' ∉ array values := by
  intro member
  rcases List.mem_cons.1 member with first | member
  · cases first
  · rcases List.mem_append.1 member with inside | last
    · exact newline_not_mem_commas each inside
    · cases List.mem_singleton.1 last

theorem newline_not_mem_object {fields : List (String × List Char)}
    (each : ∀ f ∈ fields, '\n' ∉ f.2) : '\n' ∉ object fields := by
  have members : ∀ part ∈ fields.map member, '\n' ∉ part := by
    intro part listed here
    obtain ⟨f, among, rfl⟩ := List.mem_map.1 listed
    rcases List.mem_append.1 here with name | value
    · exact newline_not_mem_quoted f.1 name
    · rcases List.mem_cons.1 value with colon | value
      · cases colon
      · exact each f among value
  intro member
  rcases List.mem_cons.1 member with first | member
  · cases first
  · rcases List.mem_append.1 member with inside | last
    · exact newline_not_mem_commas members inside
    · cases List.mem_singleton.1 last

/-- The bytes of a text without a newline are one line. -/
theorem newline_not_mem_bytes {text : List Char} (none_new : '\n' ∉ text) :
    (0x0a : UInt8) ∉ bytes text := by
  intro member
  obtain ⟨c, here, byte⟩ := List.mem_flatMap.1 member
  have value := Utf8.toNat_of_mem_utf8EncodeChar (by decide) byte
  obtain rfl : c = '\n' := Char.toNat_inj.1 value
  exact none_new here

end SmoArchipelago.Library.JsonText
