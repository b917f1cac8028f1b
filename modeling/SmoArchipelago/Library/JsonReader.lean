import SmoArchipelago.Library.JsonText

/-! # Reading JSON texts

A strict reader of JSON: a control character within a string is refused. A text that a compact
writer printed is read back as its value, and a text that holds a refused string is refused.

## Implementation notes

The reader takes a bound on the nesting; a text is never nested deeper than it is long. A number
with a fraction or an exponent keeps its text. A `\u` escape of half a surrogate pair stands for
no character and is refused. -/

namespace SmoArchipelago.Library.JsonReader

inductive JsonValue where
  | null
  | bool (b : Bool)
  | int (z : ℤ)
  | float (text : List Char)
  | str (s : List Char)
  | list (vs : List JsonValue)
  | dict (fields : List (List Char × JsonValue))

def isWhite (c : Char) : Bool := c = ' ' || c = '\t' || c = '\n' || c = '\r'

def skipWhite : List Char → List Char := List.dropWhile isWhite

/-! ## Strings -/

def hexDigit (c : Char) : Option ℕ :=
  if '0' ≤ c ∧ c ≤ '9' then some (c.toNat - '0'.toNat)
  else if 'a' ≤ c ∧ c ≤ 'f' then some (c.toNat - 'a'.toNat + 10)
  else if 'A' ≤ c ∧ c ≤ 'F' then some (c.toNat - 'A'.toNat + 10)
  else none

/-- Four hexadecimal digits, and what follows them. -/
def hexUnit : List Char → Option (ℕ × List Char)
  | a :: b :: c :: d :: rest => do
      let a ← hexDigit a
      let b ← hexDigit b
      let c ← hexDigit c
      let d ← hexDigit d
      return (((a * 16 + b) * 16 + c) * 16 + d, rest)
  | _ => none

def charOf (n : ℕ) : Option Char := if h : n.isValidChar then some (Char.ofNatAux n h) else none

/-- The character of a `\u` escape, of which the `\u` is read; two escapes may be one character. -/
def unicodeEscape (cs : List Char) : Option (Char × List Char) := do
  let (unit, rest) ← hexUnit cs
  match rest with
  | '\\' :: 'u' :: more =>
      match hexUnit more with
      | some (low, rest') =>
          if 0xD800 ≤ unit ∧ unit ≤ 0xDBFF ∧ 0xDC00 ≤ low ∧ low ≤ 0xDFFF then
            let c ← charOf (0x10000 + (unit - 0xD800) * 0x400 + (low - 0xDC00))
            return (c, rest')
          else return (← charOf unit, rest)
      | none => none
  | _ => return (← charOf unit, rest)

/-- The character that a letter after a backslash stands for. -/
def shortEscape (c : Char) : Option Char :=
  if c = '"' ∨ c = '\\' ∨ c = '/' then some c
  else if c = 'b' then some '\x08'
  else if c = 'f' then some '\x0c'
  else if c = 'n' then some '\n'
  else if c = 'r' then some '\r'
  else if c = 't' then some '\t'
  else none

/-- One character of a string, and what follows it; the closing quote is none. -/
def scanChar : List Char → Option (Char × List Char)
  | [] => none
  | '\\' :: 'u' :: rest => unicodeEscape rest
  | '\\' :: c :: rest => (shortEscape c).map (·, rest)
  | c :: rest => if c = '"' ∨ c = '\\' ∨ c.toNat < 0x20 then none else some (c, rest)

/-- The characters of a string up to its closing quote. -/
def scanString : ℕ → List Char → Option (List Char × List Char)
  | 0, _ => none
  | n + 1, cs =>
      match cs with
      | '"' :: rest => some ([], rest)
      | cs => do
          let (c, rest) ← scanChar cs
          let (s, rest) ← scanString n rest
          return (c :: s, rest)

/-- A string, of which the opening quote is read. -/
def string (cs : List Char) : Option (List Char × List Char) := scanString (cs.length + 1) cs

/-! ## Numbers -/

/-- The digits before the point: a zero alone, or a run that starts with another digit. -/
def integral : List Char → Option (List Char × List Char)
  | [] => none
  | c :: rest =>
      if c = '0' then some (['0'], rest)
      else if c.isDigit then some (c :: rest.takeWhile Char.isDigit, rest.dropWhile Char.isDigit)
      else none

/-- A run of digits after what introduces it, or nothing. -/
def tail (introduction cs : List Char) : List Char × List Char :=
  let rest := cs.drop introduction.length
  if rest.takeWhile Char.isDigit = [] then ([], cs)
  else (introduction ++ rest.takeWhile Char.isDigit, rest.dropWhile Char.isDigit)

def fraction : List Char → List Char × List Char
  | '.' :: rest => tail ['.'] ('.' :: rest)
  | cs => ([], cs)

def exponent : List Char → List Char × List Char
  | e :: sign :: rest =>
      if e = 'e' ∨ e = 'E' then
        tail (if sign = '+' ∨ sign = '-' then [e, sign] else [e]) (e :: sign :: rest)
      else ([], e :: sign :: rest)
  | cs => ([], cs)

def unsigned (negative : Bool) (cs : List Char) : Option (JsonValue × List Char) := do
  let (digits, rest) ← integral cs
  let (frac, rest) := fraction rest
  let (exp, rest) := exponent rest
  if frac = [] ∧ exp = [] then
    let n : ℤ := Nat.ofDigitChars 10 digits 0
    return (.int (if negative then -n else n), rest)
  else return (.float ((if negative then ['-'] else []) ++ digits ++ frac ++ exp), rest)

def number : List Char → Option (JsonValue × List Char)
  | '-' :: rest => unsigned true rest
  | cs => unsigned false cs

/-- What is written without quotes or brackets. -/
def word (cs : List Char) : Option (JsonValue × List Char) :=
  let named (name : String) (v : JsonValue) : Option (JsonValue × List Char) :=
    if name.toList.isPrefixOf cs then some (v, cs.drop name.length) else none
  named "null" .null <|> named "true" (.bool true) <|> named "false" (.bool false) <|>
    named "NaN" (.float "NaN".toList) <|> named "Infinity" (.float "Infinity".toList) <|>
    named "-Infinity" (.float "-Infinity".toList) <|> number cs

/-! ## Values -/

section Nested

variable (value : List Char → Option (JsonValue × List Char))

/-- Values with commas between them, up to the closing bracket. -/
def elements : ℕ → List Char → Option (List JsonValue × List Char)
  | 0, _ => none
  | n + 1, cs => do
      let (v, rest) ← value cs
      match skipWhite rest with
      | ']' :: rest => return ([v], rest)
      | ',' :: rest =>
          let (vs, rest) ← elements n (skipWhite rest)
          return (v :: vs, rest)
      | _ => none

/-- Named values with commas between them, up to the closing brace. -/
def members : ℕ → List Char → Option (List (List Char × JsonValue) × List Char)
  | 0, _ => none
  | n + 1, cs => do
      let '"' :: rest := cs | none
      let (name, rest) ← string rest
      let ':' :: rest := skipWhite rest | none
      let (v, rest) ← value (skipWhite rest)
      match skipWhite rest with
      | '}' :: rest => return ([(name, v)], rest)
      | ',' :: rest =>
          let (fields, rest) ← members n (skipWhite rest)
          return ((name, v) :: fields, rest)
      | _ => none

/-- A name is kept where it was first, with the value that it was given last. -/
def setField (fields : List (List Char × JsonValue)) (f : List Char × JsonValue) :
    List (List Char × JsonValue) :=
  if fields.any fun g => g.1 = f.1 then fields.map fun g => if g.1 = f.1 then f else g
  else fields ++ [f]

def dictOf (fields : List (List Char × JsonValue)) : JsonValue := .dict (fields.foldl setField [])

end Nested

/-- A value, nested at most so deep. -/
def value : ℕ → List Char → Option (JsonValue × List Char)
  | 0, _ => none
  | n + 1, cs =>
      match cs with
      | '"' :: rest => (string rest).map fun p => (.str p.1, p.2)
      | '[' :: rest =>
          match skipWhite rest with
          | ']' :: rest => some (.list [], rest)
          | rest => (elements (value n) (rest.length + 1) rest).map fun p => (.list p.1, p.2)
      | '{' :: rest =>
          match skipWhite rest with
          | '}' :: rest => some (.dict [], rest)
          | rest => (members (value n) (rest.length + 1) rest).map fun p => (dictOf p.1, p.2)
      | cs => word cs

/-- `json.loads`. -/
def loads (s : List Char) : Option JsonValue :=
  if s.head? = some '\ufeff' then none
  else
    match value (s.length + 1) (skipWhite s) with
    | some (v, rest) => if skipWhite rest = [] then some v else none
    | none => none

/-! ## Strings that were written -/

/-- What an escape of characters writes is read back, where the character is clean; any other is
refused. -/
structure Escapes (esc : Char → List Char) (clean : Char → Bool) : Prop where
  reads : ∀ c rest, scanChar (esc c ++ rest) = if clean c then some (c, rest) else none
  opens : ∀ c, ∃ d ds, esc c = d :: ds ∧ d ≠ '"'

section Strings

variable {esc : Char → List Char} {clean : Char → Bool} (escapes : Escapes esc clean)

include escapes in
theorem scanString_written (s rest : List Char) {n : ℕ} (enough : s.length < n) :
    scanString n (s.flatMap esc ++ '"' :: rest) = if s.all clean then some (s, rest) else none := by
  induction s generalizing n with
  | nil =>
      obtain ⟨n, rfl⟩ : ∃ m, n = m + 1 := ⟨n - 1, by omega⟩
      rfl
  | cons c s ih =>
      obtain ⟨n, rfl⟩ : ∃ m, n = m + 1 := ⟨n - 1, by omega⟩
      obtain ⟨d, ds, written, no_quote⟩ := escapes.opens c
      have here := escapes.reads c (s.flatMap esc ++ '"' :: rest)
      have later := ih (n := n) (Nat.lt_of_succ_lt_succ enough)
      rw [List.flatMap_cons, List.append_assoc, written, List.cons_append] at *
      unfold scanString
      split
      · next rest' same =>
          exact absurd (List.cons.inj same).1 no_quote
      · rw [here]
        by_cases fine : clean c = true
        · by_cases all : s.all clean = true
          · simp [fine, all, later]
          · simp [fine, all, later]
        · simp [fine]

include escapes in
theorem string_written (s rest : List Char) :
    string (s.flatMap esc ++ '"' :: rest) = if s.all clean then some (s, rest) else none := by
  apply scanString_written escapes
  have long : s.length ≤ (s.flatMap esc).length := by
    induction s with
    | nil => exact le_rfl
    | cons c s ih =>
        obtain ⟨d, ds, written, -⟩ := escapes.opens c
        rw [List.flatMap_cons, List.length_append, List.length_cons, written, List.length_cons]
        omega
  rw [List.length_append, List.length_cons]
  omega

end Strings

/-! ## Values that were written -/

/-- No number goes on here. -/
def Stops (rest : List Char) : Prop :=
  ∀ c ∈ rest.head?, c.isDigit = false ∧ c ≠ '.' ∧ c ≠ 'e' ∧ c ≠ 'E'

theorem stops_cons {c : Char} (plain : c.isDigit = false ∧ c ≠ '.' ∧ c ≠ 'e' ∧ c ≠ 'E')
    (rest : List Char) : Stops (c :: rest) := by
  intro d member
  cases Option.some.inj member
  exact plain

/-- The text, nested at most so deep, is read as its value, or is refused. -/
structure Reads (depth : ℕ) (text : List Char) (result : Option JsonValue) : Prop where
  visible : ∃ c cs, text = c :: cs ∧ isWhite c = false ∧ c ≠ ']' ∧ c ≠ '\ufeff'
  value : ∀ n, depth ≤ n → ∀ rest, Stops rest → value n (text ++ rest) = result.map (·, rest)

theorem Reads.mono {depth depth' : ℕ} {text : List Char} {result : Option JsonValue}
    (h : Reads depth text result) (deeper : depth ≤ depth') : Reads depth' text result :=
  ⟨h.visible, fun n enough => h.value n (deeper.trans enough)⟩

/-- A string between quotes. -/
def quotedWith (esc : Char → List Char) (s : List Char) : List Char := '"' :: (s.flatMap esc ++ ['"'])

theorem reads_str {esc : Char → List Char} {clean : Char → Bool} (escapes : Escapes esc clean)
    (s : List Char) :
    Reads 1 (quotedWith esc s) (if s.all clean then some (.str s) else none) := by
  refine ⟨⟨'"', _, rfl, rfl, by decide, by decide⟩, fun n enough rest _ => ?_⟩
  obtain ⟨n, rfl⟩ : ∃ m, n = m + 1 := ⟨n - 1, by omega⟩
  have body : quotedWith esc s ++ rest = '"' :: (s.flatMap esc ++ '"' :: rest) := by
    simp [quotedWith]
  have read : value (n + 1) ('"' :: (s.flatMap esc ++ '"' :: rest)) =
      (string (s.flatMap esc ++ '"' :: rest)).map fun p => (.str p.1, p.2) := rfl
  rw [body, read, string_written escapes]
  split_ifs <;> rfl

theorem reads_bool (b : Bool) : Reads 1 (JsonText.bool b) (some (.bool b)) := by
  cases b
  · refine ⟨⟨'f', _, rfl, rfl, by decide, by decide⟩, fun n enough rest _ => ?_⟩
    obtain ⟨n, rfl⟩ : ∃ m, n = m + 1 := ⟨n - 1, by omega⟩
    rfl
  · refine ⟨⟨'t', _, rfl, rfl, by decide, by decide⟩, fun n enough rest _ => ?_⟩
    obtain ⟨n, rfl⟩ : ∃ m, n = m + 1 := ⟨n - 1, by omega⟩
    rfl

/-- A number is a sign, if it is negative, and its digits. -/
theorem int_eq (z : ℤ) :
    JsonText.int z = (if z < 0 then ['-'] else []) ++ Nat.toDigits 10 z.natAbs := by
  cases z with
  | ofNat n =>
      have sign : ¬ Int.ofNat n < 0 := Int.not_lt.2 (Int.natCast_nonneg n)
      rw [if_neg sign]
      change (Nat.repr n).toList = _
      rw [Nat.repr, String.toList_ofList]
      rfl
  | negSucc n =>
      rw [if_pos (Int.negSucc_lt_zero n)]
      change ("-" ++ Nat.repr (n + 1)).toList = _
      simp only [String.toList_append, Nat.repr, String.toList_ofList]
      rfl

/-- The digits of a number begin with a zero only where they are that zero. -/
theorem toDigits_head (n : ℕ) : ∃ c cs, Nat.toDigits 10 n = c :: cs ∧ c.isDigit = true ∧
    (c = '0' → cs = []) := by
  induction n using Nat.strongRecOn with
  | ind n ih =>
      have digit : ∀ c ∈ Nat.toDigits 10 n, c.isDigit = true := fun c member =>
        Nat.isDigit_of_mem_toDigits (by decide) (by decide) member
      by_cases small : n < 10
      · have one := Nat.toDigits_of_lt_base (b := 10) small
        exact ⟨_, [], one, digit _ (by rw [one]; exact List.mem_singleton_self _), fun _ => rfl⟩
      · obtain ⟨c, cs, start, -, zero⟩ := ih (n / 10) (Nat.div_lt_self (by omega) (by decide))
        have split : Nat.toDigits 10 n = Nat.toDigits 10 (n / 10) ++ Nat.toDigits 10 (n % 10) := by
          rw [Nat.toDigits_append_toDigits (by decide) (Nat.div_pos (by omega) (by decide))
            (Nat.mod_lt n (by decide)), Nat.div_add_mod]
        rw [split, start, List.cons_append]
        refine ⟨c, _, rfl, digit c (by rw [split, start]; exact List.mem_cons_self), fun same => ?_⟩
        have value : Nat.ofDigitChars 10 (Nat.toDigits 10 (n / 10)) 0 = n / 10 :=
          Nat.ofDigitChars_ten_toDigits
        rw [start, zero same, same] at value
        have none_left : n / 10 = 0 := value.symm
        omega

theorem unsigned_toDigits (negative : Bool) (n : ℕ) {rest : List Char} (stops : Stops rest) :
    unsigned negative (Nat.toDigits 10 n ++ rest) =
      some (.int (if negative then -n else n), rest) := by
  have digits : ∀ c ∈ Nat.toDigits 10 n, c.isDigit = true := fun c member =>
    Nat.isDigit_of_mem_toDigits (by decide) (by decide) member
  have no_digit : ∀ c ∈ rest.head?, ¬ c.isDigit = true := fun c member =>
    Bool.eq_false_iff.1 (stops c member).1
  have value : Nat.ofDigitChars 10 (Nat.toDigits 10 n) 0 = n := Nat.ofDigitChars_ten_toDigits
  have taken : rest.takeWhile Char.isDigit = [] := by
    cases rest with
    | nil => rfl
    | cons c rest => exact List.takeWhile_cons_of_neg (no_digit c rfl)
  have dropped : rest.dropWhile Char.isDigit = rest := by
    cases rest with
    | nil => rfl
    | cons c rest => exact List.dropWhile_cons_of_neg (no_digit c rfl)
  have whole : integral (Nat.toDigits 10 n ++ rest) = some (Nat.toDigits 10 n, rest) := by
    obtain ⟨c, cs, start, digit, zero⟩ := toDigits_head n
    rw [start] at digits ⊢
    have later : ∀ d ∈ cs, d.isDigit = true := fun d member => digits d (List.mem_cons_of_mem c member)
    rw [List.cons_append, integral]
    by_cases lone : c = '0'
    · rw [if_pos lone, zero lone, lone]
      rfl
    · rw [if_neg lone, if_pos digit, List.takeWhile_append_of_pos later,
        List.dropWhile_append_of_pos later, taken, dropped, List.append_nil]
  have no_fraction : fraction rest = ([], rest) := by
    unfold fraction
    split
    · next more => exact absurd rfl (stops '.' rfl).2.1
    · rfl
  have no_exponent : exponent rest = ([], rest) := by
    unfold exponent
    split
    · next e sign more =>
        obtain ⟨-, -, small, big⟩ := stops e rfl
        rw [if_neg (by rintro (rfl | rfl); exacts [small rfl, big rfl])]
    · rfl
  unfold unsigned
  simp only [whole, no_fraction, no_exponent, value, Option.bind_eq_bind, Option.bind_some,
    and_self, if_true]
  rfl

/-- A character that begins a number begins nothing else. -/
theorem number_start {d : Char} (kind : d.isDigit = true ∨ d = '-') :
    isWhite d = false ∧ d ≠ ']' ∧ d ≠ '\ufeff' ∧ d ≠ '"' ∧ d ≠ '[' ∧ d ≠ '{' ∧
      d ≠ 'n' ∧ d ≠ 't' ∧ d ≠ 'f' ∧ d ≠ 'N' ∧ d ≠ 'I' := by
  have range : 45 ≤ d.toNat ∧ d.toNat ≤ 57 := by
    rcases kind with numeral | rfl
    · unfold Char.isDigit at numeral
      simp only [Bool.and_eq_true, decide_eq_true_eq] at numeral
      exact ⟨le_trans (by decide) (show 48 ≤ d.toNat from numeral.1),
        show d.toNat ≤ 57 from numeral.2⟩
    · exact ⟨by decide, by decide⟩
  have apart (e : Char) (far : e.toNat < 45 ∨ 57 < e.toNat) : d ≠ e := by
    rintro rfl
    omega
  refine ⟨?_, apart _ (by decide), apart _ (by decide), apart _ (by decide), apart _ (by decide),
    apart _ (by decide), apart _ (by decide), apart _ (by decide), apart _ (by decide),
    apart _ (by decide), apart _ (by decide)⟩
  have space := apart ' ' (by decide)
  have tab := apart '\t' (by decide)
  have feed := apart '\n' (by decide)
  have back := apart '\r' (by decide)
  simp [isWhite, space, tab, feed, back]

/-- A number is no word and no other value. -/
theorem value_number (n : ℕ) {c : Char} {cs : List Char} (kind : c.isDigit = true ∨ c = '-')
    (digit : c = '-' → ∃ d ds, cs = d :: ds ∧ d.isDigit = true) :
    value (n + 1) (c :: cs) = number (c :: cs) := by
  obtain ⟨-, -, -, quote, bracket, brace, hn, ht, hf, hN, hI⟩ := number_start kind
  have other : value (n + 1) (c :: cs) = word (c :: cs) := by
    unfold value
    split
    · next same => exact absurd (List.cons.inj same).1 quote
    · next same => exact absurd (List.cons.inj same).1 bracket
    · next same => exact absurd (List.cons.inj same).1 brace
    · rfl
  have apart (name : String) {e : Char} {es : List Char} (letters : name.toList = e :: es)
      (differs : c ≠ e) : name.toList.isPrefixOf (c :: cs) = false := by
    rw [letters, List.isPrefixOf, Bool.and_eq_false_iff]
    exact .inl (beq_eq_false_iff_ne.2 differs.symm)
  have infinity : "-Infinity".toList.isPrefixOf (c :: cs) = false := by
    by_cases minus : c = '-'
    · obtain ⟨d, ds, rfl, numeral⟩ := digit minus
      have differs : d ≠ 'I' := (number_start (.inl numeral)).2.2.2.2.2.2.2.2.2.2
      have letters : "-Infinity".toList = '-' :: 'I' :: "nfinity".toList := rfl
      rw [letters, List.isPrefixOf, List.isPrefixOf, beq_eq_false_iff_ne.2 differs.symm,
        Bool.false_and, Bool.and_false]
    · exact apart "-Infinity" rfl minus
  rw [other]
  simp only [word, apart "null" rfl hn, apart "true" rfl ht,
    apart "false" rfl hf, apart "NaN" rfl hN, apart "Infinity" rfl hI,
    infinity, Bool.false_eq_true, if_false]
  rfl

theorem reads_int (z : ℤ) : Reads 1 (JsonText.int z) (some (.int z)) := by
  obtain ⟨d, ds, start, digit, -⟩ := toDigits_head z.natAbs
  have sign_kind : ∃ c cs, JsonText.int z = c :: cs ∧ (c.isDigit = true ∨ c = '-') ∧
      (c = '-' → ∃ d ds, cs = d :: ds ∧ d.isDigit = true) := by
    rw [int_eq, start]
    split_ifs
    · exact ⟨'-', d :: ds, rfl, .inr rfl, fun _ => ⟨d, ds, rfl, digit⟩⟩
    · refine ⟨d, ds, rfl, .inl digit, fun minus => ?_⟩
      rw [minus] at digit
      exact absurd digit (by decide)
  obtain ⟨c, cs, text, kind, after⟩ := sign_kind
  obtain ⟨white, bracket, mark, -⟩ := number_start kind
  refine ⟨⟨c, cs, text, white, bracket, mark⟩, fun n enough rest stops => ?_⟩
  obtain ⟨n, rfl⟩ : ∃ m, n = m + 1 := ⟨n - 1, by omega⟩
  have number_read : number (JsonText.int z ++ rest) = some (.int z, rest) := by
    rw [int_eq]
    by_cases negative : z < 0
    · have read := unsigned_toDigits true z.natAbs stops
      have back : -(z.natAbs : ℤ) = z := by omega
      rw [if_pos rfl, back] at read
      rw [if_pos negative]
      exact read
    · have read := unsigned_toDigits false z.natAbs stops
      have back : (z.natAbs : ℤ) = z := by omega
      rw [if_neg Bool.false_ne_true, back] at read
      rw [if_neg negative, List.nil_append, ← read, start, List.cons_append]
      unfold number
      split
      · next more same =>
          rw [(List.cons.inj same).1] at digit
          exact absurd digit (by decide)
      · rfl
  rw [Option.map_some, ← number_read, text, List.cons_append]
  apply value_number n kind
  intro minus
  obtain ⟨d, ds, rfl, numeral⟩ := after minus
  exact ⟨d, ds ++ rest, rfl, numeral⟩

/-! ## Lists and dictionaries that were written -/

theorem skipWhite_cons {c : Char} (visible : isWhite c = false) (rest : List Char) :
    skipWhite (c :: rest) = c :: rest :=
  List.dropWhile_cons_of_neg (by rw [visible]; exact Bool.false_ne_true)

theorem Reads.skipWhite_append {depth : ℕ} {text : List Char} {result : Option JsonValue}
    (h : Reads depth text result) (rest : List Char) :
    skipWhite (text ++ rest) = text ++ rest := by
  obtain ⟨c, cs, rfl, visible, -⟩ := h.visible
  exact skipWhite_cons visible _

theorem stops_comma (rest : List Char) : Stops (',' :: rest) := stops_cons (by decide) rest

/-- A text with the value that it is read as. -/
abbrev Part := List Char × Option JsonValue

/-- The values of all parts, if none is refused. -/
def partValues (parts : List Part) : Option (List JsonValue) := parts.mapM Prod.snd

theorem partValues_cons (part : Part) (parts : List Part) :
    partValues (part :: parts) = part.2.bind fun v => (partValues parts).map (v :: ·) := by
  rw [partValues, List.mapM_cons, partValues]
  cases part.2 with
  | none => rfl
  | some v => cases List.mapM Prod.snd parts <;> rfl

/-- The parts after the first, and what ends them. -/
theorem elements_written {depth n : ℕ} (enough : depth ≤ n) {part : Part} {parts : List Part}
    (rest : List Char) (each : ∀ p ∈ part :: parts, Reads depth p.1 p.2) {k : ℕ}
    (turns : parts.length < k) :
    elements (value n) k
        (part.1 ++ ((parts.map Prod.fst).flatMap (',' :: ·) ++ ']' :: rest)) =
      (partValues (part :: parts)).map (·, rest) := by
  induction parts generalizing part k with
  | nil =>
      obtain ⟨k, rfl⟩ : ∃ m, k = m + 1 := ⟨k - 1, by omega⟩
      have here := (each part List.mem_cons_self).value n enough (']' :: rest)
        (stops_cons (by decide) rest)
      change elements (value n) (k + 1) (part.1 ++ ']' :: rest) = _
      rw [elements, here, partValues_cons]
      cases part.2 <;> rfl
  | cons next parts ih =>
      obtain ⟨k, rfl⟩ : ∃ m, k = m + 1 := ⟨k - 1, by omega⟩
      have rest_reads : ∀ p ∈ next :: parts, Reads depth p.1 p.2 :=
        fun p member => each p (List.mem_cons_of_mem _ member)
      have later := ih rest_reads (Nat.lt_of_succ_lt_succ turns)
      have here := (each part List.mem_cons_self).value n enough
        (',' :: (next.1 ++ ((parts.map Prod.fst).flatMap (',' :: ·) ++ ']' :: rest))) (stops_comma _)
      have shown := (each next (List.mem_cons_of_mem _ List.mem_cons_self)).skipWhite_append
        ((parts.map Prod.fst).flatMap (',' :: ·) ++ ']' :: rest)
      have text : ((next :: parts).map Prod.fst).flatMap (',' :: ·) ++ ']' :: rest =
          ',' :: (next.1 ++ ((parts.map Prod.fst).flatMap (',' :: ·) ++ ']' :: rest)) := by
        rw [List.map_cons, List.flatMap_cons, List.cons_append, List.cons_append, List.append_assoc]
      rw [text, elements, here, partValues_cons]
      cases part.2 with
      | none => rfl
      | some v =>
          change (do
            let (vs, rest) ← elements (value n) k (skipWhite _)
            return (v :: vs, rest)) = _
          rw [shown, later]
          cases partValues (next :: parts) <;> rfl

theorem length_le_flatMap (ts : List (List Char)) : ts.length ≤ (ts.flatMap (',' :: ·)).length := by
  induction ts with
  | nil => exact le_rfl
  | cons t ts ih =>
      rw [List.flatMap_cons, List.length_append, List.length_cons, List.length_cons]
      omega

theorem reads_list {depth : ℕ} {parts : List Part} (each : ∀ p ∈ parts, Reads depth p.1 p.2) :
    Reads (depth + 1) (JsonText.array (parts.map Prod.fst)) ((partValues parts).map .list) := by
  refine ⟨⟨'[', _, rfl, rfl, by decide, by decide⟩, fun n enough rest _ => ?_⟩
  obtain ⟨n, rfl⟩ : ∃ m, n = m + 1 := ⟨n - 1, by omega⟩
  cases parts with
  | nil => rfl
  | cons part parts =>
      have body : JsonText.array ((part :: parts).map Prod.fst) ++ rest =
          '[' :: (part.1 ++ ((parts.map Prod.fst).flatMap (',' :: ·) ++ ']' :: rest)) := by
        rw [JsonText.array, List.map_cons, JsonText.commas_cons]
        simp only [List.cons_append, List.append_assoc, List.nil_append]
      obtain ⟨c, cs, start, visible, bracket, -⟩ := (each part List.mem_cons_self).visible
      have turns : parts.length <
          (part.1 ++ ((parts.map Prod.fst).flatMap (',' :: ·) ++ ']' :: rest)).length + 1 := by
        have tail := length_le_flatMap (parts.map Prod.fst)
        rw [List.length_map] at tail
        rw [List.length_append, List.length_append]
        omega
      have read := elements_written (Nat.le_of_succ_le_succ enough) rest each turns
      rw [start, List.cons_append] at read
      rw [body, start, List.cons_append, value, skipWhite_cons visible]
      split
      · next rest' same => exact absurd (List.cons.inj same).1 bracket
      · rw [read]
        cases partValues (part :: parts) <;> rfl

/-- A character that stands within a string as it is. -/
def plain (c : Char) : Bool := c ≠ '"' && c ≠ '\\' && 0x20 ≤ c.toNat

theorem scanChar_plain {c : Char} (h : plain c = true) (rest : List Char) :
    scanChar (c :: rest) = some (c, rest) := by
  simp only [plain, Bool.and_eq_true, decide_eq_true_eq] at h
  obtain ⟨⟨quote, backslash⟩, visible⟩ := h
  unfold scanChar
  split
  · next same => cases same
  · next same => exact absurd (List.cons.inj same).1 backslash
  · next same => exact absurd (List.cons.inj same).1 backslash
  · next same =>
      obtain ⟨rfl, rfl⟩ := List.cons.inj same
      rw [if_neg]
      rintro (h | h | h)
      · exact quote h
      · exact backslash h
      · omega

theorem string_plain {name : List Char} (h : name.all plain = true) (rest : List Char) :
    string (name ++ '"' :: rest) = some (name, rest) := by
  have scan (n : ℕ) (enough : name.length < n) :
      scanString n (name ++ '"' :: rest) = some (name, rest) := by
    induction name generalizing n with
    | nil =>
        obtain ⟨n, rfl⟩ : ∃ m, n = m + 1 := ⟨n - 1, by omega⟩
        rfl
    | cons c name ih =>
        obtain ⟨n, rfl⟩ : ∃ m, n = m + 1 := ⟨n - 1, by omega⟩
        rw [List.all_cons, Bool.and_eq_true] at h
        have later := ih h.2 n (Nat.lt_of_succ_lt_succ enough)
        have here := scanChar_plain h.1 (name ++ '"' :: rest)
        have no_quote : c ≠ '"' := by
          rintro rfl
          exact absurd h.1 (by decide)
        rw [List.cons_append]
        unfold scanString
        split
        · next same => exact absurd (List.cons.inj same).1 no_quote
        · rw [here]
          change (do
            let (s, rest) ← scanString n (name ++ '"' :: rest)
            return (c :: s, rest)) = _
          rw [later]
          rfl
  apply scan
  rw [List.length_append]
  exact Nat.lt_succ_of_le (Nat.le_add_right _ _)

/-- A named text with the value that it is read as. -/
structure Field where
  name : List Char
  text : List Char
  value : Option JsonValue

namespace Field

/-- The name as it is, and the text. -/
def written (f : Field) : List Char := '"' :: (f.name ++ '"' :: ':' :: f.text)

def named (f : Field) : Option (List Char × JsonValue) := f.value.map (f.name, ·)

/-- The name has only plain characters, and the text is read as the value. -/
def Reads (depth : ℕ) (f : Field) : Prop :=
  f.name.all plain = true ∧ JsonReader.Reads depth f.text f.value

end Field

/-- The named values of all fields, if none is refused. -/
def fieldValues (fields : List Field) : Option (List (List Char × JsonValue)) :=
  fields.mapM Field.named

theorem fieldValues_cons (f : Field) (fields : List Field) :
    fieldValues (f :: fields) =
      f.value.bind fun v => (fieldValues fields).map ((f.name, v) :: ·) := by
  rw [fieldValues, List.mapM_cons, fieldValues, Field.named]
  cases f.value with
  | none => rfl
  | some v => cases List.mapM Field.named fields <;> rfl

/-- An object of the fields, as a compact writer prints it. -/
def objectText (fields : List Field) : List Char :=
  '{' :: (JsonText.commas (fields.map Field.written) ++ ['}'])

theorem members_written {depth n : ℕ} (enough : depth ≤ n) {f : Field} {fields : List Field}
    (rest : List Char) (each : ∀ g ∈ f :: fields, g.Reads depth) {k : ℕ}
    (turns : fields.length < k) :
    members (value n) k
        (f.written ++ ((fields.map Field.written).flatMap (',' :: ·) ++ '}' :: rest)) =
      (fieldValues (f :: fields)).map (·, rest) := by
  induction fields generalizing f k with
  | nil =>
      obtain ⟨k, rfl⟩ : ∃ m, k = m + 1 := ⟨k - 1, by omega⟩
      obtain ⟨fine, reads⟩ := each f List.mem_cons_self
      have here := reads.value n enough ('}' :: rest) (stops_cons (by decide) rest)
      have shown := reads.skipWhite_append ('}' :: rest)
      have text : f.written ++ ((([] : List Field).map Field.written).flatMap (',' :: ·) ++
          '}' :: rest) = '"' :: (f.name ++ '"' :: ':' :: (f.text ++ '}' :: rest)) := by
        simp [Field.written]
      have colon : skipWhite (':' :: (f.text ++ '}' :: rest)) = ':' :: (f.text ++ '}' :: rest) :=
        skipWhite_cons rfl _
      rw [text, members]
      simp only [string_plain fine, colon, shown, here, fieldValues_cons, Option.bind_eq_bind,
        Option.bind_some]
      cases f.value <;> rfl
  | cons next fields ih =>
      obtain ⟨k, rfl⟩ : ∃ m, k = m + 1 := ⟨k - 1, by omega⟩
      obtain ⟨fine, reads⟩ := each f List.mem_cons_self
      have later := ih (f := next) (k := k) (fun g member => each g (List.mem_cons_of_mem _ member))
        (Nat.lt_of_succ_lt_succ turns)
      have more : ∃ more, next.written ++ ((fields.map Field.written).flatMap (',' :: ·) ++
          '}' :: rest) = '"' :: more := ⟨_, rfl⟩
      have text : f.written ++ (((next :: fields).map Field.written).flatMap (',' :: ·) ++
          '}' :: rest) = '"' :: (f.name ++ '"' :: ':' :: (f.text ++ ',' :: (next.written ++
            ((fields.map Field.written).flatMap (',' :: ·) ++ '}' :: rest)))) := by
        simp [Field.written]
      obtain ⟨more, begins⟩ := more
      rw [text]
      rw [begins] at later ⊢
      have here := reads.value n enough (',' :: '"' :: more) (stops_comma _)
      have shown := reads.skipWhite_append (',' :: '"' :: more)
      have colon : skipWhite (':' :: (f.text ++ ',' :: '"' :: more)) =
          ':' :: (f.text ++ ',' :: '"' :: more) := skipWhite_cons rfl _
      have comma : skipWhite (',' :: '"' :: more) = ',' :: '"' :: more := skipWhite_cons rfl _
      have quote : skipWhite ('"' :: more) = '"' :: more := skipWhite_cons rfl _
      rw [members]
      simp only [string_plain fine, colon, shown, here, fieldValues_cons f, Option.bind_eq_bind,
        Option.bind_some]
      cases f.value with
      | none => rfl
      | some v =>
          simp only [Option.map_some, Option.bind_some, comma, quote, later]
          cases fieldValues (next :: fields) <;> rfl

/-- No name comes twice, so every field stays where it is. -/
theorem dictOf_nodup {fields : List (List Char × JsonValue)} (apart : (fields.map Prod.fst).Nodup) :
    dictOf fields = .dict fields := by
  have keeps (before : List (List Char × JsonValue))
      (all : ((before ++ fields).map Prod.fst).Nodup) :
      fields.foldl setField before = before ++ fields := by
    induction fields generalizing before with
    | nil => exact (List.append_nil before).symm
    | cons f fields ih =>
        have fresh : f.1 ∉ before.map Prod.fst := by
          rw [List.map_append, List.map_cons] at all
          exact fun member => (List.nodup_append.1 all).2.2 f.1 member f.1 List.mem_cons_self rfl
        have unset : ¬ (before.any fun g => g.1 = f.1) = true := fun found => by
          obtain ⟨g, member, same⟩ := List.any_eq_true.1 found
          exact fresh (of_decide_eq_true same ▸ List.mem_map_of_mem member)
        have here : setField before f = before ++ [f] := if_neg unset
        have split : before ++ f :: fields = before ++ [f] ++ fields := by
          rw [List.append_assoc, List.singleton_append]
        rw [split] at all ⊢
        rw [List.foldl_cons, here]
        exact ih (List.nodup_cons.1 apart).2 (before ++ [f]) all
  exact congrArg JsonValue.dict (keeps [] apart)

theorem names_of_fieldValues {fields : List Field} {values : List (List Char × JsonValue)}
    (read : fieldValues fields = some values) : values.map Prod.fst = fields.map Field.name := by
  induction fields generalizing values with
  | nil =>
      cases read
      rfl
  | cons f fields ih =>
      rw [fieldValues_cons] at read
      obtain ⟨v, -, read⟩ := Option.bind_eq_some_iff.1 read
      obtain ⟨later, rest_read, rfl⟩ := Option.map_eq_some_iff.1 read
      rw [List.map_cons, List.map_cons, ih rest_read]

theorem reads_dict {depth : ℕ} {fields : List Field} (each : ∀ f ∈ fields, f.Reads depth)
    (apart : (fields.map Field.name).Nodup) :
    Reads (depth + 1) (objectText fields) ((fieldValues fields).map .dict) := by
  refine ⟨⟨'{', _, rfl, rfl, by decide, by decide⟩, fun n enough rest _ => ?_⟩
  obtain ⟨n, rfl⟩ : ∃ m, n = m + 1 := ⟨n - 1, by omega⟩
  cases fields with
  | nil => rfl
  | cons f fields =>
      have body : objectText (f :: fields) ++ rest = '{' ::
          (f.written ++ ((fields.map Field.written).flatMap (',' :: ·) ++ '}' :: rest)) := by
        rw [objectText, List.map_cons, JsonText.commas_cons]
        simp only [List.cons_append, List.append_assoc, List.nil_append]
      have turns : fields.length < (f.written ++
          ((fields.map Field.written).flatMap (',' :: ·) ++ '}' :: rest)).length + 1 := by
        have tail := length_le_flatMap (fields.map Field.written)
        rw [List.length_map] at tail
        rw [List.length_append, List.length_append]
        omega
      have read := members_written (Nat.le_of_succ_le_succ enough) rest each turns
      have quote : f.written = '"' :: (f.name ++ '"' :: ':' :: f.text) := rfl
      rw [quote, List.cons_append] at read
      rw [body, quote, List.cons_append, value, skipWhite_cons rfl]
      split
      · next rest' same => cases (List.cons.inj same).1
      · rw [read]
        cases values : fieldValues (f :: fields) with
        | none => rfl
        | some vs =>
            have names := names_of_fieldValues values
            simp only [Option.map_some, dictOf_nodup (names.symm ▸ apart)]

/-- A text is read as its value, whatever blanks follow it. -/
theorem Reads.loads_append {depth : ℕ} {text blanks : List Char} {result : Option JsonValue}
    (h : Reads depth text result) (shallow : depth ≤ text.length + 1)
    (blank : skipWhite blanks = []) (stops : Stops blanks) : loads (text ++ blanks) = result := by
  obtain ⟨c, cs, start, visible, -, mark⟩ := h.visible
  have enough : depth ≤ (text ++ blanks).length + 1 := by
    rw [List.length_append]
    omega
  have read := h.value _ enough blanks stops
  have shown : skipWhite (text ++ blanks) = text ++ blanks := by
    rw [start]
    exact skipWhite_cons visible (cs ++ blanks)
  have no_mark : ¬ (text ++ blanks).head? = some '\ufeff' := by
    rw [start]
    exact fun same => mark (Option.some.inj same)
  rw [JsonReader.loads, if_neg no_mark, shown, read]
  cases result with
  | none => rfl
  | some v =>
      change (if skipWhite blanks = [] then some v else none) = some v
      exact if_pos blank

/-- A whole text is read as its value. -/
theorem Reads.loads {depth : ℕ} {text : List Char} {result : Option JsonValue}
    (h : Reads depth text result) (shallow : depth ≤ text.length + 1) : loads text = result := by
  have whole : JsonReader.loads (text ++ []) = result :=
    h.loads_append shallow rfl fun d member => absurd member (Option.not_mem_none d)
  rwa [List.append_nil] at whole

end SmoArchipelago.Library.JsonReader
