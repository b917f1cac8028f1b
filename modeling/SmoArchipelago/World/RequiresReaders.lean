import SmoArchipelago.World.RequiresMeaning

/-! # How the readers settle the item tokens

Both readers put the values of the item tokens in their places: the entrance logic token by
token, the engine one text at a time. What is left is a formula over values, whose meaning
the operator parser finds. -/

namespace SmoArchipelago.World

open Library Library.TextScan
open Bridge (isSpace)

variable {α : Type} {b : Bool}

/-! ## Printed numbers -/

theorem readDigits_of_digits {s : List Char} (digits : ∀ c ∈ s, c.isDigit = true) (acc : ℕ) :
    readDigits acc s = some (Nat.ofDigitChars 10 s acc) := by
  induction s generalizing acc with
  | nil => simp [readDigits]
  | cons c s ih =>
      have here := digits c List.mem_cons_self
      have rest := ih (fun d member => digits d (List.mem_cons_of_mem c member))
        (10 * acc + digitValue c)
      have not_underscore : c ≠ '_' := by
        rintro rfl
        cases here
      rw [readDigits.eq_def]
      split
      · next h => cases h
      · next h =>
          exact absurd (List.cons.inj h).1 not_underscore
      · next h =>
          obtain ⟨rfl, rfl⟩ := List.cons.inj h
          rw [if_pos here, rest, Nat.ofDigitChars_cons]
          rfl

theorem readNat_toDigits (n : ℕ) : readNat (Nat.toDigits 10 n) = some n := by
  have digits : ∀ c ∈ Nat.toDigits 10 n, c.isDigit = true := fun c member =>
    Nat.isDigit_of_mem_toDigits (by decide) (by decide) member
  have value : Nat.ofDigitChars 10 (Nat.toDigits 10 n) 0 = n := Nat.ofDigitChars_ten_toDigits
  cases text : Nat.toDigits 10 n with
  | nil => exact absurd text Nat.toDigits_ne_nil
  | cons c s =>
      rw [text] at digits value
      rw [readNat, if_pos (digits c List.mem_cons_self),
        readDigits_of_digits fun d member => digits d (List.mem_cons_of_mem c member)]
      rw [Nat.ofDigitChars_cons, Nat.mul_zero, Nat.zero_add] at value
      exact congrArg some value

/-- A printed integer is its digits, perhaps behind a sign. -/
theorem toList_toString (n : ℤ) : (toString n).toList =
    (if n < 0 then ['-'] else []) ++ Nat.toDigits 10 n.natAbs := by
  cases n with
  | ofNat n =>
      have positive : ¬ (Int.ofNat n < 0) := by simp
      rw [if_neg positive]
      change (Nat.repr n).toList = _
      rw [Nat.repr, String.toList_ofList]
      rfl
  | negSucc n =>
      rw [if_pos (Int.negSucc_lt_zero n)]
      change ("-" ++ Nat.repr (n + 1)).toList = _
      rw [String.toList_append, Nat.toList_repr]
      rfl

theorem isSpace_of_isDigit {c : Char} (digit : c.isDigit = true) : isSpace c = false := by
  cases space : isSpace c with
  | false => rfl
  | true =>
      rw [isDigit_of_isSpace space] at digit
      cases digit

/-- Nothing is trimmed where no character is to be dropped. -/
theorem trim_of_visible {s : List Char} (visible : ∀ c ∈ s, isSpace c = false) :
    trim isSpace s = s := by
  have front {t : List Char} (visible : ∀ c ∈ t, isSpace c = false) : t.dropWhile isSpace = t :=
    dropWhile_visible fun d first => visible d (List.mem_of_mem_head? first)
  unfold trim
  rw [front visible, front fun c member => visible c (List.mem_reverse.1 member),
    List.reverse_reverse]

theorem toString_digits (n : ℤ) : ∀ c ∈ (toString n).toList, c = '-' ∨ c.isDigit = true := by
  intro c member
  rw [toList_toString] at member
  rcases List.mem_append.1 member with sign | inside
  · split_ifs at sign
    · exact .inl (List.mem_singleton.1 sign)
    · cases sign
  · exact .inr (Nat.isDigit_of_mem_toDigits (by decide) (by decide) inside)

/-- No character but a sign or a digit is printed. -/
theorem toString_ne (n : ℤ) {d : Char} (other : d ≠ '-' ∧ d.isDigit = false) :
    ∀ c ∈ (toString n).toList, c ≠ d := by
  rintro c member rfl
  rcases toString_digits n c member with sign | digit
  · exact other.1 sign
  · rw [digit] at other
    cases other.2

theorem toString_visible (n : ℤ) : ∀ c ∈ (toString n).toList, isSpace c = false := by
  intro c member
  rcases toString_digits n c member with rfl | digit
  · decide
  · exact isSpace_of_isDigit digit

/-- A printed integer is read back. -/
theorem parseInt_toString (n : ℤ) : parseInt (toString n).toList = some n := by
  unfold parseInt
  rw [trim_of_visible fun c member => toString_visible n c member, toList_toString]
  by_cases negative : n < 0
  · rw [if_pos negative]
    have value : -(n.natAbs : ℤ) = n := by omega
    simp only [List.singleton_append, if_pos, readNat_toDigits, Option.map_some, value]
  · rw [if_neg negative, List.nil_append]
    have value : (n.natAbs : ℤ) = n := by omega
    have read := readNat_toDigits n.natAbs
    have digits : ∀ c ∈ Nat.toDigits 10 n.natAbs, c.isDigit = true := fun c member =>
      Nat.isDigit_of_mem_toDigits (by decide) (by decide) member
    cases text : Nat.toDigits 10 n.natAbs with
    | nil => exact absurd text Nat.toDigits_ne_nil
    | cons c s =>
        rw [text] at digits read
        have here := digits c List.mem_cons_self
        have unsigned : c ≠ '-' ∧ c ≠ '+' := by
          constructor <;> rintro rfl <;> cases here
        simp [unsigned, read, value]

/-! ## Texts of formulas -/

theorem text_bind {α' : Type} (write : α → List Char) (g : α' → Requires α true)
    (e : Requires α' b) :
    Requires.text write (e.bind g) =
      e.lexemes.flatMap fun x =>
        (x.bind fun a => (g a).lexemes).flatMap (writeLexeme write) := by
  unfold Requires.text
  rw [Formula.lexemes_bind, List.flatMap_assoc]

theorem text_map {α' : Type} (write : α → List Char) (f : α' → α) (e : Requires α' b) :
    Requires.text write (e.map f) =
      e.lexemes.flatMap fun x => writeLexeme write (x.map f) := by
  unfold Requires.text
  rw [Formula.lexemes_map, List.flatMap_map]

/-- The characters of a lexeme, apart from its atom: white space, parentheses, the letters
of a word. -/
theorem writeLexeme_chars (write : α → List Char) {x : Lexeme α Connective Blank Written}
    (bare : ∀ a, x ≠ .atom a) :
    ∀ c ∈ writeLexeme write x, isSpace c = true ∨ c = '(' ∨ c = ')' ∨
      ∃ o : Connective, c.toLower ∈ o.word := by
  intro c member
  cases x with
  | atom a => exact absurd rfl (bare a)
  | opening pad =>
      rcases List.mem_cons.1 member with rfl | inside
      · exact .inr (.inl rfl)
      · exact .inl (pad.blank c inside)
  | closing pad =>
      rcases List.mem_append.1 member with inside | last
      · exact .inl (pad.blank c inside)
      · exact .inr (.inr (.inl (List.mem_singleton.1 last)))
  | op o w =>
      simp only [writeLexeme, List.mem_append, List.mem_cons] at member
      rcases member with inside | rfl | letter | rfl | inside
      · exact .inl (w.before.blank c inside)
      · exact .inl w.left_space
      · exact .inr (.inr (.inr ⟨o, (w.visible c letter).2⟩))
      · exact .inl w.right_space
      · exact .inl (w.after.blank c inside)

/-- No lexeme but an atom writes a bar, a brace or an at sign. -/
theorem writeLexeme_ne (write : α → List Char) {x : Lexeme α Connective Blank Written}
    (bare : ∀ a, x ≠ .atom a) {c : Char} (member : c ∈ writeLexeme write x) :
    c ≠ '|' ∧ c ≠ '{' := by
  have letters : ∀ o : Connective, '|' ∉ o.word ∧ '{' ∉ o.word := by
    intro o
    cases o <;> decide
  rcases writeLexeme_chars write bare c member with space | rfl | rfl | ⟨o, letter⟩
  · exact ⟨isSpace_ne space (by decide), isSpace_ne space (by decide)⟩
  · decide
  · decide
  · constructor <;> rintro rfl
    · exact (letters o).1 letter
    · exact (letters o).2 letter

theorem digit_ne (value : Bool) : digit value ≠ '|' ∧ digit value ≠ '{' := by
  cases value <;> decide

/-- Behind an atom stands nothing, white space or a closing parenthesis. -/
theorem closes_of_atom (write : α → List Char) {e : Requires α b} {a : α}
    {l : List (Lexeme α Connective Blank Written)} (suffix : .atom a :: l <:+ e.lexemes) :
    ∀ d ∈ (l.flatMap (writeLexeme write)).head?, isSpace d = true ∨ d = ')' := by
  intro d first
  cases l with
  | nil => cases first
  | cons y l =>
      have closed := (Formula.adjacent_of_suffix suffix).1 trivial
      cases y with
      | opening pad => exact absurd trivial closed
      | atom a' => exact absurd trivial closed
      | closing pad =>
          cases chars : pad.chars with
          | nil =>
              simp only [List.flatMap_cons, writeLexeme, chars] at first
              exact .inr (Option.some.inj first).symm
          | cons c cs =>
              simp only [List.flatMap_cons, writeLexeme, chars] at first
              obtain rfl : c = d := Option.some.inj first
              exact .inl (pad.blank c (by rw [chars]; exact List.mem_cons_self))
      | op o w =>
          cases chars : w.before.chars with
          | nil =>
              simp only [List.flatMap_cons, writeLexeme, chars] at first
              obtain rfl : w.left = d := Option.some.inj first
              exact .inl w.left_space
          | cons c cs =>
              simp only [List.flatMap_cons, writeLexeme, chars] at first
              obtain rfl : c = d := Option.some.inj first
              exact .inl (w.before.blank c (by rw [chars]; exact List.mem_cons_self))

/-! ## Item tokens -/

namespace ItemToken

variable (t : ItemToken)

theorem body_ne_nil : t.body ≠ [] := by
  unfold body
  cases t.count with
  | none => exact t.named
  | some n => simp

theorem body_ne_bar : ∀ c ∈ t.body, c ≠ '|' := by
  intro c member
  unfold body at member
  cases count : t.count with
  | none =>
      rw [count] at member
      exact (t.whole c member).1
  | some n =>
      rw [count] at member
      rcases List.mem_append.1 member with inside | inside
      · exact (t.whole c inside).1
      · rcases List.mem_cons.1 inside with rfl | digits
        · decide
        · exact toString_ne n (by decide) c digits

end ItemToken

theorem itemPattern_of_ne {c : Char} (other : c ≠ '|') (prev : Option Char) (s : List Char) :
    itemPattern prev (c :: s) = none := by
  simp [itemPattern, other]

/-- Whatever stands between two bars is found. -/
theorem itemPattern_bars {body : List Char} (nonempty : body ≠ []) (whole : ∀ c ∈ body, c ≠ '|')
    (prev : Option Char) (s : List Char) :
    itemPattern prev ('|' :: (body ++ '|' :: s)) = some (body.length + 2) := by
  have bars : ∀ c ∈ body, (decide (c ≠ '|')) = true := by
    intro c member
    simpa using whole c member
  have inside : (body ++ '|' :: s).takeWhile (· ≠ '|') = body := by
    rw [List.takeWhile_append_of_pos bars, List.takeWhile_cons_of_neg (by decide), List.append_nil]
  have behind : (body ++ '|' :: s).dropWhile (· ≠ '|') = '|' :: s := by
    rw [List.dropWhile_append_of_pos bars, List.dropWhile_cons_of_neg (by decide)]
  simp only [itemPattern, inside, behind]
  simp [nonempty]

theorem itemPattern_text (t : ItemToken) (prev : Option Char) (s : List Char) :
    itemPattern prev (t.text ++ s) = some t.text.length := by
  have text : t.text ++ s = '|' :: (t.body ++ '|' :: s) := by simp [ItemToken.text]
  rw [text, itemPattern_bars t.body_ne_nil t.body_ne_bar]
  simp [ItemToken.text]

/-- The pieces of a lexeme over leaves for the item pattern. -/
def itemPieces : Lexeme Leaf Connective Blank Written → List Piece
  | .atom (.item t) => [.hit t.text]
  | x => (writeLexeme Leaf.text x).map .plain

theorem reads_items (x : Lexeme Leaf Connective Blank Written)
    (s : List Char) : Reads itemPattern (writeLexeme Leaf.text x) (itemPieces x) s := by
  have plain (bare : ∀ c ∈ writeLexeme Leaf.text x, c ≠ '|') :
      Reads itemPattern (writeLexeme Leaf.text x) ((writeLexeme Leaf.text x).map .plain) s := by
    apply reads_plain
    intro v nonempty suffix prev
    obtain ⟨c, v, rfl⟩ := List.exists_cons_of_ne_nil nonempty
    exact itemPattern_of_ne (bare c (suffix.subset List.mem_cons_self)) prev _
  cases x with
  | opening pad => exact plain fun c member => (writeLexeme_ne _ (by simp) member).1
  | closing pad => exact plain fun c member => (writeLexeme_ne _ (by simp) member).1
  | op o w => exact plain fun c member => (writeLexeme_ne _ (by simp) member).1
  | atom l =>
      cases l with
      | item t =>
          exact reads_hit (List.cons_ne_nil _ _) fun prev => itemPattern_text t prev s
      | lit value =>
          refine plain fun c member => ?_
          rw [List.mem_singleton.1 member]
          exact (digit_ne value).1

theorem splitOn_of_ne {sep : Char} {s : List Char} (whole : ∀ c ∈ s, c ≠ sep) :
    s.splitOn sep = [s] := by
  apply List.splitOnP_eq_singleton
  intro c member
  simpa using whole c member

theorem splitOn_append {sep : Char} {s rest : List Char} (whole : ∀ c ∈ s, c ≠ sep)
    (whole' : ∀ c ∈ rest, c ≠ sep) : (s ++ sep :: rest).splitOn sep = [s, rest] := by
  have first : (s ++ sep :: rest).splitOn sep = s :: rest.splitOn sep := by
    apply List.splitOnP_append_cons_of_forall_mem
    · intro c member
      simpa using whole c member
    · simp
  rw [first, splitOn_of_ne whole']

/-- The entrance logic reads a token by its name and count. -/
theorem interiorToken_text (held : String → ℕ) (t : ItemToken) :
    interiorToken held t.text = some [digit (t.holds held)] := by
  have inside : t.text.tail.dropLast = t.body := by simp [ItemToken.text]
  have name : ∀ c ∈ t.name, c ≠ ':' := fun c member => (t.whole c member).2
  unfold interiorToken
  rw [inside]
  unfold ItemToken.body ItemToken.holds
  cases t.count with
  | none => simp [splitOn_of_ne name, t.stripped]
  | some n =>
      have digits : ∀ c ∈ (toString n).toList, c ≠ ':' := toString_ne n (by decide)
      have trimmed : trim isSpace (toString n).toList = (toString n).toList :=
        trim_of_visible fun c member => toString_visible n c member
      simp only [splitOn_append name digits, List.headD_cons, List.getElem?_cons_succ,
        List.getElem?_cons_zero, Option.map_some, Option.getD_some, trimmed, parseInt_toString,
        t.stripped]

/-- What the pieces of a lexeme become. -/
def interiorParts (held : String → ℕ) : Lexeme Leaf Connective Blank Written → List (List Char)
  | .atom (.item t) => [[digit (t.holds held)]]
  | x => (writeLexeme Leaf.text x).map fun c => [c]

theorem mapM_flatMap {ι β γ : Type} {f : β → Option γ} {g : ι → List β} {h : ι → List γ}
    (each : ∀ i, (g i).mapM f = some (h i)) (l : List ι) :
    (l.flatMap g).mapM f = some (l.flatMap h) := by
  induction l with
  | nil => rfl
  | cons i l ih => simp [List.flatMap_cons, List.mapM_append, each, ih]

theorem mapM_plain (held : String → ℕ) (u : List Char) :
    (u.map Piece.plain).mapM (interiorPiece held) = some (u.map fun c => [c]) := by
  induction u with
  | nil => rfl
  | cons c u ih => simp [interiorPiece, ih]

theorem mapM_itemPieces (held : String → ℕ) (x : Lexeme Leaf Connective Blank Written) :
    (itemPieces x).mapM (interiorPiece held) = some (interiorParts held x) := by
  cases x with
  | opening pad => exact mapM_plain held _
  | closing pad => exact mapM_plain held _
  | op o w => exact mapM_plain held _
  | atom l =>
      cases l with
      | item t => simp [itemPieces, interiorPiece, interiorToken_text, interiorParts]
      | lit value => exact mapM_plain held _

/-- The formula over the values of its leaves. -/
def valued (held : String → ℕ) (e : Requires Leaf b) : Requires Bool b := e.map (Leaf.value held)

theorem meaning_valued (held : String → ℕ) (e : Requires Leaf b) :
    (valued held e).meaning Connective.apply id = e.meaning Connective.apply (Leaf.value held) :=
  Formula.meaning_bind _ _ _ e

theorem text_valued (held : String → ℕ) (e : Requires Leaf b) :
    (valued held e).lexemes.flatMap (writeValues inWords) =
      e.lexemes.flatMap fun x => writeValues inWords (x.map (Leaf.value held)) := by
  unfold valued
  rw [Formula.lexemes_map, List.flatMap_map]

theorem flatMap_singletons (u : List Char) : (u.map fun c => [c]).flatMap id = u := by
  rw [List.flatMap_map]
  exact List.flatMap_singleton' u

/-- The entrance logic hands the values of the items to the parser. -/
theorem interiorText_text (held : String → ℕ) (e : Requires Leaf b) :
    interiorText held (e.text Leaf.text) = some (trim isSpace
      ((valued held e).lexemes.flatMap (writeValues tightly))) := by
  have pieces : scan itemPattern 0 none (e.text Leaf.text) = e.lexemes.flatMap itemPieces :=
    scan_flatMap (fun x rest _ => reads_items x _) none
  have parts : (e.lexemes.flatMap (interiorParts held)).flatten =
      (valued held e).lexemes.flatMap (writeValues inWords) := by
    rw [text_valued, ← List.flatMap_id, List.flatMap_assoc]
    congr 1
    funext x
    cases x with
    | opening pad => exact flatMap_singletons _
    | closing pad => exact flatMap_singletons _
    | op o w => exact flatMap_singletons _
    | atom l =>
        cases l with
        | item t => rfl
        | lit value => rfl
  unfold interiorText
  rw [pieces, mapM_flatMap (mapM_itemPieces held), Option.map_some, parts, tightText]

theorem filter_dropWhile (s : List Char) :
    (s.dropWhile isSpace).filter (fun c => !isSpace c) = s.filter fun c => !isSpace c := by
  induction s with
  | nil => rfl
  | cons c s ih =>
      cases space : isSpace c with
      | true => simp [space, ih]
      | false => rw [List.dropWhile_cons_of_neg (by simp [space])]

/-- Trimming makes no difference to the parser. -/
theorem evaluateInfix_trim (s : List Char) : evaluateInfix (trim isSpace s) = evaluateInfix s := by
  have same : (trim isSpace s).filter (fun c => !isSpace c) = s.filter fun c => !isSpace c := by
    unfold trim
    rw [List.filter_reverse, filter_dropWhile, ← List.filter_reverse, List.reverse_reverse,
      filter_dropWhile]
  rw [evaluateInfix_visible, same, ← evaluateInfix_visible]

theorem text_ne_nil {write : α → List Char} (nonempty : ∀ a, write a ≠ []) (e : Requires α b) :
    e.text write ≠ [] := by
  obtain ⟨⟨x, l, front, begins⟩, -⟩ := e.lexemes_row
  unfold Requires.text
  rw [front, List.flatMap_cons]
  apply List.append_ne_nil_of_left_ne_nil
  cases x with
  | opening pad => exact List.cons_ne_nil _ _
  | closing pad => exact begins.elim
  | atom a => exact nonempty a
  | op o w => exact begins.elim

theorem Leaf.text_ne_nil (l : Leaf) : l.text ≠ [] := by
  cases l <;> exact List.cons_ne_nil _ _

/-- The text that the entrance logic hands to the parser is not empty, and parses. -/
theorem interiorText_parses (held : String → ℕ) (e : Requires Leaf b) :
    ∃ text, interiorText held (e.text Leaf.text) = some text ∧ text ≠ [] ∧
      evaluateInfix text = some (e.meaning Connective.apply (Leaf.value held)) := by
  have parsed : evaluateInfix (trim isSpace ((valued held e).lexemes.flatMap (writeValues tightly))) =
      some (e.meaning Connective.apply (Leaf.value held)) := by
    rw [evaluateInfix_trim, evaluateInfix_tightly, meaning_valued]
  refine ⟨_, interiorText_text held e, ?_, parsed⟩
  intro empty
  rw [empty] at parsed
  cases parsed

/-- The entrance logic gives a formula its meaning. -/
theorem evaluateInteriorRequires_text (held : String → ℕ) (e : Requires Leaf b) :
    evaluateInteriorRequires held (e.text Leaf.text) =
      some (e.meaning Connective.apply (Leaf.value held)) := by
  obtain ⟨text, handed, nonempty, parsed⟩ := interiorText_parses held e
  unfold evaluateInteriorRequires
  rw [if_neg (text_ne_nil Leaf.text_ne_nil e), handed, Option.map_some, if_neg nonempty, parsed,
    Option.getD_some]

/-! ## The engine's replacements -/

/-- The leaf where the tokens of one text stand for a value. -/
def Leaf.put (u : List Char) (value : Bool) : Leaf → Leaf
  | item t => if t.text = u then lit value else item t
  | lit w => lit w

theorem literal_of_ne {c d : Char} {u : List Char} (other : d ≠ c) (prev : Option Char)
    (s : List Char) : literal (c :: u) prev (d :: s) = none := by
  simp [literal, Ne.symm other]

theorem literal_text (u : List Char) (prev : Option Char) (s : List Char) :
    literal u prev (u ++ s) = some u.length := by
  simp [literal]

theorem isPrefix_of_body {u v s : List Char} (bars : ∀ c ∈ u, c ≠ '|') (bars' : ∀ c ∈ v, c ≠ '|')
    (begins : u ++ ['|'] <+: v ++ '|' :: s) : u = v := by
  have first (w : List Char) (bars : ∀ c ∈ w, c ≠ '|') (r : List Char) :
      (w ++ '|' :: r).takeWhile (· ≠ '|') = w := by
    rw [List.takeWhile_append_of_pos (by simpa using bars), List.takeWhile_cons_of_neg (by decide),
      List.append_nil]
  obtain ⟨r, whole⟩ := begins
  rw [List.append_assoc, List.singleton_append] at whole
  calc u = (u ++ '|' :: r).takeWhile (· ≠ '|') := (first u bars r).symm
    _ = (v ++ '|' :: s).takeWhile (· ≠ '|') := by rw [whole]
    _ = v := first v bars' s

theorem ItemToken.head_body (t : ItemToken) : t.body.head? = t.name.head? := by
  obtain ⟨c, cs, name⟩ := List.exists_cons_of_ne_nil t.named
  unfold body
  cases t.count <;> simp [name]

/-- The second bar of a token is its last character. -/
theorem ItemToken.nothing_behind (t : ItemToken) {v : List Char}
    (suffix : '|' :: v <:+ t.body ++ ['|']) : v = [] := by
  rcases List.eq_nil_or_concat v with rfl | ⟨w, z, rfl⟩
  · rfl
  · obtain ⟨p, whole⟩ := suffix
    rw [List.concat_eq_append, ← List.cons_append, ← List.append_assoc] at whole
    obtain ⟨body, -⟩ := List.append_inj' whole rfl
    exact absurd rfl (t.body_ne_bar '|' (by rw [← body]; simp))

/-- A trimmed text begins with a visible character. -/
theorem head_of_trim {s : List Char} (trimmed : trim isSpace s = s) :
    ∀ d ∈ s.head?, isSpace d = false := by
  intro d first
  cases space : isSpace d with
  | false => rfl
  | true =>
      obtain ⟨cs, rfl⟩ := List.head?_eq_some_iff.1 first
      have shorter : (trim isSpace (d :: cs)).length ≤ cs.length := by
        unfold trim
        rw [List.dropWhile_cons_of_pos space, List.length_reverse]
        calc ((cs.dropWhile isSpace).reverse.dropWhile isSpace).length
            ≤ (cs.dropWhile isSpace).reverse.length := (List.dropWhile_sublist _).length_le
          _ = (cs.dropWhile isSpace).length := List.length_reverse
          _ ≤ cs.length := (List.dropWhile_sublist _).length_le
      rw [trimmed, List.length_cons] at shorter
      omega

/-- Nothing is trimmed between two visible ends. -/
theorem trim_of_ends {s : List Char} (first : ∀ d ∈ s.head?, isSpace d = false)
    (last : ∀ d ∈ s.getLast?, isSpace d = false) : trim isSpace s = s := by
  have back : ∀ d ∈ s.reverse.head?, isSpace d = false := by
    intro d here
    exact last d (by rwa [List.head?_reverse] at here)
  unfold trim
  rw [dropWhile_visible first, dropWhile_visible back, List.reverse_reverse]

theorem ItemToken.head_visible (t : ItemToken) : ∀ d ∈ t.body.head?, isSpace d = false := by
  rw [t.head_body]
  exact head_of_trim t.stripped

/-- The pieces of a lexeme for the text of one token. -/
def literalPieces (u : List Char) : Lexeme Leaf Connective Blank Written → List Piece
  | .atom (.item t) => if t.text = u then [.hit u] else t.text.map .plain
  | x => (writeLexeme Leaf.text x).map .plain

/-- The text of a tame token occurs in a formula only where the formula has that token. -/
theorem reads_literal {t : ItemToken} (tame : t.Tame) {e : Requires Leaf b}
    {x : Lexeme Leaf Connective Blank Written} {l : List (Lexeme Leaf Connective Blank Written)}
    (suffix : x :: l <:+ e.lexemes) :
    Reads (literal t.text) (writeLexeme Leaf.text x) (literalPieces t.text x)
      (l.flatMap (writeLexeme Leaf.text)) := by
  have plain (bare : ∀ c ∈ writeLexeme Leaf.text x, c ≠ '|') :
      Reads (literal t.text) (writeLexeme Leaf.text x) ((writeLexeme Leaf.text x).map .plain)
        (l.flatMap (writeLexeme Leaf.text)) := by
    apply reads_plain
    intro v nonempty suffix prev
    obtain ⟨c, v, rfl⟩ := List.exists_cons_of_ne_nil nonempty
    exact literal_of_ne (bare c (suffix.subset List.mem_cons_self)) prev _
  cases x with
  | opening pad => exact plain fun c member => (writeLexeme_ne _ (by simp) member).1
  | closing pad => exact plain fun c member => (writeLexeme_ne _ (by simp) member).1
  | op o w => exact plain fun c member => (writeLexeme_ne _ (by simp) member).1
  | atom leaf =>
      cases leaf with
      | lit value =>
          refine plain fun c member => ?_
          rw [List.mem_singleton.1 member]
          exact (digit_ne value).1
      | item t' =>
          by_cases same : t'.text = t.text
          · simp only [literalPieces, if_pos same]
            change Reads (literal t.text) t'.text [.hit t.text] _
            rw [same]
            exact reads_hit (List.cons_ne_nil _ _) fun prev => literal_text t.text prev _
          · simp only [literalPieces, if_neg same]
            apply reads_plain
            intro v nonempty inside prev
            obtain ⟨c, v, rfl⟩ := List.exists_cons_of_ne_nil nonempty
            by_cases bar : c = '|'
            swap
            · exact literal_of_ne bar prev _
            subst bar
            have not_begins : ¬ t.text <+: '|' :: (v ++ l.flatMap (writeLexeme Leaf.text)) := by
              intro begins
              have begins : t.body ++ ['|'] <+: v ++ l.flatMap (writeLexeme Leaf.text) :=
                (List.cons_prefix_cons.1 begins).2
              rcases List.suffix_cons_iff.1 inside with whole | later
              · -- the bar opens the other token: the bodies agree
                obtain rfl : v = t'.body ++ ['|'] := (List.cons.inj whole).2
                rw [List.append_assoc, List.singleton_append] at begins
                have bodies := isPrefix_of_body t.body_ne_bar t'.body_ne_bar begins
                exact same (by rw [ItemToken.text, ItemToken.text, bodies])
              · -- the bar closes the other token: the name would begin behind it
                obtain rfl := t'.nothing_behind later
                rw [List.nil_append] at begins
                obtain ⟨d, ds, body⟩ := List.exists_cons_of_ne_nil t.body_ne_nil
                have first : d ∈ (l.flatMap (writeLexeme Leaf.text)).head? := by
                  obtain ⟨r, rest⟩ := begins
                  rw [body] at rest
                  rw [← rest]
                  rfl
                have name : d ∈ t.body.head? := by rw [body]; rfl
                rcases closes_of_atom _ suffix d first with space | rfl
                · rw [t.head_visible d name] at space
                  cases space
                · rw [t.head_body] at name
                  exact tame.opening name
            simp [literal, not_begins]

/-- Replacing the text of a token replaces that token. -/
theorem replaceAll_text {t : ItemToken} (tame : t.Tame) (value : Bool) (e : Requires Leaf b) :
    replaceAll t.text [digit value] (e.text Leaf.text) =
      Requires.text Leaf.text (e.map (Leaf.put t.text value)) := by
  rw [text_map]
  refine (substitute_flatMap (fun x l suffix => reads_literal tame suffix) _).trans ?_
  congr 1
  funext x
  cases x with
  | opening pad => exact replace_plain _ _
  | closing pad => exact replace_plain _ _
  | op o w => exact replace_plain _ _
  | atom leaf =>
      cases leaf with
      | lit w => exact replace_plain _ _
      | item t' =>
          by_cases same : t'.text = t.text
          · simp [literalPieces, same, Lexeme.map, Leaf.put, writeLexeme, Leaf.text, Piece.replace]
          · simp only [literalPieces, if_neg same, Lexeme.map, Leaf.put]
            exact replace_plain _ _

/-- Tokens of one text are worth the same. -/
theorem holds_of_text {t t' : ItemToken} (held : String → ℕ) (same : t'.text = t.text) :
    t'.holds held = t.holds held := by
  have here := interiorToken_text held t
  rw [← same, interiorToken_text held t'] at here
  have digits : digit (t'.holds held) = digit (t.holds held) := by simpa using here
  revert digits
  cases t'.holds held <;> cases t.holds held <;> decide

theorem tokenBody_text {t : ItemToken} (tame : t.Tame) : tokenBody t.text = t.body := by
  obtain ⟨c, cs, name⟩ := List.exists_cons_of_ne_nil t.named
  have inside : c ∈ t.name := by rw [name]; exact List.mem_cons_self
  have first : t.body.head? = some c := by rw [t.head_body, name]; rfl
  have front : (t.body ++ ['|']).dropWhile (fun c => c = '|' || c = '@' || c = '$') =
      t.body ++ ['|'] := by
    obtain ⟨ds, body⟩ := List.head?_eq_some_iff.1 first
    rw [body, List.cons_append, List.dropWhile_cons_of_neg]
    simp [(t.whole c inside).1, (tame.ordinary c inside).1, (tame.ordinary c inside).2.1]
  have back : t.body.reverse.dropWhile (fun c => decide (c = '|')) = t.body.reverse := by
    cases reversed : t.body.reverse with
    | nil => rfl
    | cons d ds =>
        have last : d ∈ t.body := by
          rw [← List.mem_reverse, reversed]
          exact List.mem_cons_self
        exact List.dropWhile_cons_of_neg (by simp [t.body_ne_bar d last])
  have text : tokenBody t.text =
      (((t.body ++ ['|']).dropWhile fun c => c = '|' || c = '@' || c = '$').reverse.dropWhile
        fun c => decide (c = '|')).reverse := rfl
  rw [text, front, List.reverse_append, List.reverse_singleton, List.singleton_append,
    List.dropWhile_cons_of_pos (by simp), back, List.reverse_reverse]

theorem tokenParts_body (t : ItemToken) :
    tokenParts t.body = (t.name, (toString (t.count.getD 1)).toList) := by
  have name : ∀ c ∈ t.name, c ≠ ':' := fun c member => (t.whole c member).2
  unfold tokenParts ItemToken.body
  cases t.count with
  | none =>
      simp only [splitOn_of_ne name, Option.getD_none]
      rfl
  | some n =>
      have digits : ∀ c ∈ (toString n).toList, c ≠ ':' := toString_ne n (by decide)
      have trimmed : trim isSpace (toString n).toList = (toString n).toList :=
        trim_of_visible fun c member => toString_visible n c member
      simp only [splitOn_append name digits, t.stripped, trimmed, Option.getD_some]

/-- A printed number is no special count. -/
theorem tokenCount_toString (env : Setup) (n : ℤ) (current : ℕ) :
    env.tokenCount (toString n).toList current = some n := by
  have printed := toString_digits n
  have lower : ∀ c, c = '-' ∨ c.isDigit = true → c.toLower = c := by
    rintro c (rfl | digit)
    · decide
    · have small : ¬ c.isUpper := by
        simp only [Char.isUpper, Char.isDigit, Bool.and_eq_true, decide_eq_true_eq, ge_iff_le,
          UInt32.le_iff_toNat_le, not_and, not_le] at digit ⊢
        have bounds : 'A'.val.toNat = 65 ∧ '9'.val.toNat = 57 := by decide
        omega
      exact Char.toLower_eq_of_not_isUpper small
  have not_word (word : List Char) (letter : Char) (member : letter ∈ word)
      (alphabetic : letter ≠ '-' ∧ letter.isDigit = false) :
      (toString n).toList.map Char.toLower ≠ word := by
    intro same
    rw [← same] at member
    obtain ⟨c, inside, rfl⟩ := List.mem_map.1 member
    rw [lower c (printed c inside)] at alphabetic
    rcases printed c inside with dash | digit
    · exact alphabetic.1 dash
    · rw [digit] at alphabetic
      cases alphabetic.2
  have not_percent : (toString n).toList.getLast? ≠ some '%' := by
    intro last
    exact toString_ne n (by decide) '%' (List.mem_of_getLast? last) rfl
  unfold Setup.tokenCount
  rw [if_neg (not_word _ 'a' (by decide) (by decide)),
    if_neg (not_word _ 'h' (by decide) (by decide)), if_neg fun h => not_percent h.1,
    parseInt_toString]

theorem not_category {t : ItemToken} (tame : t.Tame) : ['|', '@'].isPrefixOf t.text = false := by
  obtain ⟨c, cs, name⟩ := List.exists_cons_of_ne_nil t.named
  have first : t.body.head? = some c := by rw [t.head_body, name]; rfl
  obtain ⟨ds, body⟩ := List.head?_eq_some_iff.1 first
  have other := (tame.ordinary c (by rw [name]; exact List.mem_cons_self)).1
  simp [ItemToken.text, body, List.isPrefixOf, Ne.symm other]

/-- No token of that text is left behind a replacement. -/
theorem put_put (u : List Char) (value value' : Bool) (e : Requires Leaf b) :
    (e.map (Leaf.put u value)).map (Leaf.put u value') = e.map (Leaf.put u value) := by
  unfold Formula.map
  rw [Formula.bind_bind]
  congr 1
  funext l
  cases l with
  | lit w => rfl
  | item t =>
      by_cases same : t.text = u
      · simp [Leaf.put, same, Formula.bind]
      · simp [Leaf.put, same, Formula.bind]

/-- The engine replaces a token by its value. -/
theorem replaceItem_text (env : Setup) (held : String → ℕ) {t : ItemToken} (tame : t.Tame)
    (e : Requires Leaf b) : env.replaceItem held (e.text Leaf.text) t.text =
      some (Requires.text Leaf.text (e.map (Leaf.put t.text (t.holds held)))) := by
  have one := replaceAll_text tame true e
  have zero := replaceAll_text tame false e
  have again := replaceAll_text tame false (e.map (Leaf.put t.text true))
  rw [put_put] at again
  unfold Setup.replaceItem
  rw [tokenBody_text tame, tokenParts_body, not_category tame]
  simp only [Bool.false_eq_true, if_false, tokenCount_toString, Option.map_some]
  congr 1
  by_cases enough : t.count.getD 1 ≤ held (String.ofList t.name)
  · have holds : t.holds held = true := decide_eq_true enough
    rw [if_pos enough, holds]
    split_ifs
    · exact (congrArg _ one).trans again
    · exact one
  · have holds : t.holds held = false := decide_eq_false enough
    rw [if_neg enough, holds, if_pos (by omega)]
    exact zero

def tokensOf : Lexeme Leaf Connective Blank Written → List ItemToken
  | .atom (.item t) => [t]
  | _ => []

/-- The engine finds the tokens of a formula. -/
theorem findAll_items (e : Requires Leaf b) :
    findAll itemPattern (e.text Leaf.text) = (e.lexemes.flatMap tokensOf).map ItemToken.text := by
  have pieces : scan itemPattern 0 none (e.text Leaf.text) = e.lexemes.flatMap itemPieces :=
    scan_flatMap (fun x rest _ => reads_items x _) none
  unfold findAll
  rw [pieces, List.filterMap_flatMap, List.map_flatMap]
  congr 1
  funext x
  cases x with
  | opening pad => exact hits_plain _
  | closing pad => exact hits_plain _
  | op o w => exact hits_plain _
  | atom l =>
      cases l with
      | item t => rfl
      | lit value => exact hits_plain _

theorem mem_tokens {e : Requires Leaf b} {t : ItemToken} :
    t ∈ e.lexemes.flatMap tokensOf ↔ .item t ∈ e.atoms := by
  rw [Formula.mem_atoms, List.mem_flatMap]
  constructor
  · rintro ⟨x, member, here⟩
    cases x with
    | atom l =>
        cases l with
        | item t' =>
            rw [List.mem_singleton.1 here]
            exact member
        | lit value => cases here
    | opening pad => cases here
    | closing pad => cases here
    | op o w => cases here
  · intro member
    exact ⟨_, member, List.mem_cons_self⟩

/-- The formula with each item settled. -/
def settled (held : String → ℕ) (e : Requires Leaf b) : Requires Leaf b :=
  e.map fun l => .lit (l.value held)

theorem settled_put (held : String → ℕ) (t : ItemToken) (e : Requires Leaf b) :
    settled held (e.map (Leaf.put t.text (t.holds held))) = settled held e := by
  unfold settled Formula.map
  rw [Formula.bind_bind]
  congr 1
  funext l
  cases l with
  | lit w => rfl
  | item t' =>
      by_cases same : t'.text = t.text
      · simp [Leaf.put, same, Formula.bind, Leaf.value, holds_of_text held same]
      · simp [Leaf.put, same, Formula.bind]

theorem mem_atoms_map {α' : Type} {f : α → α'} {e : Requires α b} {a : α'} :
    a ∈ (e.map f).atoms ↔ ∃ a' ∈ e.atoms, f a' = a := by
  unfold Formula.map
  rw [Formula.atoms_bind, List.mem_flatMap]
  constructor
  · rintro ⟨a', member, here⟩
    exact ⟨a', member, (List.mem_singleton.1 here).symm⟩
  · rintro ⟨a', member, rfl⟩
    exact ⟨a', member, List.mem_cons_self⟩

/-- The engine settles the tokens one after the other. -/
theorem foldlM_replaceItem (env : Setup) (held : String → ℕ) {ts : List ItemToken}
    (tame : ∀ t ∈ ts, t.Tame) (e : Requires Leaf b) (all : ∀ t, .item t ∈ e.atoms → t ∈ ts) :
    (ts.map ItemToken.text).foldlM (env.replaceItem held) (e.text Leaf.text) =
      some (Requires.text Leaf.text (settled held e)) := by
  induction ts generalizing e with
  | nil =>
      have done : settled held e = e := by
        refine (Formula.bind_congr ?_).trans (Formula.bind_atom e)
        intro l member
        cases l with
        | lit value => rfl
        | item t => cases all t member
      rw [done]
      rfl
  | cons t ts ih =>
      have rest : ∀ t', .item t' ∈ (e.map (Leaf.put t.text (t.holds held))).atoms → t' ∈ ts := by
        intro t' member
        obtain ⟨l, inside, put⟩ := mem_atoms_map.1 member
        cases l with
        | lit value => cases put
        | item t'' =>
            simp only [Leaf.put] at put
            split_ifs at put with same
            cases put
            rcases List.mem_cons.1 (all t' inside) with rfl | later
            · exact absurd rfl same
            · exact later
      have later := ih (fun t' member => tame t' (List.mem_cons_of_mem t member)) _ rest
      rw [settled_put] at later
      rw [List.map_cons, List.foldlM_cons, replaceItem_text env held (tame t List.mem_cons_self)]
      exact later

theorem text_settled (held : String → ℕ) (e : Requires Leaf b) :
    Requires.text Leaf.text (settled held e) =
      (valued held e).lexemes.flatMap (writeValues inWords) := by
  unfold settled
  rw [text_map, text_valued]
  congr 1
  funext x
  cases x <;> rfl

/-- What the engine does once the calls are spliced. -/
theorem engine_items (env : Setup) (held : String → ℕ) {e : Requires Leaf b}
    (tame : ∀ t, .item t ∈ e.atoms → t.Tame) :
    ((findAll itemPattern (e.text Leaf.text)).foldlM (env.replaceItem held)
        (e.text Leaf.text)).bind (fun counted =>
      evaluateInfix (substitute (looseWord "or".toList) (fun _ => ['|'])
        (substitute (looseWord "and".toList) (fun _ => ['&']) counted))) =
      some (e.meaning Connective.apply (Leaf.value held)) := by
  rw [findAll_items, foldlM_replaceItem env held (fun t member => tame t (mem_tokens.1 member)) e
    (fun t member => mem_tokens.2 member), Option.bind_some, text_settled, looseText,
    evaluateInfix_loosely, meaning_valued]

/-! ## Joined formulas -/

/-- A word with one blank on each side. -/
def Connective.written (o : Connective) (chars : List Char) (spelled : chars.map Char.toLower = o.word) :
    Written o where
  chars := chars
  spelled := spelled

/-- More operands behind a chain. -/
def chainOn {o : Connective} (w : Written o) (e : Requires α false) (cs : List (Requires α true)) :
    Requires α false :=
  cs.foldl (fun e c => .chain e o w c) e

/-- One formula for itself, several in parentheses with the connective between them. -/
def joined {o : Connective} (w : Written o) (c : Requires α true) :
    List (Requires α true) → Requires α true
  | [] => c
  | c' :: cs => .group {} (chainOn w (.chain c o w c') cs) {}

section Joined

variable {o : Connective} (w : Written o) (write : α → List Char)

theorem text_chain (e : Requires α b) (t : Requires α true) :
    Requires.text write (.chain e o w t) = e.text write ++ (inWords o w ++ t.text write) := by
  simp [Requires.text, Formula.lexemes, writeLexeme, inWords]

theorem text_group (e : Requires α b) :
    Requires.text write (.group {} e {}) = '(' :: (e.text write ++ [')']) := by
  simp [Requires.text, Formula.lexemes, writeLexeme]

theorem text_chainOn (e : Requires α false) (cs : List (Requires α true)) :
    (chainOn w e cs).text write =
      e.text write ++ cs.flatMap fun c => inWords o w ++ c.text write := by
  induction cs generalizing e with
  | nil => exact (List.append_nil _).symm
  | cons c cs ih =>
      refine (ih (.chain e o w c)).trans ?_
      rw [text_chain, List.flatMap_cons, List.append_assoc]

theorem intercalate_cons (sep u : List Char) (us : List (List Char)) :
    List.intercalate sep (u :: us) = u ++ us.flatMap fun v => sep ++ v := by
  induction us generalizing u with
  | nil => simp
  | cons v us ih => simp [List.intercalate_cons_cons, ih]

/-- The text of joined formulas is that of the parts, joined. -/
theorem text_joined (c : Requires α true) (cs : List (Requires α true)) :
    (joined w c cs).text write =
      if cs = [] then c.text write
      else '(' :: (List.intercalate (inWords o w) ((c :: cs).map fun c => c.text write) ++ [')']) := by
  cases cs with
  | nil => rfl
  | cons c' cs =>
      rw [if_neg (List.cons_ne_nil _ _), joined, text_group, text_chainOn, text_chain, List.map_cons,
        intercalate_cons, List.flatMap_map, List.flatMap_cons]
      simp only [List.append_assoc]

variable (value : α → Bool)

theorem meaning_chainOn (e : Requires α false) (cs : List (Requires α true)) :
    (chainOn w e cs).meaning Connective.apply value =
      cs.foldl (fun v c => o.apply v (c.meaning Connective.apply value))
        (e.meaning Connective.apply value) := by
  induction cs generalizing e with
  | nil => rfl
  | cons c cs ih => exact ih (.chain e o w c)

theorem foldl_and (v : Bool) (cs : List (Requires α true)) :
    cs.foldl (fun v c => Connective.and.apply v (c.meaning Connective.apply value)) v =
      (v && cs.all fun c => c.meaning Connective.apply value) := by
  induction cs generalizing v with
  | nil => exact (Bool.and_true v).symm
  | cons c cs ih => rw [List.foldl_cons, ih, List.all_cons, ← Bool.and_assoc]; rfl

theorem foldl_or (v : Bool) (cs : List (Requires α true)) :
    cs.foldl (fun v c => Connective.or.apply v (c.meaning Connective.apply value)) v =
      (v || cs.any fun c => c.meaning Connective.apply value) := by
  induction cs generalizing v with
  | nil => exact (Bool.or_false v).symm
  | cons c cs ih => rw [List.foldl_cons, ih, List.any_cons, ← Bool.or_assoc]; rfl

end Joined

theorem meaning_joined_and (w : Written .and) (value : α → Bool) (c : Requires α true)
    (cs : List (Requires α true)) :
    (joined w c cs).meaning Connective.apply value =
      (c :: cs).all fun c => c.meaning Connective.apply value := by
  cases cs with
  | nil => exact (Bool.and_true _).symm
  | cons c' cs =>
      rw [joined, Formula.meaning, meaning_chainOn, foldl_and, List.all_cons, List.all_cons,
        ← Bool.and_assoc]
      rfl

theorem meaning_joined_or (w : Written .or) (value : α → Bool) (c : Requires α true)
    (cs : List (Requires α true)) :
    (joined w c cs).meaning Connective.apply value =
      (c :: cs).any fun c => c.meaning Connective.apply value := by
  cases cs with
  | nil => exact (Bool.or_false _).symm
  | cons c' cs =>
      rw [joined, Formula.meaning, meaning_chainOn, foldl_or, List.any_cons, List.any_cons,
        ← Bool.or_assoc]
      rfl

theorem mem_atoms_chainOn {o : Connective} {w : Written o} {e : Requires α false}
    {cs : List (Requires α true)} {a : α} :
    a ∈ (chainOn w e cs).atoms ↔ a ∈ e.atoms ∨ ∃ c ∈ cs, a ∈ c.atoms := by
  induction cs generalizing e with
  | nil => simp [chainOn]
  | cons c cs ih =>
      refine (ih (e := .chain e o w c)).trans ?_
      simp only [Formula.atoms, List.mem_append, List.mem_cons, exists_eq_or_imp, or_assoc]

/-- The atoms of joined formulas are those of the parts. -/
theorem mem_atoms_joined {o : Connective} {w : Written o} {c : Requires α true}
    {cs : List (Requires α true)} {a : α} :
    a ∈ (joined w c cs).atoms ↔ ∃ d ∈ c :: cs, a ∈ d.atoms := by
  cases cs with
  | nil => simp [joined]
  | cons c' cs =>
      rw [joined, Formula.atoms, mem_atoms_chainOn, Formula.atoms, List.mem_append]
      simp only [List.mem_cons, exists_eq_or_imp, or_assoc]

end SmoArchipelago.World
