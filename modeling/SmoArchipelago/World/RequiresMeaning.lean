import SmoArchipelago.World.Requires

/-! # What a requirement string means

The two readers turn a string of the grammar into the same text for the operator parser, up
to white space, and the parser gives it the meaning of the formula. -/

namespace SmoArchipelago.World

open Library Library.TextScan
open Bridge (isSpace)

variable {α : Type} {b : Bool}

/-! ## The operator parser -/

/-- A lexeme as the operator parser sees it. -/
def symbols : Lexeme Bool Connective Blank Written → List Char
  | .opening _ => ['(']
  | .closing _ => [')']
  | .atom value => [digit value]
  | .op o _ => [o.symbol]

theorem isDigit_of_isSpace {c : Char} (space : isSpace c = true) : c.isDigit = false := by
  simp only [isSpace, Char.isDigit, Bool.or_eq_true, Bool.and_eq_true, decide_eq_true_eq,
    Bool.and_eq_false_imp, decide_eq_false_iff_not, ge_iff_le, UInt32.le_iff_toNat_le] at space ⊢
  have value : c.toNat = c.val.toNat := rfl
  have zero : '0'.val.toNat = 48 := rfl
  have nine : '9'.val.toNat = 57 := rfl
  omega

theorem isSpace_ne {c d : Char} (space : isSpace c = true) (visible : isSpace d = false) :
    c ≠ d := by
  rintro rfl
  rw [space] at visible
  cases visible

/-- The parser skips white space. -/
theorem step_space {c : Char} (space : isSpace c = true) (s : Shunt) : s.step c = some s := by
  have none_of_them : isOperator c = false ∧ c ≠ '(' ∧ c ≠ ')' := by
    refine ⟨?_, isSpace_ne space (by decide), isSpace_ne space (by decide)⟩
    simp [isOperator, isSpace_ne space (d := '&') (by decide),
      isSpace_ne space (d := '|') (by decide), isSpace_ne space (d := '!') (by decide)]
  unfold Shunt.step
  rw [isDigit_of_isSpace space, none_of_them.1]
  simp [none_of_them.2]

/-- White space makes no difference to the parser. -/
theorem foldlM_visible (text : List Char) (s : Shunt) :
    text.foldlM Shunt.step s = (text.filter fun c => !isSpace c).foldlM Shunt.step s := by
  induction text generalizing s with
  | nil => rfl
  | cons c text ih =>
      cases space : isSpace c with
      | true =>
          rw [List.foldlM_cons, step_space space, List.filter_cons_of_neg (by simp [space])]
          exact ih s
      | false =>
          rw [List.filter_cons_of_pos (by simp [space]), List.foldlM_cons, List.foldlM_cons]
          congr 1
          funext s'
          exact ih s'

theorem evaluateInfix_visible (text : List Char) :
    evaluateInfix text = evaluateInfix (text.filter fun c => !isSpace c) := by
  unfold evaluateInfix infixToPostfix
  rw [foldlM_visible]

/-- The operators that wait at the end of a formula: its last one, where it is a chain. -/
def waiting : {b : Bool} → Requires Bool b → List Char
  | _, .atom _ | _, .group _ _ _ => []
  | _, .chain _ o _ _ => [o.symbol]

/-- What the parser has put out at the end of a formula. -/
def outOf : {b : Bool} → Requires Bool b → List Char
  | _, .atom value => [digit value]
  | _, .group _ e _ => outOf e ++ waiting e
  | _, .chain e _ _ t => outOf e ++ waiting e ++ outOf t

theorem waiting_closed (e : Requires Bool true) : waiting e = [] := by
  cases e <;> rfl

/-- No operator on top of the stack: it is empty, or begins with a parenthesis. -/
def Calm (stack : List Char) : Prop := ∀ c ∈ stack.head?, c = '('

theorem calm_nil : Calm [] := by
  intro c top
  cases top

theorem calm_bracket (stack : List Char) : Calm ('(' :: stack) := by
  intro c top
  cases top
  rfl

theorem step_digit (value : Bool) (s : Shunt) :
    s.step (digit value) = some { s with out := s.out ++ [digit value] } := by
  cases value <;> rfl

theorem step_opening (s : Shunt) : s.step '(' = some { s with stack := '(' :: s.stack } := rfl

/-- An operator behind a formula drives out the one that waits. -/
theorem step_symbol (o : Connective) {e : Requires Bool b} {s : Shunt} (calm : Calm s.stack) :
    Shunt.step { stack := waiting e ++ s.stack, out := s.out ++ outOf e } o.symbol =
      some { stack := o.symbol :: s.stack, out := s.out ++ outOf e ++ waiting e } := by
  have stays (binds : Char → Bool) (bracket : binds '(' = false) :
      s.stack.takeWhile binds = [] ∧ s.stack.dropWhile binds = s.stack := by
    cases stack : s.stack with
    | nil => exact ⟨rfl, rfl⟩
    | cons c rest =>
        obtain rfl : c = '(' := calm c (by rw [stack]; rfl)
        simp [bracket]
  cases e with
  | atom value => cases o <;> simp [Shunt.step, waiting, isOperator, Connective.symbol, stays]
  | group pad e pad' => cases o <;> simp [Shunt.step, waiting, isOperator, Connective.symbol, stays]
  | chain e o' setting t =>
      cases o <;> cases o' <;>
        simp [Shunt.step, waiting, isOperator, Connective.symbol, stays, prec]

/-- A closing parenthesis behind a formula drives out the operator that waits. -/
theorem step_closing (e : Requires Bool b) (stack out : List Char) :
    Shunt.step { stack := waiting e ++ '(' :: stack, out := out } ')' =
      some { stack, out := out ++ waiting e } := by
  cases e with
  | atom value => simp [Shunt.step, waiting, isOperator]
  | group pad e pad' => simp [Shunt.step, waiting, isOperator]
  | chain e o setting t => cases o <;> simp [Shunt.step, waiting, isOperator, Connective.symbol]

/-- The parser reads a formula, where it is closed or no operator waits before it. -/
theorem foldlM_formula (e : Requires Bool b) (s : Shunt) (calm : b = true ∨ Calm s.stack) :
    (e.lexemes.flatMap symbols).foldlM Shunt.step s =
      some { stack := waiting e ++ s.stack, out := s.out ++ outOf e } := by
  induction e generalizing s with
  | atom value =>
      change [digit value].foldlM Shunt.step s = _
      rw [List.foldlM_cons, step_digit]
      rfl
  | group pad e pad' ih =>
      have text : (Formula.group pad e pad' : Requires Bool true).lexemes.flatMap symbols =
          '(' :: (e.lexemes.flatMap symbols ++ [')']) := by
        simp [Formula.lexemes, symbols]
      rw [text, List.foldlM_cons, step_opening, Option.bind_eq_bind, Option.bind_some,
        List.foldlM_append, ih _ (.inr (calm_bracket s.stack)),
        Option.bind_eq_bind, Option.bind_some, List.foldlM_cons, step_closing]
      simp [outOf, waiting]
  | chain e o setting t ih ih' =>
      have calm : Calm s.stack := calm.resolve_left Bool.false_ne_true
      have text : (Formula.chain e o setting t : Requires Bool false).lexemes.flatMap symbols =
          e.lexemes.flatMap symbols ++ (o.symbol :: t.lexemes.flatMap symbols) := by
        simp [Formula.lexemes, symbols]
      rw [text, List.foldlM_append, ih s (.inr calm), Option.bind_eq_bind, Option.bind_some,
        List.foldlM_cons, step_symbol o calm, Option.bind_eq_bind, Option.bind_some,
        ih' _ (.inl rfl), waiting_closed]
      simp [outOf, waiting]

theorem infixToPostfix_formula (e : Requires Bool b) :
    infixToPostfix (e.lexemes.flatMap symbols) = some (outOf e ++ waiting e) := by
  unfold infixToPostfix
  rw [foldlM_formula e _ (.inr calm_nil)]
  simp

/-- The evaluation leaves the value of a formula on the stack. -/
theorem evaluate_formula (e : Requires Bool b) (stack : List Bool) :
    (outOf e ++ waiting e).foldlM evaluateStep stack =
      some (e.meaning Connective.apply id :: stack) := by
  induction e generalizing stack with
  | atom value => cases value <;> rfl
  | group pad e pad' ih =>
      rw [outOf, waiting, List.append_nil]
      exact ih stack
  | chain e o setting t ih ih' =>
      have closed := waiting_closed t
      have right := ih' (e.meaning Connective.apply id :: stack)
      rw [closed, List.append_nil] at right
      rw [outOf, waiting, List.append_assoc, List.foldlM_append, ih stack, Option.bind_eq_bind,
        Option.bind_some, List.foldlM_append, right, Option.bind_eq_bind, Option.bind_some]
      cases o <;> rfl

/-- The operator parser gives a formula its meaning. -/
theorem evaluateInfix_formula (e : Requires Bool b) :
    evaluateInfix (e.lexemes.flatMap symbols) = some (e.meaning Connective.apply id) := by
  unfold evaluateInfix evaluatePostfix
  rw [infixToPostfix_formula, Option.bind_some, evaluate_formula]

/-! ## The two words -/

theorem toLower_of_isSpace {c : Char} (space : isSpace c = true) : c.toLower = c := by
  have upper : c.isUpper = false := by
    simp only [isSpace, Char.isUpper, Bool.or_eq_true, Bool.and_eq_true, decide_eq_true_eq,
      decide_eq_false_iff_not, ge_iff_le, UInt32.le_iff_toNat_le] at space ⊢
    have value : c.toNat = c.val.toNat := rfl
    have first : 'A'.val.toNat = 65 := rfl
    have last : 'Z'.val.toNat = 90 := rfl
    omega
  simpa [Char.isUpper] using Char.toLower_eq_of_not_isUpper (by simp [upper])

theorem takeWhile_visible {s : List Char} (next : ∀ d ∈ s.head?, isSpace d = false) :
    s.takeWhile isSpace = [] := by
  cases s with
  | nil => rfl
  | cons d s => exact List.takeWhile_cons_of_neg (by simp [next d rfl])

theorem dropWhile_visible {s : List Char} (next : ∀ d ∈ s.head?, isSpace d = false) :
    s.dropWhile isSpace = s := by
  cases s with
  | nil => rfl
  | cons d s => exact List.dropWhile_cons_of_neg (by simp [next d rfl])

/-- A text whose first letter is another does not begin with the word. -/
theorem not_startsWord {x : Char} {xs s : List Char} (other : ∀ c ∈ s.head?, c.toLower ≠ x) :
    ¬ StartsWord (x :: xs) s := by
  intro starts
  cases s with
  | nil => cases starts
  | cons c s => exact other c rfl (List.cons.inj starts).1

/-- A pattern of a word that begins with the letter: no match begins at another visible
character, nor in white space before one. -/
structure Seeks (m : Matcher) (x : Char) : Prop where
  visible : ∀ c prev s, isSpace c = false → c.toLower ≠ x → m prev (c :: s) = none
  blank : ∀ c prev u s, isSpace c = true → (∀ d ∈ u, isSpace d = true) →
    (∀ d ∈ s.head?, isSpace d = false ∧ d.toLower ≠ x) → m prev (c :: (u ++ s)) = none

section Seeking

variable {m : Matcher} {x : Char}

theorem Seeks.reads_visible (seeks : Seeks m x) {u : List Char}
    (visible : ∀ c ∈ u, isSpace c = false ∧ c.toLower ≠ x) (s : List Char) :
    Reads m u (u.map .plain) s := by
  apply reads_plain
  intro v nonempty suffix prev
  obtain ⟨c, v, rfl⟩ := List.exists_cons_of_ne_nil nonempty
  obtain ⟨space, other⟩ := visible c (suffix.subset List.mem_cons_self)
  exact seeks.visible c prev (v ++ s) space other

theorem Seeks.reads_blank (seeks : Seeks m x) {u s : List Char}
    (blank : ∀ c ∈ u, isSpace c = true)
    (next : ∀ d ∈ s.head?, isSpace d = false ∧ d.toLower ≠ x) :
    Reads m u (u.map .plain) s := by
  apply reads_plain
  intro v nonempty suffix prev
  obtain ⟨c, v, rfl⟩ := List.exists_cons_of_ne_nil nonempty
  exact seeks.blank c prev v s (blank c (suffix.subset List.mem_cons_self))
    (fun d member => blank d (suffix.subset (List.mem_cons_of_mem c member))) next

/-- White space and a visible text behind it. -/
theorem Seeks.reads_padded (seeks : Seeks m x) {u v : List Char}
    (blank : ∀ c ∈ u, isSpace c = true) (nonempty : v ≠ [])
    (visible : ∀ c ∈ v, isSpace c = false ∧ c.toLower ≠ x) (s : List Char) :
    Reads m (u ++ v) ((u ++ v).map .plain) s := by
  rw [List.map_append]
  apply Reads.append
  · apply seeks.reads_blank blank
    intro d first
    obtain ⟨c, v, rfl⟩ := List.exists_cons_of_ne_nil nonempty
    obtain rfl : c = d := by simpa using first
    exact visible c List.mem_cons_self
  · exact seeks.reads_visible visible s

end Seeking

theorem seeks_looseWord {x : Char} (letter : isSpace x = false) (xs : List Char) :
    Seeks (looseWord (x :: xs)) x where
  visible := by
    intro c prev s space other
    have absent : ¬ StartsWord (x :: xs) (c :: s) := not_startsWord fun d first => by
      obtain rfl : c = d := by simpa using first
      exact other
    simp [looseWord, space, absent]
  blank := by
    intro c prev u s space blank next
    have absent : ¬ StartsWord (x :: xs) (u ++ s) := not_startsWord fun d first => by
      cases u with
      | nil => exact (next d first).2
      | cons e u =>
          obtain rfl : e = d := by simpa using first
          have space' := blank e List.mem_cons_self
          rw [toLower_of_isSpace space']
          exact isSpace_ne space' letter
    simp [looseWord, space, absent]

theorem seeks_spacedWord (x : Char) (xs : List Char) : Seeks (spacedWord (x :: xs)) x where
  visible := by
    intro c prev s space other
    simp [spacedWord, space]
  blank := by
    intro c prev u s space blank next
    have rest : (c :: (u ++ s)).dropWhile isSpace = s := by
      rw [List.dropWhile_cons_of_pos space, List.dropWhile_append_of_pos blank,
        dropWhile_visible fun d first => (next d first).1]
    have absent : ¬ StartsWord (x :: xs) s := not_startsWord fun d first => (next d first).2
    simp only [spacedWord, rest]
    simp [absent]

theorem Written.length_chars {o : Connective} (w : Written o) : w.chars.length = o.word.length := by
  rw [← w.spelled, List.length_map]

/-- The letters of a written word are visible. -/
theorem Written.visible {o : Connective} (w : Written o) :
    ∀ c ∈ w.chars, isSpace c = false ∧ c.toLower ∈ o.word := by
  intro c member
  have letter : c.toLower ∈ o.word := by
    rw [← w.spelled]
    exact List.mem_map_of_mem member
  refine ⟨?_, letter⟩
  cases space : isSpace c with
  | false => rfl
  | true =>
      rw [toLower_of_isSpace space] at letter
      have printed : ∀ d ∈ o.word, isSpace d = false := by
        cases o <;> exact List.forall_iff_forall_mem.1 (by decide)
      rw [printed c letter] at space
      cases space

theorem startsWord_written {o : Connective} (w : Written o) (s : List Char) :
    StartsWord o.word (w.chars ++ s) := by
  unfold StartsWord
  rw [← w.length_chars, List.take_left, w.spelled]

theorem isWordChar_of_isSpace {c : Char} (space : isSpace c = true) : isWordChar c = false := by
  have underscore := isSpace_ne space (d := '_') (by decide)
  simp only [isSpace, isWordChar, Char.isAlphanum, Char.isAlpha, Char.isUpper, Char.isLower,
    Char.isDigit, Bool.or_eq_true, Bool.and_eq_true, decide_eq_true_eq, Bool.or_eq_false_iff,
    Bool.and_eq_false_imp, decide_eq_false_iff_not, ge_iff_le, UInt32.le_iff_toNat_le] at space ⊢
  have value : c.toNat = c.val.toNat := rfl
  have bounds : 'A'.val.toNat = 65 ∧ 'Z'.val.toNat = 90 ∧ 'a'.val.toNat = 97 ∧
      'z'.val.toNat = 122 ∧ '0'.val.toNat = 48 ∧ '9'.val.toNat = 57 := by decide
  refine ⟨⟨⟨?_, ?_⟩, ?_⟩, underscore⟩ <;> omega

/-- The loose pattern takes a word with one white space on each side. -/
theorem reads_looseWord {o : Connective} (w : Written o) (s : List Char) :
    Reads (looseWord o.word) (w.left :: (w.chars ++ [w.right]))
      [.hit (w.left :: (w.chars ++ [w.right]))] s := by
  apply reads_hit (List.cons_ne_nil _ _)
  intro prev
  have rest : (w.chars ++ w.right :: s).drop o.word.length = w.right :: s := by
    rw [← w.length_chars, List.drop_left]
  have starts := startsWord_written w (w.right :: s)
  simp [looseWord, w.left_space, starts, rest, isWordChar_of_isSpace w.right_space, w.right_space,
    w.length_chars]

/-- The spaced pattern takes a word with all white space around it. -/
theorem reads_spacedWord {o : Connective} (w : Written o) {s : List Char}
    (next : ∀ d ∈ s.head?, isSpace d = false) :
    Reads (spacedWord o.word) (w.before.chars ++ w.left :: (w.chars ++ w.right :: w.after.chars))
      [.hit (w.before.chars ++ w.left :: (w.chars ++ w.right :: w.after.chars))] s := by
  apply reads_hit (by simp)
  intro prev
  have first : ∀ c ∈ (w.chars ++ w.right :: (w.after.chars ++ s)).head?, isSpace c = false := by
    intro c first
    cases letters : w.chars with
    | nil =>
        have length := w.length_chars
        rw [letters] at length
        cases o <;> cases length
    | cons d ds =>
        rw [letters] at first
        obtain rfl : d = c := by simpa using first
        exact (w.visible d (by rw [letters]; exact List.mem_cons_self)).1
  have blank : ∀ c ∈ w.before.chars ++ [w.left], isSpace c = true := by
    intro c member
    rcases List.mem_append.1 member with inside | last
    · exact w.before.blank c inside
    · rw [List.mem_singleton.1 last]
      exact w.left_space
  have blank' : ∀ c ∈ w.right :: w.after.chars, isSpace c = true := by
    intro c member
    rcases List.mem_cons.1 member with rfl | inside
    · exact w.right_space
    · exact w.after.blank c inside
  have whole : w.before.chars ++ w.left :: (w.chars ++ w.right :: w.after.chars) ++ s =
      (w.before.chars ++ [w.left]) ++ (w.chars ++ w.right :: (w.after.chars ++ s)) := by
    simp
  have before : ((w.before.chars ++ [w.left]) ++
      (w.chars ++ w.right :: (w.after.chars ++ s))).takeWhile isSpace =
        w.before.chars ++ [w.left] := by
    rw [List.takeWhile_append_of_pos blank, takeWhile_visible first, List.append_nil]
  have behind : ((w.before.chars ++ [w.left]) ++
      (w.chars ++ w.right :: (w.after.chars ++ s))).dropWhile isSpace =
        w.chars ++ w.right :: (w.after.chars ++ s) := by
    rw [List.dropWhile_append_of_pos blank, dropWhile_visible first]
  have rest : (w.chars ++ w.right :: (w.after.chars ++ s)).drop o.word.length =
      (w.right :: w.after.chars) ++ s := by
    rw [← w.length_chars, List.drop_left, List.cons_append]
  have after : ((w.right :: w.after.chars) ++ s).takeWhile isSpace = w.right :: w.after.chars := by
    rw [List.takeWhile_append_of_pos blank', takeWhile_visible next, List.append_nil]
  have starts := startsWord_written w (w.right :: (w.after.chars ++ s))
  rw [whole]
  simp only [spacedWord, before, behind, rest, after, starts]
  simp [w.length_chars]
  omega

/-- A way of writing the connectives. -/
abbrev Style := (o : Connective) → Written o → List Char

/-- How a lexeme over values is written, with the connectives in some style. -/
def writeValues (style : Style) : Lexeme Bool Connective Blank Written → List Char
  | .opening pad => '(' :: pad.chars
  | .closing pad => pad.chars ++ [')']
  | .atom value => [digit value]
  | .op o w => style o w

/-- As it is written in the grammar. -/
def inWords : Style := fun _ w => w.before.chars ++ w.left :: (w.chars ++ w.right :: w.after.chars)

/-- As a symbol, with what white space is left. -/
def loosely : Style := fun o w => w.before.chars ++ o.symbol :: w.after.chars

def tightly : Style := fun o _ => [o.symbol]

/-- One connective in another style. -/
def Style.restyle (style : Style) (target : Connective) (style' : Style) : Style := fun o w =>
  if o = target then style' o w else style o w

/-- What begins a text behind an opening lexeme. -/
def Opens (s : List Char) : Prop := ∀ d ∈ s.head?, d = '(' ∨ d = '0' ∨ d = '1'

theorem Opens.visible {s : List Char} (opens : Opens s) :
    ∀ d ∈ s.head?, isSpace d = false ∧ ∀ o : Connective, d.toLower ≠ o.word.headD ' ' := by
  intro d first
  rcases opens d first with rfl | rfl | rfl <;> refine ⟨by decide, ?_⟩ <;> intro o <;>
    cases o <;> decide

theorem opens_of_begins (style : Style) {e : Requires Bool b}
    {x : Lexeme Bool Connective Blank Written} {l : List (Lexeme Bool Connective Blank Written)}
    (suffix : x :: l <:+ e.lexemes) (opening : ¬ x.Ends) :
    Opens (l.flatMap (writeValues style)) := by
  cases l with
  | nil => exact absurd (Formula.ends_of_suffix suffix) opening
  | cons y l =>
      have begins := (Formula.adjacent_of_suffix suffix).2 opening
      intro d first
      cases y with
      | opening pad => exact .inl (Option.some.inj first).symm
      | atom value =>
          have same : digit value = d := Option.some.inj first
          cases value
          · exact .inr (.inl same.symm)
          · exact .inr (.inr same.symm)
      | closing pad => exact begins.elim
      | op o w => exact begins.elim

/-- The pieces of a lexeme for a pattern that takes connectives only. -/
def piecesOf (pieces : (o : Connective) → Written o → List Piece) :
    Lexeme Bool Connective Blank Written → List Piece
  | .opening pad => ('(' :: pad.chars).map .plain
  | .closing pad => (pad.chars ++ [')']).map .plain
  | .atom value => [.plain (digit value)]
  | .op o w => pieces o w

/-- A pattern that reads the connectives of a formula reads the formula. -/
theorem substitute_formula {m : Matcher} {o : Connective} {style style' : Style}
    (seeks : Seeks m (o.word.headD ' ')) (pieces : (o : Connective) → Written o → List Piece)
    (reads : ∀ o w s, Opens s → Reads m (style o w) (pieces o w) s) (rep : List Char → List Char)
    (replaced : ∀ o w, (pieces o w).flatMap (Piece.replace rep) = style' o w) (e : Requires Bool b) :
    substitute m rep (e.lexemes.flatMap (writeValues style)) =
      e.lexemes.flatMap (writeValues style') := by
  have parts : ∀ x rest, x :: rest <:+ e.lexemes →
      Reads m (writeValues style x) (piecesOf pieces x) (rest.flatMap (writeValues style)) := by
    intro x rest suffix
    have shown : ∀ c ∈ ['(', ')', '0', '1'],
        isSpace c = false ∧ c.toLower ≠ o.word.headD ' ' := by
      cases o <;> exact List.forall_iff_forall_mem.1 (by decide)
    have lone (c : Char) (member : c ∈ ['(', ')', '0', '1']) :
        ∀ d ∈ [c], isSpace d = false ∧ d.toLower ≠ o.word.headD ' ' := by
      intro d here
      rw [List.mem_singleton.1 here]
      exact shown c member
    cases x with
    | opening pad =>
        have opens := opens_of_begins style suffix id
        exact Reads.append (u := ['(']) (seeks.reads_visible (lone _ (by decide)) _)
          (seeks.reads_blank pad.blank fun d first =>
            ⟨(opens.visible d first).1, (opens.visible d first).2 o⟩)
    | closing pad =>
        exact seeks.reads_padded pad.blank (List.cons_ne_nil _ _) (lone _ (by decide)) _
    | atom value =>
        refine seeks.reads_visible (lone _ ?_) _
        cases value <;> decide
    | op o' w => exact reads o' w _ (opens_of_begins style suffix id)
  rw [substitute_flatMap parts]
  congr 1
  funext x
  cases x with
  | opening pad => exact replace_plain rep _
  | closing pad => exact replace_plain rep _
  | atom value => exact replace_plain rep [digit value]
  | op o' w => exact replaced o' w

/-- The text of a formula over values, both connectives replaced by symbols. -/
theorem visible_of_style {style : Style}
    (bare : ∀ o w, (style o w).filter (fun c => !isSpace c) = [o.symbol])
    (e : Requires Bool b) :
    (e.lexemes.flatMap (writeValues style)).filter (fun c => !isSpace c) =
      e.lexemes.flatMap symbols := by
  rw [List.filter_flatMap]
  congr 1
  funext x
  have gone (pad : Blank) : pad.chars.filter (fun c => !isSpace c) = [] := by
    apply List.filter_eq_nil_iff.2
    intro c member
    simp [pad.blank c member]
  have bracket : isSpace '(' = false ∧ isSpace ')' = false := by decide
  have digits : ∀ value, [digit value].filter (fun c => !isSpace c) = [digit value] := by decide
  cases x with
  | opening pad => simp [writeValues, symbols, gone, bracket]
  | closing pad => simp [writeValues, symbols, gone, bracket]
  | atom value => exact digits value
  | op o w => exact bare o w

/-- The other connective is passed over, in whichever style it is written. -/
theorem Seeks.reads_inWords {m : Matcher} {o o' : Connective} (seeks : Seeks m (o.word.headD ' '))
    (other : o' ≠ o) (w : Written o') {s : List Char} (opens : Opens s) :
    Reads m (inWords o' w) ((inWords o' w).map .plain) s := by
  have letters : ∀ c ∈ w.chars, isSpace c = false ∧ c.toLower ≠ o.word.headD ' ' := by
    intro c member
    obtain ⟨space, letter⟩ := w.visible c member
    refine ⟨space, ?_⟩
    rintro same
    rw [same] at letter
    revert letter other
    cases o <;> cases o' <;> decide
  have blank : ∀ c ∈ w.before.chars ++ [w.left], isSpace c = true := by
    intro c member
    rcases List.mem_append.1 member with inside | last
    · exact w.before.blank c inside
    · rw [List.mem_singleton.1 last]
      exact w.left_space
  have blank' : ∀ c ∈ w.right :: w.after.chars, isSpace c = true := by
    intro c member
    rcases List.mem_cons.1 member with rfl | inside
    · exact w.right_space
    · exact w.after.blank c inside
  have nonempty : w.chars ≠ [] := by
    intro empty
    have length := w.length_chars
    rw [empty] at length
    cases o' <;> cases length
  have parts : inWords o' w =
      ((w.before.chars ++ [w.left]) ++ w.chars) ++ (w.right :: w.after.chars) := by
    simp [inWords]
  rw [parts, List.map_append]
  exact (seeks.reads_padded blank nonempty letters _).append
    (seeks.reads_blank blank' fun d first => ⟨(opens.visible d first).1, (opens.visible d first).2 o⟩)

theorem symbol_visible (o o' : Connective) :
    ∀ c ∈ [o'.symbol], isSpace c = false ∧ c.toLower ≠ o.word.headD ' ' := by
  cases o <;> cases o' <;> exact List.forall_iff_forall_mem.1 (by decide)

theorem Seeks.reads_loosely {m : Matcher} {o o' : Connective} (seeks : Seeks m (o.word.headD ' '))
    (w : Written o') {s : List Char} (opens : Opens s) :
    Reads m (loosely o' w) ((loosely o' w).map .plain) s := by
  have parts : loosely o' w = (w.before.chars ++ [o'.symbol]) ++ w.after.chars := by
    simp [loosely]
  rw [parts, List.map_append]
  exact (seeks.reads_padded w.before.blank (List.cons_ne_nil _ _) (symbol_visible o o') _).append
    (seeks.reads_blank w.after.blank fun d first =>
      ⟨(opens.visible d first).1, (opens.visible d first).2 o⟩)

theorem Seeks.reads_tightly {m : Matcher} {o o' : Connective} (seeks : Seeks m (o.word.headD ' '))
    (w : Written o') (s : List Char) :
    Reads m (tightly o' w) ((tightly o' w).map .plain) s :=
  seeks.reads_visible (symbol_visible o o') s

theorem seeks_loose (o : Connective) : Seeks (looseWord o.word) (o.word.headD ' ') := by
  cases o <;> exact seeks_looseWord (by decide) _

theorem seeks_spaced (o : Connective) : Seeks (spacedWord o.word) (o.word.headD ' ') := by
  cases o <;> exact seeks_spacedWord _ _

/-- The loose pattern leaves the outer white space of a written connective. -/
theorem reads_looseWord_inWords {o : Connective} (w : Written o) {s : List Char} (opens : Opens s) :
    Reads (looseWord o.word) (inWords o w)
      (w.before.chars.map .plain ++ ([.hit (w.left :: (w.chars ++ [w.right]))] ++
        w.after.chars.map .plain)) s := by
  have parts : inWords o w =
      w.before.chars ++ ((w.left :: (w.chars ++ [w.right])) ++ w.after.chars) := by
    simp [inWords]
  rw [parts]
  refine Reads.append (reads_plain ?_) ((reads_looseWord w _).append
    ((seeks_loose o).reads_blank w.after.blank fun d first =>
      ⟨(opens.visible d first).1, (opens.visible d first).2 o⟩))
  intro v nonempty suffix prev
  obtain ⟨c, v, rfl⟩ := List.exists_cons_of_ne_nil nonempty
  have blank : ∀ d ∈ c :: v, isSpace d = true := fun d member =>
    w.before.blank d (suffix.subset member)
  -- behind white space that is not the last of its run there is more of it, not the word
  have absent (t : List Char) : ¬ StartsWord o.word (v ++ w.left :: t) := by
    have spaced : ∀ d ∈ (v ++ w.left :: t).head?, isSpace d = true := by
      intro d first
      cases v with
      | nil =>
          obtain rfl : w.left = d := by simpa using first
          exact w.left_space
      | cons e v =>
          obtain rfl : e = d := by simpa using first
          exact blank e (by simp)
    have other : ∀ d ∈ (v ++ w.left :: t).head?, d.toLower ≠ o.word.headD ' ' := by
      intro d first
      rw [toLower_of_isSpace (spaced d first)]
      exact isSpace_ne (spaced d first) (by cases o <;> decide)
    cases o <;> exact not_startsWord other
  have here : isSpace c = true := blank c List.mem_cons_self
  simp [looseWord, here, absent]

/-- The pieces where one connective is taken and the other passed over. -/
def takeOne (target : Connective) (style : Style) (taken : (o : Connective) → Written o → List Piece)
    (o : Connective) (w : Written o) : List Piece :=
  if o = target then taken o w else (style o w).map .plain

/-- A pattern of one connective changes the style of that one. -/
theorem substitute_one {m : Matcher} {target : Connective} (style style' : Style)
    (seeks : Seeks m (target.word.headD ' ')) {taken : (o : Connective) → Written o → List Piece}
    (reads : ∀ w s, Opens s → Reads m (style target w) (taken target w) s)
    (others : ∀ o, o ≠ target → ∀ w s, Opens s → Reads m (style o w) ((style o w).map .plain) s)
    {rep : List Char → List Char}
    (replaced : ∀ w, (taken target w).flatMap (Piece.replace rep) = style' target w)
    (e : Requires Bool b) :
    substitute m rep (e.lexemes.flatMap (writeValues style)) =
      e.lexemes.flatMap (writeValues (style.restyle target style')) := by
  refine substitute_formula seeks (takeOne target style taken) ?_ rep ?_ e
  · intro o w s opens
    unfold takeOne
    split_ifs with here
    · subst here
      exact reads w s opens
    · exact others o here w s opens
  · intro o w
    unfold takeOne Style.restyle
    split_ifs with here
    · subst here
      exact replaced w
    · exact replace_plain rep _

theorem restyle_both (style : Style) :
    (inWords.restyle .and style).restyle .or style = style := by
  funext o w
  cases o <;> rfl

def loosePieces (o : Connective) (w : Written o) : List Piece :=
  w.before.chars.map .plain ++
    ([.hit (w.left :: (w.chars ++ [w.right]))] ++ w.after.chars.map .plain)

def tightPieces (o : Connective) (w : Written o) : List Piece := [.hit (inWords o w)]

theorem replace_loosePieces {o : Connective} (w : Written o) :
    (loosePieces o w).flatMap (Piece.replace fun _ => [o.symbol]) = loosely o w := by
  simp [loosePieces, loosely, List.flatMap_append, Piece.replace]

/-- The engine's two substitutions. -/
theorem looseText (e : Requires Bool b) :
    substitute (looseWord "or".toList) (fun _ => ['|'])
        (substitute (looseWord "and".toList) (fun _ => ['&'])
          (e.lexemes.flatMap (writeValues inWords))) =
      e.lexemes.flatMap (writeValues loosely) := by
  have first : substitute (looseWord Connective.and.word) (fun _ => [Connective.and.symbol])
      (e.lexemes.flatMap (writeValues inWords)) =
        e.lexemes.flatMap (writeValues (inWords.restyle .and loosely)) :=
    substitute_one inWords loosely (seeks_loose .and) (fun w s => reads_looseWord_inWords w)
      (fun o other w s => (seeks_loose .and).reads_inWords other w) replace_loosePieces e
  have second : substitute (looseWord Connective.or.word) (fun _ => [Connective.or.symbol])
      (e.lexemes.flatMap (writeValues (inWords.restyle .and loosely))) =
        e.lexemes.flatMap (writeValues ((inWords.restyle .and loosely).restyle .or loosely)) := by
    refine substitute_one _ loosely (seeks_loose .or) (fun w s => reads_looseWord_inWords w) ?_
      replace_loosePieces e
    intro o other w s
    cases o with
    | and => exact (seeks_loose .or).reads_loosely w
    | or => exact absurd rfl other
  rw [restyle_both] at second
  exact (congrArg _ first).trans second

/-- The entrance logic's two substitutions. -/
theorem tightText (e : Requires Bool b) :
    substitute (spacedWord "or".toList) (fun _ => ['|'])
        (substitute (spacedWord "and".toList) (fun _ => ['&'])
          (e.lexemes.flatMap (writeValues inWords))) =
      e.lexemes.flatMap (writeValues tightly) := by
  have whole {o : Connective} (w : Written o) (s : List Char) (opens : Opens s) :
      Reads (spacedWord o.word) (inWords o w) (tightPieces o w) s :=
    reads_spacedWord w fun d first => (opens.visible d first).1
  have replaced {o : Connective} (w : Written o) :
      (tightPieces o w).flatMap (Piece.replace fun _ => [o.symbol]) = tightly o w := rfl
  have first : substitute (spacedWord Connective.and.word) (fun _ => [Connective.and.symbol])
      (e.lexemes.flatMap (writeValues inWords)) =
        e.lexemes.flatMap (writeValues (inWords.restyle .and tightly)) :=
    substitute_one inWords tightly (seeks_spaced .and) whole
      (fun o other w s => (seeks_spaced .and).reads_inWords other w) replaced e
  have second : substitute (spacedWord Connective.or.word) (fun _ => [Connective.or.symbol])
      (e.lexemes.flatMap (writeValues (inWords.restyle .and tightly))) =
        e.lexemes.flatMap (writeValues ((inWords.restyle .and tightly).restyle .or tightly)) := by
    refine substitute_one (inWords.restyle .and tightly) tightly (seeks_spaced .or) whole ?_
      replaced e
    intro o other w s
    cases o with
    | and => exact fun _ => (seeks_spaced .or).reads_tightly w s
    | or => exact absurd rfl other
  rw [restyle_both] at second
  exact (congrArg _ first).trans second

/-- The parser gives a text over values its meaning, in either style. -/
theorem evaluateInfix_loosely (e : Requires Bool b) :
    evaluateInfix (e.lexemes.flatMap (writeValues loosely)) =
      some (e.meaning Connective.apply id) := by
  have bare : ∀ o w, (loosely o w).filter (fun c => !isSpace c) = [o.symbol] := by
    intro o w
    have gone (pad : Blank) : pad.chars.filter (fun c => !isSpace c) = [] := by
      apply List.filter_eq_nil_iff.2
      intro c member
      simp [pad.blank c member]
    have shown : isSpace o.symbol = false := by cases o <;> decide
    simp [loosely, gone, shown]
  rw [evaluateInfix_visible, visible_of_style bare, evaluateInfix_formula]

theorem evaluateInfix_tightly (e : Requires Bool b) :
    evaluateInfix (e.lexemes.flatMap (writeValues tightly)) =
      some (e.meaning Connective.apply id) := by
  have bare : ∀ o w, (tightly o w).filter (fun c => !isSpace c) = [o.symbol] := by
    intro o w
    cases o <;> rfl
  rw [evaluateInfix_visible, visible_of_style bare, evaluateInfix_formula]

end SmoArchipelago.World
