import SmoArchipelago.World.RequiresReaders

/-! # The two readers agree

Before the item tokens the calls of the rule functions are spliced: the entrance logic takes
the first call in each round and puts its result in parentheses, the engine replaces the
calls one text at a time. -/

namespace SmoArchipelago.World

open Library Library.TextScan
open Bridge (isSpace)

variable {α : Type} {b : Bool}

theorem callPattern_of_ne {c : Char} (other : c ≠ '{') (prev : Option Char) (s : List Char) :
    callPattern prev (c :: s) = none := by
  unfold callPattern
  dsimp only
  split
  · rfl
  · simp [other]

namespace Call

variable (c : Call)

theorem takeWhile_name (s : List Char) : (c.name ++ '(' :: s).takeWhile isWordChar = c.name := by
  rw [List.takeWhile_append_of_pos c.word, List.takeWhile_cons_of_neg (by decide), List.append_nil]

theorem dropWhile_name (s : List Char) : (c.name ++ '(' :: s).dropWhile isWordChar = '(' :: s := by
  rw [List.dropWhile_append_of_pos c.word, List.dropWhile_cons_of_neg (by decide)]

theorem takeWhile_arg (s : List Char) : (c.arg ++ ')' :: s).takeWhile (· ≠ ')') = c.arg := by
  have inside : ∀ d ∈ c.arg, (decide (d ≠ ')')) = true := by
    intro d member
    simpa using (c.whole d member).1
  rw [List.takeWhile_append_of_pos inside, List.takeWhile_cons_of_neg (by decide), List.append_nil]

theorem dropWhile_arg (s : List Char) : (c.arg ++ ')' :: s).dropWhile (· ≠ ')') = ')' :: s := by
  have inside : ∀ d ∈ c.arg, (decide (d ≠ ')')) = true := by
    intro d member
    simpa using (c.whole d member).1
  rw [List.dropWhile_append_of_pos inside, List.dropWhile_cons_of_neg (by decide)]

theorem text_append (s : List Char) :
    c.text ++ s = '{' :: (c.name ++ '(' :: (c.arg ++ ')' :: '}' :: s)) := by
  simp [text]

theorem text_ne_nil : c.text ≠ [] := List.cons_ne_nil _ _

theorem callName_append (s : List Char) : callName (c.text ++ s) = c.name := by
  unfold callName
  rw [c.text_append]
  exact c.takeWhile_name _

theorem callArg_append (s : List Char) : callArg (c.text ++ s) = c.arg := by
  unfold callArg
  rw [c.text_append, List.tail_cons, c.dropWhile_name, List.tail_cons]
  exact c.takeWhile_arg _

theorem callName_text : callName c.text = c.name := by
  simpa using c.callName_append []

theorem callArg_text : callArg c.text = c.arg := by
  simpa using c.callArg_append []

/-- A call is told by how its text begins. -/
theorem eq_of_append {c c' : Call} {s s' : List Char} (same : c.text ++ s = c'.text ++ s') :
    c = c' := by
  have name : c.name = c'.name := by
    rw [← c.callName_append s, same, c'.callName_append]
  have arg : c.arg = c'.arg := by
    rw [← c.callArg_append s, same, c'.callArg_append]
  cases c
  cases c'
  cases name
  cases arg
  rfl

/-- The brace that opens a call is its only one. -/
theorem tail_ne_brace : ∀ d ∈ c.text.tail, d ≠ '{' := by
  intro d member
  simp only [text, List.tail_cons, List.mem_append, List.mem_cons, List.not_mem_nil, or_false]
    at member
  rcases member with inside | rfl | inside | rfl | rfl
  · rintro rfl
    exact absurd (c.word _ inside) (by decide)
  · decide
  · exact (c.whole d inside).2
  · decide
  · decide

end Call

theorem callPattern_text (c : Call) (prev : Option Char) (s : List Char) :
    callPattern prev (c.text ++ s) = some c.text.length := by
  rw [c.text_append]
  unfold callPattern
  dsimp only
  rw [c.takeWhile_name, c.dropWhile_name]
  dsimp only
  rw [c.takeWhile_arg, c.dropWhile_arg]
  simp [c.named, Call.text]
  omega

namespace Atom

/-- The formula that the entrance logic puts in the place of an atom. -/
def wrapped (ret : Call → Returned) : Atom → Requires Leaf true
  | leaf l => .atom l
  | call c => (ret c).wrapped

/-- The formula that the engine puts in the place of an atom. -/
def spliced (ret : Call → Returned) : Atom → Requires Leaf true
  | leaf l => .atom l
  | call c => (ret c).formula

/-- The value of an atom. -/
def value (ret : Call → Returned) (held : String → ℕ) : Atom → Bool
  | leaf l => l.value held
  | call c => (ret c).meaning held

end Atom

theorem meaning_wrapped (ret : Call → Returned) (held : String → ℕ) (e : Requires Atom b) :
    (e.bind (Atom.wrapped ret)).meaning Connective.apply (Leaf.value held) =
      e.meaning Connective.apply (Atom.value ret held) := by
  rw [Formula.meaning_bind]
  congr 1
  funext a
  cases a with
  | leaf l => rfl
  | call c =>
      simp only [Atom.wrapped, Atom.value, Returned.meaning]
      cases ret c <;> rfl

theorem meaning_spliced (ret : Call → Returned) (held : String → ℕ) (e : Requires Atom b) :
    (e.bind (Atom.spliced ret)).meaning Connective.apply (Leaf.value held) =
      e.meaning Connective.apply (Atom.value ret held) := by
  rw [Formula.meaning_bind]
  congr 1
  funext a
  cases a <;> rfl

/-- The number of calls in a row of lexemes. -/
def callCount : List (Lexeme Atom Connective Blank Written) → ℕ
  | [] => 0
  | .atom (.call _) :: l => callCount l + 1
  | _ :: l => callCount l

theorem ItemToken.Tame.braceless {t : ItemToken} (tame : t.Tame) : ∀ c ∈ t.text, c ≠ '{' := by
  intro c member
  rcases List.mem_cons.1 member with rfl | inside
  · decide
  rcases List.mem_append.1 inside with inside | last
  · unfold body at inside
    cases count : t.count with
    | none =>
        rw [count] at inside
        exact (tame.ordinary c inside).2.2
    | some n =>
        rw [count] at inside
        rcases List.mem_append.1 inside with inside | inside
        · exact (tame.ordinary c inside).2.2
        · rcases List.mem_cons.1 inside with rfl | digits
          · decide
          · exact toString_ne n (by decide) c digits
  · rw [List.mem_singleton.1 last]
    decide

section Splicing

variable {env : Setup} {ret : Call → Returned}

/-- The text that the entrance logic puts in the place of a call. -/
theorem callValue_text {c : Call} (returns : env.Returns c (ret c)) :
    env.callValue c.text = (Atom.wrapped ret (.call c)).text Leaf.text := by
  unfold Setup.callValue
  rw [c.callName_text, c.callArg_text, returns.stripped]
  simp only [Atom.wrapped]
  cases ret c with
  | truth value => cases value <;> rfl
  | requires e =>
      simp only [Returned.result]
      rw [if_neg (text_ne_nil Leaf.text_ne_nil e)]
      simp [Returned.wrapped, Requires.text, Formula.lexemes, writeLexeme]

/-- A formula whose items have no brace writes none. -/
theorem text_braceless {e : Requires Leaf b} (items : ∀ t, .item t ∈ e.atoms → t.Tame) :
    ∀ c ∈ e.text Leaf.text, c ≠ '{' := by
  intro c member
  obtain ⟨x, here, inside⟩ := List.mem_flatMap.1 member
  cases x with
  | opening pad => exact (writeLexeme_ne _ (by simp) inside).2
  | closing pad => exact (writeLexeme_ne _ (by simp) inside).2
  | op o w => exact (writeLexeme_ne _ (by simp) inside).2
  | atom l =>
      cases l with
      | item t => exact (items t (Formula.mem_atoms.2 here)).braceless c inside
      | lit value =>
          rw [List.mem_singleton.1 inside]
          exact (digit_ne value).2

/-- A lexeme other than a call is the same before and after the splicing. -/
theorem write_bind_of_leaf (put : Atom → Requires Leaf true) (leaves : ∀ l, put (.leaf l) = .atom l)
    {x : Lexeme Atom Connective Blank Written} (no_call : ∀ c, x ≠ .atom (.call c)) :
    (x.bind fun a => (put a).lexemes).flatMap (writeLexeme Leaf.text) = writeLexeme Atom.text x := by
  cases x with
  | opening pad => exact List.append_nil _
  | closing pad => exact List.append_nil _
  | op o w => exact List.append_nil _
  | atom a =>
      cases a with
      | leaf l =>
          simp only [Lexeme.bind, leaves]
          exact List.append_nil _
      | call c => exact absurd rfl (no_call c)

theorem callPattern_unmatched {u s : List Char} (braceless : ∀ c ∈ u, c ≠ '{') :
    ∀ v, v ≠ [] → v <:+ u → ∀ prev, callPattern prev (v ++ s) = none := by
  intro v nonempty suffix prev
  obtain ⟨c, v, rfl⟩ := List.exists_cons_of_ne_nil nonempty
  exact callPattern_of_ne (braceless c (suffix.subset List.mem_cons_self)) prev _

theorem search_callPattern {u s : List Char} (braceless : ∀ c ∈ u, c ≠ '{') (c : Call) :
    search callPattern none (u ++ (c.text ++ s)) = some (u, c.text, s) := by
  obtain ⟨prev, found⟩ := search_append (callPattern_unmatched (s := c.text ++ s) braceless) none
  rw [found, search_hit c.text_ne_nil (callPattern_text c · s) prev, Option.map_some,
    List.append_nil]

/-- No call is left in a text without braces. -/
theorem spliceCalls_braceless {u : List Char} (braceless : ∀ c ∈ u, c ≠ '{') (rounds : ℕ) :
    env.spliceCalls rounds u = u := by
  cases rounds with
  | zero => rfl
  | succ rounds =>
      obtain ⟨prev, found⟩ := search_append (callPattern_unmatched (s := []) braceless) none
      rw [List.append_nil] at found
      rw [Setup.spliceCalls, found]
      rfl

/-- The rounds splice the calls from left to right. -/
theorem spliceCalls_row (rounds : ℕ) {done : List Char} (braceless : ∀ c ∈ done, c ≠ '{')
    (l : List (Lexeme Atom Connective Blank Written)) (few : callCount l ≤ rounds)
    (items : ∀ t, .atom (.leaf (.item t)) ∈ l → t.Tame)
    (returns : ∀ c, .atom (.call c) ∈ l → env.Returns c (ret c) ∧
      ∀ t, .item t ∈ (Atom.wrapped ret (.call c)).atoms → t.Tame) :
    env.spliceCalls rounds (done ++ l.flatMap (writeLexeme Atom.text)) =
      done ++ l.flatMap fun x =>
        (x.bind fun a => (Atom.wrapped ret a).lexemes).flatMap (writeLexeme Leaf.text) := by
  induction l generalizing done rounds with
  | nil =>
      simp only [List.flatMap_nil, List.append_nil]
      exact spliceCalls_braceless braceless rounds
  | cons x l ih =>
      have later_items : ∀ t, .atom (.leaf (.item t)) ∈ l → t.Tame := fun t member =>
        items t (List.mem_cons_of_mem x member)
      have later_returns : ∀ c, .atom (.call c) ∈ l → env.Returns c (ret c) ∧
          ∀ t, .item t ∈ (Atom.wrapped ret (.call c)).atoms → t.Tame := fun c member =>
        returns c (List.mem_cons_of_mem x member)
      have extended {u : List Char} (bare : ∀ c ∈ u, c ≠ '{') : ∀ c ∈ done ++ u, c ≠ '{' := by
        intro c member
        rcases List.mem_append.1 member with earlier | here
        · exact braceless c earlier
        · exact bare c here
      have pass (no_call : ∀ c, x ≠ .atom (.call c)) (few : callCount l ≤ rounds)
          (bare : ∀ c ∈ writeLexeme Atom.text x, c ≠ '{') :
          env.spliceCalls rounds (done ++ (x :: l).flatMap (writeLexeme Atom.text)) =
            done ++ (x :: l).flatMap fun x =>
              (x.bind fun a => (Atom.wrapped ret a).lexemes).flatMap (writeLexeme Leaf.text) := by
        have rest := ih rounds (extended bare) few later_items later_returns
        rw [List.flatMap_cons, List.flatMap_cons,
          write_bind_of_leaf (Atom.wrapped ret) (fun _ => rfl) no_call, ← List.append_assoc,
          ← List.append_assoc]
        exact rest
      cases x with
      | opening pad => exact pass (by simp) few fun c member => (writeLexeme_ne _ (by simp) member).2
      | closing pad => exact pass (by simp) few fun c member => (writeLexeme_ne _ (by simp) member).2
      | op o w => exact pass (by simp) few fun c member => (writeLexeme_ne _ (by simp) member).2
      | atom a =>
          cases a with
          | leaf leaf =>
              refine pass (by simp) few ?_
              cases leaf with
              | item t => exact (items t List.mem_cons_self).braceless
              | lit value =>
                  intro c member
                  rw [List.mem_singleton.1 member]
                  exact (digit_ne value).2
          | call c =>
              obtain ⟨answers, tame⟩ := returns c List.mem_cons_self
              cases rounds with
              | zero => exact absurd few (Nat.not_succ_le_zero _)
              | succ rounds =>
                  have rest := ih rounds (extended (text_braceless tame)) (Nat.le_of_succ_le_succ few)
                    later_items later_returns
                  have found : search callPattern none (done ++
                      (writeLexeme Atom.text (.atom (.call c)) ++ l.flatMap (writeLexeme Atom.text))) =
                        some (done, c.text, l.flatMap (writeLexeme Atom.text)) :=
                    search_callPattern braceless c
                  rw [List.flatMap_cons, List.flatMap_cons, Setup.spliceCalls, found]
                  dsimp only
                  rw [callValue_text answers, ← List.append_assoc]
                  exact rest

/-- The entrance logic splices the calls of a formula. -/
theorem spliceCalls_text (rounds : ℕ) (e : Requires Atom b) (few : callCount e.lexemes ≤ rounds)
    (items : ∀ t, .leaf (.item t) ∈ e.atoms → t.Tame)
    (returns : ∀ c, .call c ∈ e.atoms → env.Returns c (ret c) ∧
      ∀ t, .item t ∈ (ret c).formula.atoms → t.Tame) :
    env.spliceCalls rounds (e.text Atom.text) =
      Requires.text Leaf.text (e.bind (Atom.wrapped ret)) := by
  have row := @spliceCalls_row env ret rounds [] (List.forall_mem_nil _) e.lexemes few
    (fun t member => items t (Formula.mem_atoms.2 member)) (fun c member => by
      obtain ⟨answers, tame⟩ := returns c (Formula.mem_atoms.2 member)
      refine ⟨answers, fun t inside => tame t ?_⟩
      simp only [Atom.wrapped] at inside
      revert inside
      cases ret c <;> exact id)
  rw [text_bind]
  exact row

/-! ## The engine's replacements -/

/-- The results of the calls of one text in their places. -/
def Atom.putCall (ret : Call → Returned) (u : List Char) : Atom → Requires Atom true
  | leaf l => .atom (.leaf l)
  | call c => if c.text = u then (ret c).formula.map .leaf else .atom (.call c)

theorem spliced_result (r : Returned) : r.result.spliced = Requires.text Leaf.text r.formula := by
  cases r with
  | truth value => cases value <;> rfl
  | requires e => rfl

theorem text_leaf (e : Requires Leaf b) :
    Requires.text Atom.text (e.map Atom.leaf) = Requires.text Leaf.text e := by
  rw [text_map]
  unfold Requires.text
  congr 1
  funext x
  cases x <;> rfl

/-- The pieces of a lexeme for the text of one call. -/
def callPieces (u : List Char) : Lexeme Atom Connective Blank Written → List Piece
  | .atom (.call c) => if c.text = u then [.hit u] else c.text.map .plain
  | x => (writeLexeme Atom.text x).map .plain

theorem reads_call (c : Call) {x : Lexeme Atom Connective Blank Written} (s : List Char)
    (items : ∀ t, x = .atom (.leaf (.item t)) → t.Tame) :
    Reads (literal c.text) (writeLexeme Atom.text x) (callPieces c.text x) s := by
  have plain (bare : ∀ c ∈ writeLexeme Atom.text x, c ≠ '{') :
      Reads (literal c.text) (writeLexeme Atom.text x) ((writeLexeme Atom.text x).map .plain) s := by
    apply reads_plain
    intro v nonempty suffix prev
    obtain ⟨d, v, rfl⟩ := List.exists_cons_of_ne_nil nonempty
    exact literal_of_ne (bare d (suffix.subset List.mem_cons_self)) prev _
  cases x with
  | opening pad => exact plain fun c member => (writeLexeme_ne _ (by simp) member).2
  | closing pad => exact plain fun c member => (writeLexeme_ne _ (by simp) member).2
  | op o w => exact plain fun c member => (writeLexeme_ne _ (by simp) member).2
  | atom a =>
      cases a with
      | leaf leaf =>
          cases leaf with
          | item t => exact plain (items t rfl).braceless
          | lit value =>
              refine plain fun c member => ?_
              rw [List.mem_singleton.1 member]
              exact (digit_ne value).2
      | call c' =>
          by_cases same : c'.text = c.text
          · simp only [callPieces, if_pos same]
            change Reads (literal c.text) c'.text [.hit c.text] _
            rw [same]
            exact reads_hit c.text_ne_nil fun prev => literal_text c.text prev _
          · simp only [callPieces, if_neg same]
            apply reads_plain
            intro v nonempty suffix prev
            rcases List.suffix_cons_iff.1 suffix with rfl | inside
            · have not_begins : ¬ c.text <+: c'.text ++ s := by
                rintro ⟨r, begins⟩
                exact same (by rw [Call.eq_of_append begins])
              change literal c.text prev (c'.text ++ s) = none
              simp [literal, not_begins]
            · obtain ⟨d, v, rfl⟩ := List.exists_cons_of_ne_nil nonempty
              exact literal_of_ne (c'.tail_ne_brace d (inside.subset List.mem_cons_self)) prev _

/-- Replacing the text of a call puts its result in its place. -/
theorem replaceAll_call (c : Call) (e : Requires Atom b)
    (items : ∀ t, .leaf (.item t) ∈ e.atoms → t.Tame) :
    replaceAll c.text (ret c).result.spliced (e.text Atom.text) =
      Requires.text Atom.text (e.bind (Atom.putCall ret c.text)) := by
  rw [text_bind]
  refine (substitute_flatMap (fun x l suffix => reads_call c _ fun t here => items t
    (Formula.mem_atoms.2 (by rw [← here]; exact suffix.subset List.mem_cons_self))) _).trans ?_
  congr 1
  funext x
  cases x with
  | opening pad => exact (replace_plain _ _).trans (List.append_nil _).symm
  | closing pad => exact (replace_plain _ _).trans (List.append_nil _).symm
  | op o w => exact (replace_plain _ _).trans (List.append_nil _).symm
  | atom a =>
      cases a with
      | leaf l => exact (replace_plain _ _).trans (List.append_nil _).symm
      | call c' =>
          by_cases same : c'.text = c.text
          · obtain rfl : c' = c := Call.eq_of_append (show c'.text ++ [] = c.text ++ [] by rw [same])
            simp only [callPieces, if_pos, replace_hit, Lexeme.bind, Atom.putCall]
            exact (spliced_result (ret c')).trans (text_leaf (ret c').formula).symm
          · simp only [callPieces, if_neg same, Lexeme.bind, Atom.putCall]
            exact (replace_plain _ _).trans (List.append_nil _).symm

theorem replaceCall_text {c : Call} (returns : env.Returns c (ret c)) (e : Requires Atom b)
    (items : ∀ t, .leaf (.item t) ∈ e.atoms → t.Tame) :
    env.replaceCall (e.text Atom.text) c.text =
      some (Requires.text Atom.text (e.bind (Atom.putCall ret c.text))) := by
  unfold Setup.replaceCall
  rw [c.callName_text, c.callArg_text, returns.plain, Option.map_some, replaceAll_call c e items]

theorem spliced_putCall (u : List Char) (e : Requires Atom b) :
    (e.bind (Atom.putCall ret u)).bind (Atom.spliced ret) = e.bind (Atom.spliced ret) := by
  rw [Formula.bind_bind]
  congr 1
  funext a
  cases a with
  | leaf l => rfl
  | call c =>
      simp only [Atom.putCall]
      split_ifs
      · unfold Formula.map
        rw [Formula.bind_bind]
        exact Formula.bind_atom _
      · rfl

/-- The engine splices the calls one text after the other. -/
theorem foldlM_replaceCall {cs : List Call} (e : Requires Atom b)
    (returns : ∀ c ∈ cs, env.Returns c (ret c) ∧ ∀ t, .item t ∈ (ret c).formula.atoms → t.Tame)
    (items : ∀ t, .leaf (.item t) ∈ e.atoms → t.Tame) (all : ∀ c, .call c ∈ e.atoms → c ∈ cs) :
    (cs.map Call.text).foldlM env.replaceCall (e.text Atom.text) =
      some (Requires.text Leaf.text (e.bind (Atom.spliced ret))) := by
  induction cs generalizing e with
  | nil =>
      have same : e.text Atom.text = Requires.text Leaf.text (e.bind (Atom.spliced ret)) := by
        rw [text_bind]
        apply List.flatMap_congr
        intro x member
        refine (write_bind_of_leaf (Atom.spliced ret) (fun _ => rfl) ?_).symm
        rintro c rfl
        cases all c (Formula.mem_atoms.2 member)
      rw [same]
      rfl
  | cons c cs ih =>
      obtain ⟨answers, tame⟩ := returns c List.mem_cons_self
      have origin {a : Atom} (member : a ∈ (e.bind (Atom.putCall ret c.text)).atoms) :
          ∃ a' ∈ e.atoms, a ∈ (a'.putCall ret c.text).atoms := by
        rw [Formula.atoms_bind] at member
        exact List.mem_flatMap.1 member
      have later_items : ∀ t, .leaf (.item t) ∈ (e.bind (Atom.putCall ret c.text)).atoms →
          t.Tame := by
        intro t member
        obtain ⟨a, inside, here⟩ := origin member
        cases a with
        | leaf l => exact items t (by rw [List.mem_singleton.1 here]; exact inside)
        | call c' =>
            simp only [Atom.putCall] at here
            split_ifs at here with same
            · obtain rfl : c' = c := Call.eq_of_append (show c'.text ++ [] = c.text ++ [] by rw [same])
              obtain ⟨l, member, put⟩ := mem_atoms_map.1 here
              cases put
              exact tame t member
            · cases List.mem_singleton.1 here
      have later_all : ∀ c', .call c' ∈ (e.bind (Atom.putCall ret c.text)).atoms → c' ∈ cs := by
        intro c' member
        obtain ⟨a, inside, here⟩ := origin member
        cases a with
        | leaf l => cases List.mem_singleton.1 here
        | call c'' =>
            simp only [Atom.putCall] at here
            split_ifs at here with same
            · obtain ⟨l, -, put⟩ := mem_atoms_map.1 here
              cases put
            · cases List.mem_singleton.1 here
              rcases List.mem_cons.1 (all _ inside) with rfl | later
              · exact absurd rfl same
              · exact later
      have rest := ih _ (fun c' member => returns c' (List.mem_cons_of_mem c member)) later_items
        later_all
      rw [spliced_putCall] at rest
      rw [List.map_cons, List.foldlM_cons, replaceCall_text answers e items]
      exact rest

end Splicing

def callsOf : Lexeme Atom Connective Blank Written → List Call
  | .atom (.call c) => [c]
  | _ => []

/-- The pieces of a lexeme for the call pattern. -/
def patternPieces : Lexeme Atom Connective Blank Written → List Piece
  | .atom (.call c) => [.hit c.text]
  | x => (writeLexeme Atom.text x).map .plain

/-- The engine finds the calls of a formula. -/
theorem findAll_calls (e : Requires Atom b) (items : ∀ t, .leaf (.item t) ∈ e.atoms → t.Tame) :
    findAll callPattern (e.text Atom.text) = (e.lexemes.flatMap callsOf).map Call.text := by
  have reads : ∀ x rest, x :: rest <:+ e.lexemes → Reads callPattern (writeLexeme Atom.text x)
      (patternPieces x) (rest.flatMap (writeLexeme Atom.text)) := by
    intro x rest suffix
    have here : x ∈ e.lexemes := suffix.subset List.mem_cons_self
    have plain (bare : ∀ c ∈ writeLexeme Atom.text x, c ≠ '{') := reads_plain
      (callPattern_unmatched (s := rest.flatMap (writeLexeme Atom.text)) bare)
    cases x with
    | opening pad => exact plain fun c member => (writeLexeme_ne _ (by simp) member).2
    | closing pad => exact plain fun c member => (writeLexeme_ne _ (by simp) member).2
    | op o w => exact plain fun c member => (writeLexeme_ne _ (by simp) member).2
    | atom a =>
        cases a with
        | call c => exact reads_hit c.text_ne_nil fun prev => callPattern_text c prev _
        | leaf leaf =>
            cases leaf with
            | item t => exact plain (items t (Formula.mem_atoms.2 here)).braceless
            | lit value =>
                refine plain fun c member => ?_
                rw [List.mem_singleton.1 member]
                exact (digit_ne value).2
  have pieces : scan callPattern 0 none (e.text Atom.text) = e.lexemes.flatMap patternPieces :=
    scan_flatMap reads none
  unfold findAll
  rw [pieces, List.filterMap_flatMap, List.map_flatMap]
  congr 1
  funext x
  cases x with
  | opening pad => exact hits_plain _
  | closing pad => exact hits_plain _
  | op o w => exact hits_plain _
  | atom a =>
      cases a with
      | leaf l => exact hits_plain _
      | call c => rfl

theorem mem_calls {e : Requires Atom b} {c : Call} :
    c ∈ e.lexemes.flatMap callsOf ↔ .call c ∈ e.atoms := by
  rw [Formula.mem_atoms, List.mem_flatMap]
  constructor
  · rintro ⟨x, member, here⟩
    cases x with
    | atom a =>
        cases a with
        | leaf l => cases here
        | call c' =>
            rw [List.mem_singleton.1 here]
            exact member
    | opening pad => cases here
    | closing pad => cases here
    | op o w => cases here
  · intro member
    exact ⟨_, member, List.mem_cons_self⟩

theorem Atom.text_ne_nil (a : Atom) : a.text ≠ [] := by
  cases a with
  | leaf l => exact l.text_ne_nil
  | call c => exact c.text_ne_nil

/-- A requirement string of the grammar: its item names are tame, and the rule functions
answer its calls, at most sixteen of them, by truth values or closed formulas. -/
structure Grammatical (env : Setup) (ret : Call → Returned) (e : Requires Atom b) : Prop where
  items : ∀ t, .leaf (.item t) ∈ e.atoms → t.Tame
  returns : ∀ c, .call c ∈ e.atoms → env.Returns c (ret c)
  results : ∀ c, .call c ∈ e.atoms → ∀ t, .item t ∈ (ret c).formula.atoms → t.Tame
  few : callCount e.lexemes ≤ 16

section Agreement

variable {env : Setup} {ret : Call → Returned} {e : Requires Atom b}

/-- The engine gives a string of the grammar its meaning. -/
theorem checkRequireString_text (held : String → ℕ) (grammatical : Grammatical env ret e) :
    env.checkRequireString held (e.text Atom.text) =
      some (e.meaning Connective.apply (Atom.value ret held)) := by
  have spliced := foldlM_replaceCall e
    (fun c (member : c ∈ e.lexemes.flatMap callsOf) =>
      ⟨grammatical.returns c (mem_calls.1 member), grammatical.results c (mem_calls.1 member)⟩)
    grammatical.items (fun c member => mem_calls.2 member)
  have tame : ∀ t, .item t ∈ (e.bind (Atom.spliced ret)).atoms → t.Tame := by
    intro t member
    rw [Formula.atoms_bind] at member
    obtain ⟨a, inside, here⟩ := List.mem_flatMap.1 member
    cases a with
    | leaf l => exact grammatical.items t (by rw [List.mem_singleton.1 here]; exact inside)
    | call c => exact grammatical.results c inside t here
  unfold Setup.checkRequireString
  rw [if_neg (text_ne_nil Atom.text_ne_nil e), findAll_calls e grammatical.items, spliced,
    Option.bind_some, engine_items env held tame, meaning_spliced]

/-- So does the entrance logic, and what it hands to the parser does parse. -/
theorem evaluateFullRequires_text (held : String → ℕ) (grammatical : Grammatical env ret e) :
    env.evaluateFullRequires held (e.text Atom.text) =
        some (e.meaning Connective.apply (Atom.value ret held)) ∧
      ∃ text, interiorText held (env.spliceCalls 16 (e.text Atom.text)) = some text ∧ text ≠ [] ∧
        evaluateInfix text = some (e.meaning Connective.apply (Atom.value ret held)) := by
  have spliced := spliceCalls_text 16 e grammatical.few grammatical.items fun c member =>
    ⟨grammatical.returns c member, grammatical.results c member⟩
  rw [spliced, ← meaning_wrapped]
  refine ⟨?_, interiorText_parses held _⟩
  unfold Setup.evaluateFullRequires
  rw [if_neg (text_ne_nil Atom.text_ne_nil e), spliced, evaluateInteriorRequires_text]

end Agreement

/-- On every string of the grammar the two readers agree with the meaning of the formula, and
the entrance logic never falls back on its answer for malformed strings. -/
theorem readers_agree (env : Setup) (ret : Call → Returned) (held : String → ℕ) {b : Bool}
    (e : Requires Atom b) (grammatical : Grammatical env ret e) :
    env.checkRequireString held (e.text Atom.text) =
        some (e.meaning Connective.apply (Atom.value ret held)) ∧
      env.evaluateFullRequires held (e.text Atom.text) =
        some (e.meaning Connective.apply (Atom.value ret held)) ∧
      ∃ text, interiorText held (env.spliceCalls 16 (e.text Atom.text)) = some text ∧ text ≠ [] ∧
        evaluateInfix text = some (e.meaning Connective.apply (Atom.value ret held)) :=
  ⟨checkRequireString_text held grammatical, evaluateFullRequires_text held grammatical⟩

/-! ## Two strings -/

/-- The token of a name that reads like what stands between two parentheses. -/
def bracketToken : ItemToken where
  name := ") and (".toList
  named := by decide
  whole := List.forall_iff_forall_mem.1 (by decide)
  stripped := by decide

def frogToken : ItemToken where
  name := "Frog".toList
  named := by decide
  whole := List.forall_iff_forall_mem.1 (by decide)
  stripped := by decide

def spaced (o : Connective) : Written o where
  chars := o.word
  spelled := by cases o <;> decide

/-- `|) and (| or (|Frog|) and (|Frog|)`. -/
def bracketFormula : Requires Atom false :=
  .chain (.chain (.atom (.leaf (.item bracketToken))) .or (spaced .or)
    (.group {} (.atom (.leaf (.item frogToken))) {})) .and (spaced .and)
    (.group {} (.atom (.leaf (.item frogToken))) {})

/-- A setup whose one rule function answers with an item. -/
def frogSetup : Setup where
  itemsCounts := fun _ => 1
  categoryItems := fun _ => []
  hooks := fun _ _ => some (.text "|Frog|".toList)
  percentOf := fun _ _ => none

def frogAnswer (_ : Call) : Returned := .requires (.atom (.item frogToken))

/-- The engine replaces the first name between the parentheses of the others too, and what
is left does not parse. -/
theorem bracketFormula_disagrees :
    (∀ t, .leaf (.item t) ∈ bracketFormula.atoms → ∀ c ∈ t.name, c ≠ '@' ∧ c ≠ '$') ∧
      frogSetup.checkRequireString (fun _ => 1) (bracketFormula.text Atom.text) = none ∧
      frogSetup.evaluateFullRequires (fun _ => 1) (bracketFormula.text Atom.text) = some true := by
  refine ⟨?_, by decide +kernel, by decide +kernel⟩
  have plain : ∀ t ∈ [bracketToken, frogToken], ∀ c ∈ t.name, c ≠ '@' ∧ c ≠ '$' := by
    intro t member
    simp only [List.mem_cons, List.not_mem_nil, or_false] at member
    rcases member with rfl | rfl <;> exact List.forall_iff_forall_mem.1 (by decide)
  intro t member
  apply plain t
  simpa [bracketFormula, Formula.atoms] using member

/-- `{Door(Sand)} and |Frog|`. -/
def doorFormula : Requires Atom false :=
  .chain (.atom (.call
    { name := "Door".toList
      arg := "Sand".toList
      named := by decide
      word := List.forall_iff_forall_mem.1 (by decide)
      whole := List.forall_iff_forall_mem.1 (by decide) })) .and (spaced .and)
    (.atom (.leaf (.item frogToken)))

theorem frogToken_tame : frogToken.Tame where
  ordinary := List.forall_iff_forall_mem.1 (by decide)
  opening := by decide

theorem doorFormula_agrees :
    frogSetup.checkRequireString (fun _ => 1) (doorFormula.text Atom.text) = some true ∧
      frogSetup.evaluateFullRequires (fun _ => 1) (doorFormula.text Atom.text) = some true := by
  have agree := readers_agree frogSetup frogAnswer (fun _ => 1) doorFormula
    { items := by
        intro t member
        have here : t = frogToken := by simpa [doorFormula, Formula.atoms] using member
        exact here ▸ frogToken_tame
      returns := fun c _ => ⟨rfl, rfl⟩
      results := by
        intro c _ t member
        have here : t = frogToken := by
          simpa [frogAnswer, Returned.formula, Formula.atoms] using member
        exact here ▸ frogToken_tame
      few := by decide }
  exact ⟨agree.1, agree.2.1⟩

end SmoArchipelago.World
