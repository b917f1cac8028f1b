import Mathlib

/-! # Formulas of equal precedence

Formulas in which every operator binds alike and to the left, with the layout that they are
written in. A formula is written as a row of lexemes; what may stand beside what in such a
row is all that a reader of it needs. -/

namespace SmoArchipelago.Library

/-- A formula over atoms, laid out with paddings inside its parentheses and a setting of
each operator. The flag tells whether it is closed: an atom or a parenthesis. -/
inductive Formula (α θ κ : Type) (ω : θ → Type) : Bool → Type
  | atom (a : α) : Formula α θ κ ω true
  | group {b : Bool} (pad : κ) (e : Formula α θ κ ω b) (pad' : κ) : Formula α θ κ ω true
  | chain {b : Bool} (e : Formula α θ κ ω b) (o : θ) (setting : ω o) (t : Formula α θ κ ω true) :
      Formula α θ κ ω false

inductive Lexeme (α θ κ : Type) (ω : θ → Type)
  | opening (pad : κ)
  | closing (pad : κ)
  | atom (a : α)
  | op (o : θ) (setting : ω o)

namespace Formula

variable {α α' β θ κ : Type} {ω : θ → Type} {b : Bool}

/-- The value, where operators of the same level are applied from left to right. -/
def meaning (apply : θ → β → β → β) (value : α → β) : {b : Bool} → Formula α θ κ ω b → β
  | _, atom a => value a
  | _, group _ e _ => e.meaning apply value
  | _, chain e o _ t => apply o (e.meaning apply value) (t.meaning apply value)

def lexemes : {b : Bool} → Formula α θ κ ω b → List (Lexeme α θ κ ω)
  | _, atom a => [.atom a]
  | _, group pad e pad' => .opening pad :: (e.lexemes ++ [.closing pad'])
  | _, chain e o setting t => e.lexemes ++ .op o setting :: t.lexemes

def atoms : {b : Bool} → Formula α θ κ ω b → List α
  | _, atom a => [a]
  | _, group _ e _ => e.atoms
  | _, chain e _ _ t => e.atoms ++ t.atoms

/-- Put a closed formula in the place of each atom. -/
def bind (g : α → Formula α' θ κ ω true) : {b : Bool} → Formula α θ κ ω b → Formula α' θ κ ω b
  | _, atom a => g a
  | _, group pad e pad' => group pad (e.bind g) pad'
  | _, chain e o setting t => chain (e.bind g) o setting (t.bind g)

theorem meaning_bind (apply : θ → β → β → β) (value : α' → β) (g : α → Formula α' θ κ ω true)
    (e : Formula α θ κ ω b) :
    (e.bind g).meaning apply value = e.meaning apply fun a => (g a).meaning apply value := by
  induction e with
  | atom a => rfl
  | group pad e pad' ih => exact ih
  | chain e o setting t ih ih' => exact congrArg₂ (apply o) ih ih'

theorem bind_bind {α'' : Type} (g : α → Formula α' θ κ ω true) (g' : α' → Formula α'' θ κ ω true)
    (e : Formula α θ κ ω b) : (e.bind g).bind g' = e.bind fun a => (g a).bind g' := by
  induction e with
  | atom a => rfl
  | group pad e pad' ih => exact congrArg (group pad · pad') ih
  | chain e o setting t ih ih' => exact congrArg₂ (chain · o setting ·) ih ih'

theorem bind_congr {g g' : α → Formula α' θ κ ω true} {e : Formula α θ κ ω b}
    (same : ∀ a ∈ e.atoms, g a = g' a) : e.bind g = e.bind g' := by
  induction e with
  | atom a => exact same a List.mem_cons_self
  | group pad e pad' ih => exact congrArg (group pad · pad') (ih same)
  | chain e o setting t ih ih' =>
      have left := ih fun a member => same a (List.mem_append_left _ member)
      have right := ih' fun a member => same a (List.mem_append_right _ member)
      exact congrArg₂ (chain · o setting ·) left right

theorem bind_atom (e : Formula α θ κ ω b) : e.bind atom = e := by
  induction e with
  | atom a => rfl
  | group pad e pad' ih => exact congrArg (group pad · pad') ih
  | chain e o setting t ih ih' => exact congrArg₂ (chain · o setting ·) ih ih'

/-- Other atoms in the place of the atoms. -/
def map (f : α → α') (e : Formula α θ κ ω b) : Formula α' θ κ ω b := e.bind fun a => atom (f a)

theorem atoms_bind (g : α → Formula α' θ κ ω true) (e : Formula α θ κ ω b) :
    (e.bind g).atoms = e.atoms.flatMap fun a => (g a).atoms := by
  induction e with
  | atom a => exact (List.append_nil _).symm
  | group pad e pad' ih => exact ih
  | chain e o setting t ih ih' =>
      rw [bind, atoms, ih, ih', atoms, List.flatMap_append]

end Formula

namespace Lexeme

variable {α α' θ κ : Type} {ω : θ → Type} {b : Bool}

/-- A formula may begin with it. -/
def Begins : Lexeme α θ κ ω → Prop
  | opening _ | atom _ => True
  | closing _ | op _ _ => False

/-- A formula may end with it. -/
def Ends : Lexeme α θ κ ω → Prop
  | closing _ | atom _ => True
  | opening _ | op _ _ => False

/-- What may stand to the right of what. -/
def Adjacent (x y : Lexeme α θ κ ω) : Prop := (x.Ends → ¬ y.Begins) ∧ (¬ x.Ends → y.Begins)

/-- Put a row of lexemes in the place of each atom. -/
def bind (g : α → List (Lexeme α' θ κ ω)) : Lexeme α θ κ ω → List (Lexeme α' θ κ ω)
  | opening pad => [opening pad]
  | closing pad => [closing pad]
  | atom a => g a
  | op o setting => [op o setting]

def map (f : α → α') : Lexeme α θ κ ω → Lexeme α' θ κ ω
  | opening pad => opening pad
  | closing pad => closing pad
  | atom a => atom (f a)
  | op o setting => op o setting

end Lexeme

namespace Formula

variable {α α' θ κ : Type} {ω : θ → Type} {b : Bool}

theorem lexemes_bind (g : α → Formula α' θ κ ω true) (e : Formula α θ κ ω b) :
    (e.bind g).lexemes = e.lexemes.flatMap (Lexeme.bind fun a => (g a).lexemes) := by
  induction e with
  | atom a => exact (List.append_nil _).symm
  | group pad e pad' ih =>
      rw [bind, lexemes, ih, lexemes, List.flatMap_cons, List.flatMap_append]
      rfl
  | chain e o setting t ih ih' =>
      rw [bind, lexemes, ih, ih', lexemes, List.flatMap_append, List.flatMap_cons]
      rfl

theorem lexemes_map (f : α → α') (e : Formula α θ κ ω b) :
    (e.map f).lexemes = e.lexemes.map (Lexeme.map f) := by
  unfold map
  rw [lexemes_bind, List.map_eq_flatMap]
  congr 1
  funext x
  cases x <;> rfl

/-- The ends of a formula, and what stands between them. -/
theorem lexemes_row (e : Formula α θ κ ω b) :
    (∃ x l, e.lexemes = x :: l ∧ x.Begins) ∧ (∃ l x, e.lexemes = l ++ [x] ∧ x.Ends) ∧
      e.lexemes.IsChain Lexeme.Adjacent := by
  induction e with
  | atom a =>
      exact ⟨⟨_, [], rfl, trivial⟩, ⟨[], _, rfl, trivial⟩, List.isChain_singleton _⟩
  | group pad e pad' ih =>
      obtain ⟨⟨x, l, front, begins⟩, ⟨l', x', back, ends⟩, row⟩ := ih
      refine ⟨⟨_, _, rfl, trivial⟩, ⟨.opening pad :: e.lexemes, _, rfl, trivial⟩, ?_⟩
      have inner : (e.lexemes ++ [Lexeme.closing pad']).IsChain Lexeme.Adjacent := by
        refine row.append (List.isChain_singleton _) ?_
        intro y last z first
        rw [back, List.getLast?_append, List.getLast?_singleton] at last
        obtain rfl : x' = y := by simpa using last
        obtain rfl : Lexeme.closing pad' = z := by simpa using first
        exact ⟨fun _ => id, fun h => absurd ends h⟩
      rw [lexemes, List.isChain_cons]
      refine ⟨?_, inner⟩
      intro y first
      rw [front, List.cons_append, List.head?_cons] at first
      obtain rfl : x = y := by simpa using first
      exact ⟨fun h => h.elim, fun _ => begins⟩
  | chain e o setting t ih ih' =>
      obtain ⟨⟨x, l, front, begins⟩, ⟨l', x', back, ends⟩, row⟩ := ih
      obtain ⟨⟨y, m, front', begins'⟩, ⟨m', y', back', ends'⟩, row'⟩ := ih'
      refine ⟨⟨x, l ++ .op o setting :: t.lexemes, by rw [lexemes, front, List.cons_append],
        begins⟩, ⟨e.lexemes ++ .op o setting :: m', y', by simp [lexemes, back'], ends'⟩, ?_⟩
      refine row.append ?_ ?_
      · rw [List.isChain_cons]
        refine ⟨?_, row'⟩
        intro z first
        rw [front', List.head?_cons] at first
        obtain rfl : y = z := by simpa using first
        exact ⟨fun h => h.elim, fun _ => begins'⟩
      · intro z last w first
        rw [back, List.getLast?_append, List.getLast?_singleton] at last
        obtain rfl : x' = z := by simpa using last
        obtain rfl : Lexeme.op o setting = w := by simpa using first
        exact ⟨fun _ => id, fun h => absurd ends h⟩

/-- Behind each lexeme of a formula nothing stands, or what may. -/
theorem adjacent_of_suffix {e : Formula α θ κ ω b} {x y : Lexeme α θ κ ω}
    {l : List (Lexeme α θ κ ω)} (suffix : x :: y :: l <:+ e.lexemes) : x.Adjacent y := by
  have row := e.lexemes_row.2.2.suffix suffix
  exact (List.isChain_cons_cons.1 row).1

/-- A formula ends with an atom or a parenthesis. -/
theorem ends_of_suffix {e : Formula α θ κ ω b} {x : Lexeme α θ κ ω}
    (suffix : [x] <:+ e.lexemes) : x.Ends := by
  obtain ⟨l, y, back, ends⟩ := e.lexemes_row.2.1
  obtain ⟨front, whole⟩ := suffix
  rw [back] at whole
  obtain ⟨-, same⟩ := List.append_inj' whole rfl
  cases same
  exact ends

theorem mem_atoms {e : Formula α θ κ ω b} {a : α} : a ∈ e.atoms ↔ Lexeme.atom a ∈ e.lexemes := by
  induction e with
  | atom a' => simp [atoms, lexemes]
  | group pad e pad' ih => simp [atoms, lexemes, ih]
  | chain e o setting t ih ih' => simp [atoms, lexemes, ih, ih']

end Formula

end SmoArchipelago.Library
