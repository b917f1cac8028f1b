import Mathlib

/-! # Scanning a text for matches

A pattern is searched in a text from left to right and without overlaps. What the scan
finds is a list of pieces: the matches, and the characters that no match takes. Where a
text is printed part by part, the scan may be read off part by part too. -/

namespace SmoArchipelago.Library.TextScan

/-- The length of the match that begins a text, given the character before it. -/
abbrev Matcher := Option Char → List Char → Option ℕ

inductive Piece where
  | plain (c : Char)
  | hit (u : List Char)
  deriving DecidableEq

/-- The pieces of a text, of which some first characters belong to a match already. -/
def scan (m : Matcher) : ℕ → Option Char → List Char → List Piece
  | _, _, [] => []
  | skip + 1, _, c :: s => scan m skip (some c) s
  | 0, prev, c :: s =>
      match m prev (c :: s) with
      | some n => .hit ((c :: s).take n) :: scan m (n - 1) (some c) s
      | none => .plain c :: scan m 0 (some c) s

def Piece.hit? : Piece → Option (List Char)
  | plain _ => none
  | hit u => some u

def Piece.replace (rep : List Char → List Char) : Piece → List Char
  | plain c => [c]
  | hit u => rep u

/-- All matches, from left to right. -/
def findAll (m : Matcher) (s : List Char) : List (List Char) := (scan m 0 none s).filterMap Piece.hit?

/-- The text with each match replaced. -/
def substitute (m : Matcher) (rep : List Char → List Char) (s : List Char) : List Char :=
  (scan m 0 none s).flatMap (Piece.replace rep)

/-- The first match, with the text before and after it. -/
def search (m : Matcher) : Option Char → List Char → Option (List Char × List Char × List Char)
  | _, [] => none
  | prev, c :: s =>
      match m prev (c :: s) with
      | some n => some ([], (c :: s).take n, (c :: s).drop n)
      | none => (search m (some c) s).map fun found => (c :: found.1, found.2)

/-- The matcher of a fixed text. -/
def literal (old : List Char) : Matcher := fun _ s =>
  if old.isPrefixOf s then some old.length else none

def replaceAll (old new : List Char) : List Char → List Char := substitute (literal old) fun _ => new

/-- Without the characters of one kind at both ends. -/
def trim (drop : Char → Bool) (s : List Char) : List Char :=
  ((s.dropWhile drop).reverse.dropWhile drop).reverse

section Reading

variable {m : Matcher}

theorem scan_skip (u s : List Char) (prev : Option Char) :
    ∃ prev', scan m u.length prev (u ++ s) = scan m 0 prev' s := by
  induction u generalizing prev with
  | nil => exact ⟨prev, rfl⟩
  | cons c u ih =>
      obtain ⟨prev', rest⟩ := ih (some c)
      exact ⟨prev', rest⟩

/-- Whatever stands before it, a part of a text is scanned into the pieces, and the scan
goes on behind it. -/
def Reads (m : Matcher) (u : List Char) (pieces : List Piece) (s : List Char) : Prop :=
  ∀ prev, ∃ prev', scan m 0 prev (u ++ s) = pieces ++ scan m 0 prev' s

theorem reads_nil (s : List Char) : Reads m [] [] s := fun prev => ⟨prev, rfl⟩

theorem Reads.append {u v s : List Char} {pieces pieces' : List Piece}
    (first : Reads m u pieces (v ++ s)) (second : Reads m v pieces' s) :
    Reads m (u ++ v) (pieces ++ pieces') s := by
  intro prev
  obtain ⟨middle, here⟩ := first prev
  obtain ⟨prev', there⟩ := second middle
  exact ⟨prev', by rw [List.append_assoc, here, there, List.append_assoc]⟩

/-- A part that matches as a whole is one piece. -/
theorem reads_hit {u s : List Char} (nonempty : u ≠ [])
    (matched : ∀ prev, m prev (u ++ s) = some u.length) : Reads m u [.hit u] s := by
  intro prev
  obtain ⟨c, u, rfl⟩ := List.exists_cons_of_ne_nil nonempty
  obtain ⟨prev', rest⟩ := scan_skip (m := m) u s (some c)
  refine ⟨prev', ?_⟩
  have here : m prev (c :: (u ++ s)) = some (u.length + 1) := matched prev
  rw [List.cons_append, scan, here]
  simp [rest]

/-- A part in which no match begins is left as it is. -/
theorem reads_plain {u s : List Char}
    (unmatched : ∀ v, v ≠ [] → v <:+ u → ∀ prev, m prev (v ++ s) = none) :
    Reads m u (u.map .plain) s := by
  induction u with
  | nil => exact reads_nil s
  | cons c u ih =>
      intro prev
      obtain ⟨prev', rest⟩ := ih (fun v nonempty suffix =>
        unmatched v nonempty (suffix.trans (List.suffix_cons c u))) (some c)
      refine ⟨prev', ?_⟩
      have here : m prev (c :: (u ++ s)) = none :=
        unmatched (c :: u) (List.cons_ne_nil c u) List.suffix_rfl prev
      rw [List.cons_append, scan, here]
      simp [rest]

variable {ι : Type*} {print : ι → List Char}

/-- A text that is printed part by part is scanned part by part. -/
theorem scan_flatMap {pieces : ι → List Piece} {l : List ι}
    (reads : ∀ x rest, x :: rest <:+ l → Reads m (print x) (pieces x) (rest.flatMap print))
    (prev : Option Char) : scan m 0 prev (l.flatMap print) = l.flatMap pieces := by
  induction l generalizing prev with
  | nil => rfl
  | cons x l ih =>
      obtain ⟨prev', here⟩ := reads x l List.suffix_rfl prev
      calc scan m 0 prev ((x :: l).flatMap print)
          = pieces x ++ scan m 0 prev' (l.flatMap print) := here
        _ = pieces x ++ l.flatMap pieces := by
            rw [ih fun y rest suffix => reads y rest (suffix.trans (List.suffix_cons x l))]
        _ = (x :: l).flatMap pieces := rfl

/-- Replacing the matches replaces them in the parts. -/
theorem substitute_flatMap {pieces : ι → List Piece} {l : List ι}
    (reads : ∀ x rest, x :: rest <:+ l → Reads m (print x) (pieces x) (rest.flatMap print))
    (rep : List Char → List Char) :
    substitute m rep (l.flatMap print) =
      l.flatMap fun x => (pieces x).flatMap (Piece.replace rep) := by
  unfold substitute
  rw [scan_flatMap reads, List.flatMap_assoc]

@[simp] theorem replace_plain (rep : List Char → List Char) (u : List Char) :
    (u.map Piece.plain).flatMap (Piece.replace rep) = u := by
  induction u with
  | nil => rfl
  | cons c u ih =>
      rw [List.map_cons, List.flatMap_cons, ih]
      rfl

@[simp] theorem replace_hit (rep : List Char → List Char) (u : List Char) :
    [Piece.hit u].flatMap (Piece.replace rep) = rep u := List.append_nil _

@[simp] theorem hits_plain (u : List Char) : (u.map Piece.plain).filterMap Piece.hit? = [] := by
  induction u with
  | nil => rfl
  | cons c u ih => exact ih

/-- The search passes over a part in which no match begins. -/
theorem search_append {u s : List Char}
    (unmatched : ∀ v, v ≠ [] → v <:+ u → ∀ prev, m prev (v ++ s) = none) (prev : Option Char) :
    ∃ prev', search m prev (u ++ s) = (search m prev' s).map fun found =>
      (u ++ found.1, found.2) := by
  induction u generalizing prev with
  | nil => exact ⟨prev, Option.map_id'.symm⟩
  | cons c u ih =>
      obtain ⟨prev', rest⟩ := ih (fun v nonempty suffix =>
        unmatched v nonempty (suffix.trans (List.suffix_cons c u))) (some c)
      have here : m prev (c :: (u ++ s)) = none :=
        unmatched (c :: u) (List.cons_ne_nil c u) List.suffix_rfl prev
      refine ⟨prev', ?_⟩
      rw [List.cons_append, search, here]
      simp only [rest, Option.map_map]
      rfl

theorem search_hit {u s : List Char} (nonempty : u ≠ [])
    (matched : ∀ prev, m prev (u ++ s) = some u.length) (prev : Option Char) :
    search m prev (u ++ s) = some ([], u, s) := by
  obtain ⟨c, u, rfl⟩ := List.exists_cons_of_ne_nil nonempty
  have here : m prev (c :: (u ++ s)) = some (u.length + 1) := matched prev
  rw [List.cons_append, search, here]
  simp

end Reading

end SmoArchipelago.Library.TextScan
