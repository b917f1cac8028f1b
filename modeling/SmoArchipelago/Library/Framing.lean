import Mathlib

/-! # Lines of a stream

A stream is cut into lines by a separator. A receiver gets the stream in chunks, gives out
the lines that are complete, and drops what it has buffered of a line once that is longer
than a limit; what it gives out of a line depends on where the chunks cut it. -/

namespace SmoArchipelago.Library.Framing

variable {α : Type*} [DecidableEq α] {nl : α}

variable (nl) in
/-- The lines that a separator ends, without it, and what comes after the last one. -/
def split : List α → List (List α) × List α
  | [] => ([], [])
  | b :: bs =>
      if b = nl then ([] :: (split bs).1, (split bs).2)
      else
        match split bs with
        | ([], r) => ([], b :: r)
        | (l :: ls, r) => ((b :: l) :: ls, r)

variable (nl) in
def lines (s : List α) : List (List α) := (split nl s).1

variable (nl) in
def rest (s : List α) : List α := (split nl s).2

theorem split_of_not_mem {s : List α} (h : nl ∉ s) : split nl s = ([], s) := by
  induction s with
  | nil => rfl
  | cons b bs ih =>
      simp only [List.mem_cons, not_or] at h
      rw [split, if_neg (Ne.symm h.1), ih h.2]

theorem split_line {l : List α} (h : nl ∉ l) (s : List α) :
    split nl (l ++ nl :: s) = (l :: lines nl s, rest nl s) := by
  induction l with
  | nil => rw [List.nil_append, split, if_pos rfl, lines, rest]
  | cons b bs ih =>
      simp only [List.mem_cons, not_or] at h
      rw [List.cons_append, split, if_neg (Ne.symm h.1), ih h.2]

@[simp] theorem lines_of_not_mem {s : List α} (h : nl ∉ s) : lines nl s = [] := by
  rw [lines, split_of_not_mem h]

@[simp] theorem rest_of_not_mem {s : List α} (h : nl ∉ s) : rest nl s = s := by
  rw [rest, split_of_not_mem h]

theorem lines_line {l : List α} (h : nl ∉ l) (s : List α) :
    lines nl (l ++ nl :: s) = l :: lines nl s := by
  rw [lines, split_line h]

theorem rest_line {l : List α} (h : nl ∉ l) (s : List α) :
    rest nl (l ++ nl :: s) = rest nl s := by
  rw [rest, split_line h]

variable (nl) in
/-- Induction over the lines of a stream. -/
theorem line_induction {P : List α → Prop} (last : ∀ s, nl ∉ s → P s)
    (line : ∀ l s, nl ∉ l → P s → P (l ++ nl :: s)) (s : List α) : P s := by
  induction size : s.length using Nat.strong_induction_on generalizing s with
  | _ n ih =>
      by_cases h : nl ∈ s
      · obtain ⟨l, t, rfl, first⟩ := List.eq_append_cons_of_mem h
        apply line l t first
        apply ih t.length _ t rfl
        rw [← size, List.length_append, List.length_cons]
        omega
      · exact last s h

variable (nl) in
theorem not_mem_rest (s : List α) : nl ∉ rest nl s := by
  induction s using line_induction nl with
  | last s h => rwa [rest_of_not_mem h]
  | line l s h ih => rwa [rest_line h]

theorem length_lt_of_mem_lines {s l : List α} (h : l ∈ lines nl s) : l.length < s.length := by
  induction s using line_induction nl with
  | last s none => rw [lines_of_not_mem none] at h; exact absurd h List.not_mem_nil
  | line l' s first ih =>
      rw [lines_line first] at h
      rw [List.length_append, List.length_cons]
      rcases List.mem_cons.1 h with rfl | later
      · omega
      · have shorter := ih later
        omega

variable (nl) in
theorem length_rest_le (s : List α) : (rest nl s).length ≤ s.length := by
  induction s using line_induction nl with
  | last s h => rw [rest_of_not_mem h]
  | line l s h ih =>
      rw [rest_line h, List.length_append, List.length_cons]
      omega

variable (nl) in
/-- Every separator ends a line. -/
theorem length_lines (s : List α) : (lines nl s).length = s.count nl := by
  induction s using line_induction nl with
  | last s h => rw [lines_of_not_mem h, List.count_eq_zero_of_not_mem h, List.length_nil]
  | line l s h ih =>
      rw [lines_line h, List.length_cons, ih, List.count_append, List.count_eq_zero_of_not_mem h,
        List.count_cons_self, Nat.zero_add]

/-- The lines of a stream that was put together from lines. -/
theorem lines_flatMap {β : Type*} {text : β → List α} {xs : List β} (h : ∀ x ∈ xs, nl ∉ text x) :
    lines nl (xs.flatMap fun x => text x ++ [nl]) = xs.map text := by
  induction xs with
  | nil => exact lines_of_not_mem List.not_mem_nil
  | cons x xs ih =>
      have later := ih fun y member => h y (List.mem_cons_of_mem x member)
      rw [List.flatMap_cons, List.append_assoc, List.singleton_append,
        lines_line (h x List.mem_cons_self), later, List.map_cons]

variable (nl) in
/-- The lines of a stream do not change when more of it comes in. -/
theorem split_append (s t : List α) :
    lines nl (s ++ t) = lines nl s ++ lines nl (rest nl s ++ t) ∧
      rest nl (s ++ t) = rest nl (rest nl s ++ t) := by
  induction s using line_induction nl with
  | last s h => simp only [lines_of_not_mem h, rest_of_not_mem h, List.nil_append, and_self]
  | line l s h ih =>
      rw [List.append_assoc, List.cons_append, lines_line h, rest_line h, lines_line h, rest_line h,
        List.cons_append]
      exact ⟨congrArg (l :: ·) ih.1, ih.2⟩

/-! ## A receiver with a limit -/

/-- What is buffered of a line, given where the chunks have cut it so far. -/
def held (limit : ℕ) (segs : List (List α)) : List α :=
  segs.foldl (fun acc seg => if limit < (acc ++ seg).length then [] else acc ++ seg) []

omit [DecidableEq α] in
theorem held_concat (limit : ℕ) (segs : List (List α)) (seg : List α) :
    held limit (segs ++ [seg]) =
      if limit < (held limit segs ++ seg).length then [] else held limit segs ++ seg := by
  rw [held, List.foldl_append]
  rfl

variable (nl) in
/-- A chunk comes in: its lines are given out, and too long a rest is dropped. -/
def feed (limit : ℕ) (buffer chunk : List α) : List (List α) × List α :=
  (lines nl (buffer ++ chunk),
    if limit < (rest nl (buffer ++ chunk)).length then [] else rest nl (buffer ++ chunk))

variable (nl) in
/-- All lines that are given out. -/
def feedAll (limit : ℕ) : List α → List (List α) → List (List α)
  | _, [] => []
  | buffer, chunk :: chunks =>
      (feed nl limit buffer chunk).1 ++ feedAll limit (feed nl limit buffer chunk).2 chunks

/-- A line as the chunks cut it: its parts in the chunks before the last one, and its end. -/
abbrev CutLine (α : Type*) := List (List α) × List α

namespace CutLine

def whole (l : CutLine α) : List α := l.1.flatten ++ l.2

/-- What a receiver gives out of the line. -/
def given (limit : ℕ) (l : CutLine α) : List α := held limit l.1 ++ l.2

omit [DecidableEq α] in
@[simp] theorem whole_uncut (l : List α) : whole ([], l) = l := rfl

omit [DecidableEq α] in
@[simp] theorem given_uncut (limit : ℕ) (l : List α) : given limit ([], l) = l := rfl

end CutLine

omit [DecidableEq α] in
theorem not_mem_flatten_concat {segs : List (List α)} {seg : List α} :
    nl ∉ (segs ++ [seg]).flatten ↔ nl ∉ segs.flatten ∧ nl ∉ seg := by
  rw [List.flatten_append, List.flatten_singleton, List.mem_append, not_or]

variable (nl) in
/-- The lines of the chunks, as they cut them; `segs` is what came before of the first. -/
def cut (segs : List (List α)) : List (List α) → List (CutLine α)
  | [] => []
  | chunk :: chunks =>
      match lines nl chunk with
      | [] => cut (segs ++ [chunk]) chunks
      | l :: ls => (segs, l) :: ls.map (([], ·)) ++ cut [rest nl chunk] chunks

/-- Put together again, the cut lines are those of the stream. -/
theorem map_whole_cut {segs : List (List α)} (h : nl ∉ segs.flatten) (chunks : List (List α)) :
    (cut nl segs chunks).map CutLine.whole = lines nl (segs.flatten ++ chunks.flatten) := by
  induction chunks generalizing segs with
  | nil =>
      rw [cut, List.flatten_nil, List.append_nil, lines_of_not_mem h]
      rfl
  | cons chunk chunks ih =>
      rw [cut, List.flatten_cons]
      by_cases ends : nl ∈ chunk
      · obtain ⟨l, t, rfl, first⟩ := List.eq_append_cons_of_mem ends
        have more : nl ∉ segs.flatten ++ l := by
          rw [List.mem_append, not_or]
          exact ⟨h, first⟩
        have stream : segs.flatten ++ ((l ++ nl :: t) ++ chunks.flatten) =
            (segs.flatten ++ l) ++ nl :: (t ++ chunks.flatten) := by
          simp only [List.append_assoc, List.cons_append]
        have later := ih (show nl ∉ [rest nl t].flatten by simpa using not_mem_rest nl t)
        rw [stream, lines_line more, lines_line first, rest_line first, (split_append nl t _).1]
        simp only [List.map_cons, List.map_append, List.map_map, List.flatten_singleton] at later ⊢
        rw [later]
        simp only [Function.comp_def, CutLine.whole_uncut, List.map_id']
        rfl
      · have later := ih (not_mem_flatten_concat.2 ⟨h, ends⟩)
        rw [lines_of_not_mem ends]
        simpa using later

/-- What a receiver gives out, line by line. -/
theorem feedAll_eq (limit : ℕ) {segs : List (List α)} (h : nl ∉ segs.flatten)
    (chunks : List (List α)) :
    feedAll nl limit (held limit segs) chunks =
      (cut nl segs chunks).map (CutLine.given limit) := by
  have free {segs : List (List α)} (h : nl ∉ segs.flatten) : nl ∉ held limit segs := by
    induction segs using List.reverseRecOn with
    | nil => exact List.not_mem_nil
    | append_singleton segs seg ih =>
        obtain ⟨before, last⟩ := not_mem_flatten_concat.1 h
        rw [held_concat]
        split_ifs
        · exact List.not_mem_nil
        · rw [List.mem_append, not_or]
          exact ⟨ih before, last⟩
  induction chunks generalizing segs with
  | nil => rfl
  | cons chunk chunks ih =>
      rw [feedAll, cut]
      by_cases ends : nl ∈ chunk
      · obtain ⟨l, t, rfl, first⟩ := List.eq_append_cons_of_mem ends
        have more : nl ∉ held limit segs ++ l := by
          rw [List.mem_append, not_or]
          exact ⟨free h, first⟩
        have buffered : feed nl limit (held limit segs) (l ++ nl :: t) =
            ((held limit segs ++ l) :: lines nl t, held limit [rest nl t]) := by
          rw [feed, ← List.append_assoc, lines_line more, rest_line more]
          rfl
        have later := ih (show nl ∉ [rest nl t].flatten by simpa using not_mem_rest nl t)
        rw [buffered, later, lines_line first, rest_line first]
        simp only [List.map_cons, List.map_append, List.map_map, Function.comp_def,
          CutLine.given_uncut, List.map_id']
        rfl
      · have quiet : nl ∉ held limit segs ++ chunk := by
          rw [List.mem_append, not_or]
          exact ⟨free h, ends⟩
        have later := ih (not_mem_flatten_concat.2 ⟨h, ends⟩)
        rw [lines_of_not_mem ends, feed, lines_of_not_mem quiet, rest_of_not_mem quiet,
          ← held_concat, later]
        rfl

omit [DecidableEq α] in
/-- Of a line within the limit all is given out. -/
theorem given_of_short {limit : ℕ} {l : CutLine α} (h : l.whole.length ≤ limit) :
    l.given limit = l.whole := by
  have all (segs : List (List α)) (short : segs.flatten.length ≤ limit) :
      held limit segs = segs.flatten := by
    induction segs using List.reverseRecOn with
    | nil => rfl
    | append_singleton segs seg ih =>
        simp only [List.flatten_append, List.flatten_singleton, List.length_append] at short ⊢
        rw [held_concat, ih (by omega), if_neg (by rw [List.length_append]; omega)]
  rw [CutLine.given, CutLine.whole, all]
  rw [CutLine.whole, List.length_append] at h
  omega

/-- Where every element that is taken under `f` is the same under `g`, taking from the two images
agrees exactly when no other element is taken under `g`. -/
theorem filter_map_eq_iff {ι β : Type*} {p : β → Bool} {f g : ι → β}
    (same : ∀ i, p (f i) = true → g i = f i) {is : List ι} :
    (is.map g).filter p = (is.map f).filter p ↔ ∀ i ∈ is, p (g i) = true → p (f i) = true := by
  induction is with
  | nil => simp
  | cons i is ih =>
      have fewer (is : List ι) : ((is.map f).filter p).length ≤ ((is.map g).filter p).length := by
        rw [← List.countP_eq_length_filter, ← List.countP_eq_length_filter, List.countP_map,
          List.countP_map]
        apply List.countP_mono_left
        intro j _ taken
        simp only [Function.comp_apply] at taken ⊢
        rwa [same j taken]
      rw [List.map_cons, List.map_cons, List.forall_mem_cons]
      by_cases taken : p (f i) = true
      · rw [same i taken, List.filter_cons_of_pos taken, List.filter_cons_of_pos taken,
          List.cons_inj_right, ih, and_iff_right fun _ => taken]
      · rw [List.filter_cons_of_neg taken]
        by_cases more : p (g i) = true
        · rw [List.filter_cons_of_pos more]
          constructor
          · intro equal
            have longer := fewer is
            rw [← equal, List.length_cons] at longer
            omega
          · exact fun h => absurd (h.1 more) taken
        · rw [List.filter_cons_of_neg more, ih, and_iff_right fun h => absurd h more]

end SmoArchipelago.Library.Framing
