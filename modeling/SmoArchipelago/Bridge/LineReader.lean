import SmoArchipelago.Bridge.Wire
import SmoArchipelago.Library.Framing

/-! # Lines from a Switch

The handler of a connection reads chunks into one buffer and takes the complete lines from
it after each. The oversize rule stands in two places, for a complete line and for a
buffer without a newline, and only the first knows that it is inside a line.

## Implementation notes

The chunks are those before the end of the stream. The handler of a line adds nothing to
the buffer, so the lines of a chunk are taken in one step. -/

namespace SmoArchipelago.Bridge.LineReader

open Library Framing

def newline : UInt8 := 0x0a

/-- The bytes that `strip` removes. -/
def isSpace (b : UInt8) : Bool := b = 0x20 || (0x09 ≤ b && b ≤ 0x0d)

def blank (line : List UInt8) : Bool := line.all isSpace

/-- `iter_lines`: the lines that are yielded, and the buffer after them. -/
def iterLines (buffer : List UInt8) : List (List UInt8) × List UInt8 :=
  if buffer.idxOf newline < buffer.length then
    let line := buffer.take (buffer.idxOf newline)
    let left := iterLines (buffer.drop (buffer.idxOf newline + 1))
    if maxLineBytes < line.length then left
    else if blank line then left
    else (line :: left.1, left.2)
  else ([], if maxLineBytes < buffer.length then [] else buffer)
termination_by buffer.length
decreasing_by
  rw [List.length_drop]
  omega

/-- The read loop of `_handle_client`: all lines that are yielded. -/
def handleClient : List UInt8 → List (List UInt8) → List (List UInt8)
  | _, [] => []
  | buffer, chunk :: chunks =>
      (iterLines (buffer ++ chunk)).1 ++ handleClient (iterLines (buffer ++ chunk)).2 chunks

/-- The lines that the protocol takes. -/
def wanted (line : List UInt8) : Bool := line.length ≤ maxLineBytes && ! blank line

/-! ## What is yielded -/

theorem iterLines_of_not_mem {buffer : List UInt8} (h : newline ∉ buffer) :
    iterLines buffer = ([], if maxLineBytes < buffer.length then [] else buffer) := by
  rw [iterLines.eq_def, if_neg]
  rw [List.idxOf_eq_length h]
  exact lt_irrefl _

theorem iterLines_line {line : List UInt8} (h : newline ∉ line) (left : List UInt8) :
    iterLines (line ++ newline :: left) =
      (if wanted line then line :: (iterLines left).1 else (iterLines left).1,
        (iterLines left).2) := by
  have found : (line ++ newline :: left).idxOf newline = line.length := by
    rw [List.idxOf_append_of_notMem h, List.idxOf_cons_self, Nat.add_zero]
  have within : line.length < (line ++ newline :: left).length := by
    rw [List.length_append, List.length_cons]
    omega
  have after : (line ++ newline :: left).drop (line.length + 1) = left := by
    rw [← List.drop_drop, List.drop_left' rfl, List.drop_one, List.tail_cons]
  rw [iterLines.eq_def, found, if_pos within, List.take_left' rfl, after]
  by_cases long : maxLineBytes < line.length
  · simp only [if_pos long, wanted, decide_eq_false long.not_ge, Bool.false_and,
      Bool.false_eq_true, if_false]
  · simp only [if_neg long, wanted, decide_eq_true (Nat.not_lt.1 long), Bool.true_and]
    cases blank line with
    | true => rfl
    | false => rfl

theorem iterLines_eq (buffer : List UInt8) :
    iterLines buffer = ((lines newline buffer).filter wanted,
      if maxLineBytes < (rest newline buffer).length then [] else rest newline buffer) := by
  induction buffer using line_induction newline with
  | last buffer h =>
      rw [iterLines_of_not_mem h, lines_of_not_mem h, rest_of_not_mem h, List.filter_nil]
  | line line left h ih =>
      rw [iterLines_line h, lines_line h, rest_line h, ih, List.filter_cons]

/-- What is yielded of a stream, line by line as the chunks cut it. -/
theorem handleClient_eq (chunks : List (List UInt8)) :
    handleClient [] chunks =
      ((cut newline [] chunks).map (CutLine.given maxLineBytes)).filter wanted := by
  have yields (buffer : List UInt8) : handleClient buffer chunks =
      (feedAll newline maxLineBytes buffer chunks).filter wanted := by
    induction chunks generalizing buffer with
    | nil => rfl
    | cons chunk chunks ih =>
        rw [handleClient, feedAll, List.filter_append, ← ih, iterLines_eq]
        rfl
  have none_before : newline ∉ ([] : List (List UInt8)).flatten := List.not_mem_nil
  rw [yields, ← feedAll_eq maxLineBytes none_before]
  rfl

/-- Exactly the lines that the protocol takes are yielded, each whole and in order, when and only
when of no line that is too long an end is left that would be taken as a line. -/
theorem handleClient_eq_lines_iff (chunks : List (List UInt8)) :
    handleClient [] chunks = (lines newline chunks.flatten).filter wanted ↔
      ∀ l ∈ cut newline [] chunks, maxLineBytes < l.whole.length →
        wanted (l.given maxLineBytes) = false := by
  have none_before : newline ∉ ([] : List (List UInt8)).flatten := List.not_mem_nil
  have stream := map_whole_cut none_before chunks
  have taken_whole (l : CutLine UInt8) (h : wanted l.whole = true) :
      l.given maxLineBytes = l.whole := by
    simp only [wanted, Bool.and_eq_true, decide_eq_true_eq] at h
    exact given_of_short h.1
  rw [List.flatten_nil, List.nil_append] at stream
  rw [handleClient_eq, ← stream, filter_map_eq_iff taken_whole]
  apply forall₂_congr
  intro l _
  constructor
  · intro only long
    rw [← Bool.not_eq_true]
    intro given
    have whole := only given
    simp only [wanted, Bool.and_eq_true, decide_eq_true_eq] at whole
    omega
  · intro dropped given
    by_cases long : maxLineBytes < l.whole.length
    · rw [dropped long] at given
      cases given
    · rwa [given_of_short (Nat.not_lt.1 long)] at given

/-- The end of a line that is cut after more than the limit is yielded as a line of its own. -/
theorem handleClient_cut {a b c l : List UInt8} (free : newline ∉ a ++ b ++ c)
    (short : (a ++ b).length ≤ maxLineBytes) (long : maxLineBytes < (a ++ b ++ c).length)
    (line : newline ∉ l) (good : wanted l = true) :
    handleClient [] [a, b, c, l ++ [newline]] = [l] := by
  simp only [List.mem_append, not_or] at free
  have first : held maxLineBytes [a] = a := by
    rw [List.length_append] at short
    rw [← List.nil_append [a], held_concat, if_neg]
    · rfl
    · exact Nat.not_lt.2 ((Nat.le_add_right _ _).trans short)
  have second : held maxLineBytes [a, b] = a ++ b := by
    rw [show [a, b] = [a] ++ [b] from rfl, held_concat, first, if_neg (Nat.not_lt.2 short)]
  have dropped : held maxLineBytes [a, b, c] = [] := by
    rw [show [a, b, c] = [a, b] ++ [c] from rfl, held_concat, second, if_pos long]
  have cuts : cut newline [] [a, b, c, l ++ [newline]] = [([a, b, c], l)] := by
    rw [cut, lines_of_not_mem free.1.1, cut, lines_of_not_mem free.1.2, cut,
      lines_of_not_mem free.2, cut, lines_line line]
    rfl
  rw [handleClient_eq, cuts, List.map_singleton, CutLine.given, dropped, List.nil_append,
    List.filter_cons_of_pos good, List.filter_nil]

/-- A stream without a newline in more than 8192 bytes, then the end of that line. -/
def longLine (more : List UInt8) : List (List UInt8) :=
  [List.replicate 4096 0x78, List.replicate 4096 0x78, [0x78], more ++ [newline]]

/-- The end of a line that is too long comes through as a message. -/
theorem handleClient_longLine :
    handleClient [] (longLine (Switch.Json.ascii "\x7b\"t\":\"goal\"\x7d")) =
        [Switch.Json.ascii "\x7b\"t\":\"goal\"\x7d"] ∧
      (lines newline (longLine (Switch.Json.ascii "\x7b\"t\":\"goal\"\x7d")).flatten).filter
        wanted = [] := by
  have xs (n : ℕ) : newline ∉ List.replicate n (0x78 : UInt8) := fun member => by
    have byte := (List.mem_replicate.1 member).2
    exact absurd byte (by decide)
  have free : newline ∉ List.replicate 4096 (0x78 : UInt8) ++ List.replicate 4096 0x78 ++ [0x78] := by
    simp only [List.mem_append, not_or]
    exact ⟨⟨xs 4096, xs 4096⟩, by decide⟩
  constructor
  · apply handleClient_cut free
    · rw [List.length_append, List.length_replicate]
      decide
    · rw [List.length_append, List.length_append, List.length_replicate]
      decide
    · decide
    · decide
  · generalize goal : Switch.Json.ascii "\x7b\"t\":\"goal\"\x7d" = more
    have line : newline ∉ more := by
      rw [← goal]
      decide
    have whole : newline ∉ List.replicate 4096 (0x78 : UInt8) ++ List.replicate 4096 0x78 ++ [0x78] ++
        more := by
      rw [List.mem_append, not_or]
      exact ⟨free, line⟩
    have stream : (longLine more).flatten = List.replicate 4096 (0x78 : UInt8) ++
        List.replicate 4096 0x78 ++ [0x78] ++ more ++ newline :: [] := by
      simp only [longLine, List.flatten_cons, List.flatten_nil, List.append_nil, List.append_assoc]
    have too_long : wanted (List.replicate 4096 (0x78 : UInt8) ++ List.replicate 4096 0x78 ++ [0x78] ++
        more) = false := by
      rw [wanted, decide_eq_false, Bool.false_and]
      simp only [List.length_append, List.length_replicate, List.length_singleton, maxLineBytes]
      omega
    rw [stream, lines_line whole, List.filter_cons_of_neg (by rw [too_long]; exact Bool.false_ne_true)]
    rfl

end SmoArchipelago.Bridge.LineReader
