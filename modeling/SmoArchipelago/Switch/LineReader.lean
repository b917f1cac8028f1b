import SmoArchipelago.Library.Framing
import SmoArchipelago.Switch.ReplayLine

/-! # Lines from the socket

The worker receives into a buffer of fixed size and drains its complete lines before it
receives again. A buffer that is full without a newline is cleared.

## Implementation notes

An event is one round of the worker's loop with the number of bytes that the socket has
ready; with none the poll times out. The socket is not closed. -/

namespace SmoArchipelago.Switch.LineReader

open Library Framing Outbound

def newline : UInt8 := 0x0a

/-- The read buffer, the bytes that are still to come, and the lines handled so far. -/
structure ReadBuf where
  readBuf : List UInt8 := []
  stream : List UInt8
  handled : List (List UInt8) := []

/-- `recvIntoBuf`. -/
def recvIntoBuf (s : ReadBuf) (ready : ℕ) : ReadBuf :=
  let avail := kInboundLineCap - s.readBuf.length
  if avail = 0 then { s with stream := s.stream.drop (min ready 256) }
  else
    let cap := if avail < 1024 then avail else 1024
    { s with
      readBuf := s.readBuf ++ s.stream.take (min ready cap)
      stream := s.stream.drop (min ready cap) }

/-- `popLine` on the buffer: the first line, and what is left. -/
def popLine (buf : List UInt8) : Option (List UInt8) × List UInt8 :=
  let nl := buf.idxOf newline
  if nl = buf.length then (none, if kInboundLineCap ≤ buf.length then [] else buf)
  else (some (buf.take nl), buf.drop (nl + 1))

theorem popLine_shorter {buf line left : List UInt8} (h : popLine buf = (some line, left)) :
    left.length < buf.length := by
  rw [popLine] at h
  by_cases none_found : buf.idxOf newline = buf.length
  · rw [if_pos none_found] at h
    cases (Prod.mk.inj h).1
  · rw [if_neg none_found] at h
    have found := List.idxOf_le_length (a := newline) (l := buf)
    rw [← (Prod.mk.inj h).2, List.length_drop]
    omega

/-- The drain loop: the lines, and the buffer after it. -/
def drain (buf : List UInt8) : List (List UInt8) × List UInt8 :=
  match _popped : popLine buf with
  | (none, left) => ([], left)
  | (some line, left) => (line :: (drain left).1, (drain left).2)
termination_by buf.length
decreasing_by exact popLine_shorter _popped

/-- A round of the worker: receive what is ready, and handle the complete lines. -/
def step (s : ReadBuf) (ready : ℕ) : ReadBuf :=
  let s := recvIntoBuf s ready
  { s with readBuf := (drain s.readBuf).2, handled := s.handled ++ (drain s.readBuf).1 }

/-! ## What the loop drains -/

theorem popLine_of_not_mem {buf : List UInt8} (h : newline ∉ buf) :
    popLine buf = (none, if kInboundLineCap ≤ buf.length then [] else buf) := by
  rw [popLine, if_pos (List.idxOf_eq_length h)]

theorem popLine_line {line : List UInt8} (h : newline ∉ line) (left : List UInt8) :
    popLine (line ++ newline :: left) = (some line, left) := by
  have found : (line ++ newline :: left).idxOf newline = line.length := by
    rw [List.idxOf_append_of_notMem h, List.idxOf_cons_self, Nat.add_zero]
  have within : line.length ≠ (line ++ newline :: left).length := by
    rw [List.length_append, List.length_cons]
    omega
  rw [popLine, found, if_neg within, List.take_left' rfl]
  congr 1
  rw [← List.drop_drop, List.drop_left' rfl, List.drop_one, List.tail_cons]

theorem drain_eq (buf : List UInt8) :
    drain buf = (lines newline buf,
      if kInboundLineCap ≤ (rest newline buf).length then [] else rest newline buf) := by
  induction buf using line_induction newline with
  | last buf h =>
      rw [drain.eq_def]
      split
      · next left popped =>
          rw [popLine_of_not_mem h] at popped
          rw [lines_of_not_mem h, rest_of_not_mem h, (Prod.mk.inj popped).2]
      · next line left popped =>
          rw [popLine_of_not_mem h] at popped
          cases (Prod.mk.inj popped).1
  | line line left h ih =>
      rw [drain.eq_def]
      split
      · next left' popped =>
          rw [popLine_line h] at popped
          cases (Prod.mk.inj popped).1
      · next line' left' popped =>
          rw [popLine_line h] at popped
          obtain ⟨first, rfl⟩ := Prod.mk.inj popped
          rw [lines_line h, rest_line h, ih, Option.some.inj first]

/-! ## What is handled of a stream -/

/-- What the buffer keeps of a line: it is cleared each time it is full. -/
def kept (line : List UInt8) : List UInt8 :=
  line.drop (line.length / kInboundLineCap * kInboundLineCap)

theorem kept_of_short {line : List UInt8} (h : line.length < kInboundLineCap) :
    kept line = line := by
  rw [kept, Nat.div_eq_of_lt h, Nat.zero_mul, List.drop_zero]

theorem length_kept (line : List UInt8) : (kept line).length = line.length % kInboundLineCap := by
  rw [kept, List.length_drop, Nat.mod_eq_sub_div_mul]

theorem length_kept_lt (line : List UInt8) : (kept line).length < kInboundLineCap := by
  rw [length_kept]
  exact Nat.mod_lt _ (by decide)

/-- A line that goes on, as long as the buffer is not full. -/
theorem kept_append {line more : List UInt8}
    (h : (kept line).length + more.length < kInboundLineCap) :
    kept (line ++ more) = kept line ++ more := by
  have count : (line ++ more).length / kInboundLineCap = line.length / kInboundLineCap := by
    rw [length_kept] at h
    rw [List.length_append]
    have whole := Nat.div_add_mod line.length kInboundLineCap
    rw [Nat.div_eq_iff (by decide)]
    constructor
    · rw [Nat.mul_comm]
      omega
    · rw [Nat.mul_comm]
      omega
  have inside : line.length / kInboundLineCap * kInboundLineCap ≤ line.length :=
    Nat.div_mul_le_self _ _
  rw [kept, count, List.drop_append_of_le_length inside, kept]

/-- At the byte that fills the buffer it is cleared. -/
theorem kept_full {line more : List UInt8}
    (h : (kept line).length + more.length = kInboundLineCap) : kept (line ++ more) = [] := by
  have whole := Nat.div_add_mod line.length kInboundLineCap
  rw [length_kept] at h
  have multiple : (line ++ more).length = (line.length / kInboundLineCap + 1) * kInboundLineCap := by
    rw [List.length_append, Nat.add_mul, Nat.one_mul, Nat.mul_comm]
    omega
  rw [kept, multiple, Nat.mul_div_cancel _ (by decide), ← multiple, List.drop_length]

theorem kept_after_full {full more : List UInt8} (h : full.length = kInboundLineCap)
    (short : more.length < kInboundLineCap) : kept (full ++ more) = more := by
  have cleared : kept ([] ++ full) = [] := kept_full ((Nat.zero_add _).trans h)
  rw [List.nil_append] at cleared
  have goes_on : kept (full ++ more) = kept full ++ more :=
    kept_append (by rwa [cleared, List.length_nil, Nat.zero_add])
  rw [goes_on, cleared, List.nil_append]

/-- What the lines of a stream become when more of it comes in than fits no buffer. -/
theorem drain_kept {line chunk : List UInt8} (h : newline ∉ line)
    (room : (kept line).length + chunk.length ≤ kInboundLineCap) :
    drain (kept line ++ chunk) =
      ((lines newline (line ++ chunk)).map kept, kept (rest newline (line ++ chunk))) := by
  have free : newline ∉ kept line := fun member => h (List.mem_of_mem_drop member)
  rw [drain_eq]
  by_cases ends : newline ∈ chunk
  · obtain ⟨l, t, rfl, first⟩ := List.eq_append_cons_of_mem ends
    rw [List.length_append, List.length_cons] at room
    have goes_on : kept (line ++ l) = kept line ++ l := kept_append (by omega)
    have buffered : newline ∉ kept line ++ l := by
      rw [List.mem_append, not_or]
      exact ⟨free, first⟩
    have streamed : newline ∉ line ++ l := by
      rw [List.mem_append, not_or]
      exact ⟨h, first⟩
    have short (l' : List UInt8) (member : l' ∈ lines newline t) : kept l' = l' := by
      apply kept_of_short
      have shorter := length_lt_of_mem_lines member
      omega
    have rest_short := length_rest_le newline t
    have last : kept (rest newline t) = rest newline t := kept_of_short (by omega)
    rw [← List.append_assoc, ← List.append_assoc, lines_line buffered, rest_line buffered,
      lines_line streamed, rest_line streamed, List.map_cons, goes_on,
      List.map_congr_left short, List.map_id', if_neg (by omega), last]
  · have buffered : newline ∉ kept line ++ chunk := by
      rw [List.mem_append, not_or]
      exact ⟨free, ends⟩
    have streamed : newline ∉ line ++ chunk := by
      rw [List.mem_append, not_or]
      exact ⟨h, ends⟩
    rw [lines_of_not_mem buffered, rest_of_not_mem buffered, lines_of_not_mem streamed,
      rest_of_not_mem streamed, List.length_append, List.map_nil]
    by_cases full : kInboundLineCap ≤ (kept line).length + chunk.length
    · rw [if_pos full, kept_full (by omega)]
    · rw [if_neg full, kept_append (by omega)]

/-- What has been received of a stream, and what it has become. -/
structure Received (stream : List UInt8) (s : ReadBuf) (consumed : List UInt8) : Prop where
  stream : consumed ++ s.stream = stream
  handled : s.handled = (lines newline consumed).map kept
  readBuf : s.readBuf = kept (rest newline consumed)

theorem step_received {stream consumed : List UInt8} {s : ReadBuf} (h : Received stream s consumed)
    (ready : ℕ) : ∃ more, Received stream (step s ready) (consumed ++ more) := by
  obtain ⟨parts, handled, readBuf⟩ := h
  have bounded : s.readBuf.length < kInboundLineCap := readBuf ▸ length_kept_lt _
  have avail : kInboundLineCap - s.readBuf.length ≠ 0 := by omega
  generalize taken : min ready (if kInboundLineCap - s.readBuf.length < 1024 then
    kInboundLineCap - s.readBuf.length else 1024) = n
  have room : n ≤ kInboundLineCap - s.readBuf.length := by
    rw [← taken]
    split_ifs
    · exact Nat.min_le_right _ _
    · omega
  have arrives : recvIntoBuf s ready =
      { s with readBuf := s.readBuf ++ s.stream.take n, stream := s.stream.drop n } := by
    rw [← taken, recvIntoBuf, if_neg avail]
  have fits : (kept (rest newline consumed)).length + (s.stream.take n).length ≤
      kInboundLineCap := by
    rw [← readBuf, List.length_take]
    omega
  have drained := drain_kept (not_mem_rest newline consumed) fits
  have grown := split_append newline consumed (s.stream.take n)
  refine ⟨s.stream.take n, ?_, ?_, ?_⟩
  · rw [step, arrives, List.append_assoc, List.take_append_drop, parts]
  · rw [step, arrives]
    change s.handled ++ (drain (s.readBuf ++ s.stream.take n)).1 = _
    rw [readBuf, drained, handled, grown.1, List.map_append]
  · rw [step, arrives]
    change (drain (s.readBuf ++ s.stream.take n)).2 = _
    rw [readBuf, drained, grown.2]

theorem run_received {stream : List UInt8} (ready : List ℕ) {s : ReadBuf} {consumed : List UInt8}
    (h : Received stream s consumed) : ∃ consumed, Received stream (ready.foldl step s) consumed := by
  induction ready generalizing s consumed with
  | nil => exact ⟨consumed, h⟩
  | cons n ready ih =>
      obtain ⟨more, next⟩ := step_received h n
      exact ih next

theorem start_received (stream : List UInt8) : Received stream { stream } [] := ⟨rfl, rfl, rfl⟩

/-- In whatever pieces a stream comes in, what is handled is the same. -/
theorem handled_eq {stream : List UInt8} {ready : List ℕ}
    (all : (ready.foldl step { stream }).stream = []) :
    (ready.foldl step { stream }).handled = (lines newline stream).map kept := by
  obtain ⟨consumed, parts, handled, -⟩ := run_received ready (start_received stream)
  rw [all, List.append_nil] at parts
  rw [handled, parts]

/-- Byte by byte all of a stream comes in. -/
theorem received_bytewise (stream : List UInt8) :
    ((List.replicate stream.length 1).foldl step { stream }).stream = [] := by
  have one (s : ReadBuf) (room : s.readBuf.length < kInboundLineCap) :
      (step s 1).stream = s.stream.drop 1 := by
    have avail : kInboundLineCap - s.readBuf.length ≠ 0 := by omega
    have least : min 1 (if kInboundLineCap - s.readBuf.length < 1024 then
        kInboundLineCap - s.readBuf.length else 1024) = 1 := by
      split_ifs
      · omega
      · omega
    simp only [step, recvIntoBuf, if_neg avail, least]
  have bytes (n : ℕ) {s : ReadBuf} {consumed : List UInt8} (h : Received stream s consumed) :
      ((List.replicate n 1).foldl step s).stream = s.stream.drop n := by
    induction n generalizing s consumed with
    | zero => exact List.drop_zero.symm
    | succ n ih =>
        obtain ⟨more, next⟩ := step_received h 1
        have bounded : s.readBuf.length < kInboundLineCap := h.readBuf ▸ length_kept_lt _
        rw [List.replicate_succ, List.foldl_cons, ih next, one s bounded, List.drop_drop,
          Nat.add_comm]
  rw [bytes stream.length (start_received stream), List.drop_length]

/-- Exactly the lines of at most 8192 bytes are handled, each unchanged and in order, when and
only when no line has 8192 bytes or more. -/
theorem handled_eq_lines_iff {stream : List UInt8} {ready : List ℕ}
    (all : (ready.foldl step { stream }).stream = []) :
    (ready.foldl step { stream }).handled =
        (lines newline stream).filter (fun line => line.length ≤ kInboundLineCap) ↔
      ∀ line ∈ lines newline stream, line.length < kInboundLineCap := by
  rw [handled_eq all]
  constructor
  · intro same
    have sizes := congrArg List.length same
    rw [List.length_map, eq_comm, List.length_filter_eq_length_iff] at sizes
    rw [List.filter_eq_self.2 sizes] at same
    intro line member
    have unchanged : kept line = line :=
      List.map_inj_left.1 (same.trans (List.map_id (lines newline stream)).symm) line member
    rw [← unchanged]
    exact length_kept_lt line
  · intro short
    have unchanged : (lines newline stream).map kept = lines newline stream := by
      rw [List.map_congr_left fun line member => kept_of_short (short line member), List.map_id']
    rw [unchanged, eq_comm, List.filter_eq_self]
    exact fun line member => decide_eq_true (short line member).le

/-- Two short lines in one piece. -/
theorem handled_eq_lines_short :
    ([5].foldl step { stream := Json.ascii "ab\nc\n" }).handled =
      (lines newline (Json.ascii "ab\nc\n")).filter (fun line => line.length ≤ kInboundLineCap) :=
  (handled_eq_lines_iff rfl).2 (by decide)

/-- A line that fills the buffer is handled as what comes after the clearing. -/
theorem handled_after_full {full more : List UInt8} (size : full.length = kInboundLineCap)
    (short : more.length < kInboundLineCap) (free : newline ∉ full ++ more) :
    ((List.replicate (full ++ more ++ [newline]).length 1).foldl step
      { stream := full ++ more ++ [newline] }).handled = [more] := by
  have none_left : lines newline ([] : List UInt8) = [] := rfl
  rw [handled_eq (received_bytewise _), lines_line free, List.map_cons, kept_after_full size short,
    none_left, List.map_nil]

/-- A line of as many bytes as the read buffer holds, with what follows it before the newline. -/
def fullLine (more : List UInt8) : List UInt8 := List.replicate kInboundLineCap 0x78 ++ more

/-- What is handled of a line that comes in byte by byte. -/
def received (line : List UInt8) : List (List UInt8) :=
  ((List.replicate (line ++ [newline]).length 1).foldl step { stream := line ++ [newline] }).handled

/-- A line of 8192 bytes, which the documented limit allows, is handled as an empty one, and
the end of a longer line as a line of its own. -/
theorem received_fullLine :
    (fullLine []).length = 8192 ∧ newline ∉ fullLine [] ∧ received (fullLine []) = [[]] ∧
      received (fullLine (Json.ascii "\x7b\"t\":\"kill\"\x7d")) =
        [Json.ascii "\x7b\"t\":\"kill\"\x7d"] := by
  have free {more : List UInt8} (h : newline ∉ more) : newline ∉ fullLine more := by
    rw [fullLine, List.mem_append, not_or]
    refine ⟨fun member => ?_, h⟩
    have byte := (List.mem_replicate.1 member).2
    exact absurd byte (by decide)
  refine ⟨?_, free List.not_mem_nil, ?_, ?_⟩
  · rw [fullLine, List.append_nil, List.length_replicate]
    rfl
  · exact handled_after_full List.length_replicate (by decide) (free List.not_mem_nil)
  · exact handled_after_full List.length_replicate (by decide) (free (by decide))

end SmoArchipelago.Switch.LineReader
