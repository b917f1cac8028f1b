import SmoArchipelago.Switch.Messages
import SmoArchipelago.Switch.MsgFontSafe

/-! # The snapshot of the loaded save

The shines that the save owns go out in chunks, a new one where the stage changes, then the
captures with the goal flag. A chunk keeps a bounded number of shines, and what comes beyond is
dropped.

## Implementation notes

All sends succeed. The stage that is compared is the name that the chunk has kept, so a name that
was cut matches no shine of its own stage. -/

namespace SmoArchipelago.Switch.ApProtocol

open Json MsgFontSafe

/-- A shine that the save owns, as `enumerateOwnedShines` reports it. -/
structure OwnedShine where
  stage : CString
  obj : CString
  uid : ℤ

def ShineEntry.of (sh : OwnedShine) : ShineEntry := ⟨.ofBytes sh.obj.bytes, sh.uid⟩

namespace StateChunk

def empty : StateChunk := { stageName := default }

def named (stage : List UInt8) : StateChunk := { stageName := .ofBytes stage }

/-- A shine takes the next slot, if there is one. -/
def addShine (c : StateChunk) (sh : ShineEntry) : StateChunk :=
  if room : c.shines.length < kSnapshotMaxShinesPerStage then
    { c with
      shines := c.shines ++ [sh]
      shineRoom := by rw [List.length_append]; exact room }
  else c

/-- A capture takes the next slot, if there is one. -/
def addCapture (c : StateChunk) (hack : CString) : StateChunk :=
  if hack.bytes.isEmpty then c
  else if room : c.captures.length < kSnapshotMaxCaptures then
    { c with
      captures := c.captures ++ [.ofBytes hack.bytes]
      captureRoom := by rw [List.length_append]; exact room }
  else c

end StateChunk

/-- The chunk that is filled, whether it is open, and the chunks that were sent. -/
structure SnapshotBuilder where
  current : StateChunk
  currentActive : Bool
  sent : List StateChunk

namespace SnapshotBuilder

def start : SnapshotBuilder := ⟨.empty, false, []⟩

def flushIfNeeded (stage : List UInt8) (b : SnapshotBuilder) : SnapshotBuilder :=
  if b.currentActive ∧ b.current.stageName.bytes ≠ stage then
    ⟨.empty, false, b.sent ++ [b.current]⟩
  else b

/-- `addShine`. -/
def addShine (b : SnapshotBuilder) (sh : OwnedShine) : SnapshotBuilder :=
  if sh.stage.bytes.isEmpty then b
  else
    let b := b.flushIfNeeded sh.stage.bytes
    let b :=
      if b.currentActive then b
      else { b with current := { b.current with stageName := .ofBytes sh.stage.bytes }, currentActive := true }
    { b with current := b.current.addShine (.of sh) }

/-- `finalize`: what was sent in the end. -/
def finalize (b : SnapshotBuilder) : List StateChunk :=
  if b.currentActive then b.sent ++ [b.current] else b.sent

end SnapshotBuilder

/-- The chunks of the shines. -/
def shineChunks (shines : List OwnedShine) : List StateChunk :=
  (shines.foldl SnapshotBuilder.addShine .start).finalize

/-- The `_meta` chunk. -/
def metaChunk (captures : List CString) (goalSent : Bool) : StateChunk :=
  { captures.foldl StateChunk.addCapture { stageName := .ofBytes (ascii "_meta") } with
    includeGoalReached := true
    goalReached := goalSent }

/-- `sendSnapshot` up to the end of the snapshot. -/
def sendSnapshot (modVer : List UInt8) (shines : List OwnedShine) (captures : List CString)
    (goalSent : Bool) : List Outgoing :=
  .stateBegin ⟨modVer, -1⟩ ::
    ((shineChunks shines).map .stateChunk ++ [.stateChunk (metaChunk captures goalSent), .stateEnd])

/-! ## The chunks -/

/-- The stage name as a chunk keeps it. -/
def stageOf (sh : OwnedShine) : CStr kCheckFieldCap := .ofBytes sh.stage.bytes

/-- Consecutive shines that go into one chunk: each has the stage name that the chunk has kept. -/
def runs : List OwnedShine → List (List OwnedShine)
  | [] => []
  | x :: xs =>
      match runs xs with
      | (y :: run) :: rest =>
          if (stageOf x).bytes = y.stage.bytes then (x :: y :: run) :: rest
          else [x] :: (y :: run) :: rest
      | rest => [x] :: rest

/-- The chunk of a run that starts with a shine. -/
def chunkOf (run : List OwnedShine) (x : OwnedShine) : StateChunk where
  stageName := stageOf x
  shines := (run.map ShineEntry.of).take kSnapshotMaxShinesPerStage
  shineRoom := List.length_take_le _ _

/-- The shines that a chunk keeps of its run. -/
def keptShines (shines : List OwnedShine) : List OwnedShine :=
  (runs shines).flatMap fun run => run.take kSnapshotMaxShinesPerStage

theorem ofBytes_of_short {cap : ℕ} [NeZero cap] {s : List UInt8} (short : s.length < cap)
    (no_nul : 0 ∉ s) : (CStr.ofBytes s : CStr cap).bytes = s := by
  have whole : s.take (cap - 1) = s := List.take_of_length_le (by omega)
  change (s.take (cap - 1)).takeWhile (· != 0) = s
  rw [whole, List.takeWhile_eq_self_iff]
  intro b member
  rw [bne_iff_ne]
  rintro rfl
  exact no_nul member

theorem ofBytes_bytes {cap : ℕ} [NeZero cap] (s : CStr cap) : (CStr.ofBytes s.bytes : CStr cap) = s :=
  CStr.ext (ofBytes_of_short s.short s.noNul)

/-- A shine whose stage is the name kept of another's has the same name kept. -/
theorem stageOf_eq {x y : OwnedShine} (same : (stageOf x).bytes = y.stage.bytes) :
    stageOf y = stageOf x := by
  rw [stageOf, ← same, ofBytes_bytes]

theorem flatten_runs (shines : List OwnedShine) : (runs shines).flatten = shines := by
  induction shines with
  | nil => rfl
  | cons x xs ih =>
      rw [runs]
      split
      · next y run rest tail =>
          rw [tail] at ih
          split_ifs
          · rw [← ih]
            rfl
          · rw [← ih]
            rfl
      · rw [List.flatten_cons, ih, List.singleton_append]

/-- No run is empty. -/
theorem ne_nil_of_mem_runs {shines run : List OwnedShine} (member : run ∈ runs shines) : run ≠ [] := by
  induction shines generalizing run with
  | nil => cases member
  | cons x xs ih =>
      rw [runs] at member
      split at member
      · next y tail_run rest tail =>
          split_ifs at member
          · rcases List.mem_cons.1 member with rfl | later
            · exact List.cons_ne_nil _ _
            · exact ih (tail ▸ List.mem_cons_of_mem _ later)
          · rcases List.mem_cons.1 member with rfl | later
            · exact List.cons_ne_nil _ _
            · exact ih (tail ▸ later)
      · rcases List.mem_cons.1 member with rfl | later
        · exact List.cons_ne_nil _ _
        · exact ih later

/-- All shines of a run have one stage name kept. -/
theorem stageOf_of_mem_runs {shines : List OwnedShine} {x : OwnedShine} {run : List OwnedShine}
    (member : x :: run ∈ runs shines) : ∀ y ∈ x :: run, stageOf y = stageOf x := by
  induction shines generalizing x run with
  | nil => cases member
  | cons z xs ih =>
      have alone : ∀ y ∈ [z], stageOf y = stageOf z := by
        intro y here
        rw [List.mem_singleton.1 here]
      rw [runs] at member
      split at member
      · next w tail_run rest tail =>
          split_ifs at member with same
          · rcases List.mem_cons.1 member with first | later
            · obtain ⟨rfl, rfl⟩ := List.cons.inj first
              intro y here
              rcases List.mem_cons.1 here with rfl | later
              · rfl
              · exact (ih (tail ▸ List.mem_cons_self) y later).trans (stageOf_eq same)
            · exact ih (tail ▸ List.mem_cons_of_mem _ later)
          · rcases List.mem_cons.1 member with first | later
            · obtain ⟨rfl, rfl⟩ := List.cons.inj first
              exact alone
            · exact ih (tail ▸ later)
      · rcases List.mem_cons.1 member with first | later
        · obtain ⟨rfl, rfl⟩ := List.cons.inj first
          exact alone
        · exact ih later

/-! ## What the builder sends -/

/-- The chunk of a run. -/
def runChunk : List OwnedShine → StateChunk
  | [] => .empty
  | x :: run => chunkOf (x :: run) x

/-- A chunk takes a run in. -/
def fill (c : StateChunk) (run : List OwnedShine) : StateChunk :=
  { c with
    shines := (c.shines ++ run.map ShineEntry.of).take kSnapshotMaxShinesPerStage
    shineRoom := List.length_take_le _ _ }

theorem addShine_eq_fill (c : StateChunk) (x : OwnedShine) : c.addShine (.of x) = fill c [x] := by
  unfold StateChunk.addShine
  by_cases room : c.shines.length < kSnapshotMaxShinesPerStage
  · rw [dif_pos room]
    ext1
    · rfl
    · exact (List.take_of_length_le (by rw [List.length_append]; exact room)).symm
    · rfl
    · rfl
    · rfl
  · have full : c.shines.length = kSnapshotMaxShinesPerStage :=
      le_antisymm c.shineRoom (Nat.not_lt.1 room)
    rw [dif_neg room]
    ext1
    · rfl
    · exact (List.take_left' full).symm
    · rfl
    · rfl
    · rfl

theorem fill_fill (c : StateChunk) (run run' : List OwnedShine) :
    fill (fill c run) run' = fill c (run ++ run') := by
  ext1
  · rfl
  · change ((c.shines ++ run.map ShineEntry.of).take _ ++ run'.map ShineEntry.of).take _ =
      (c.shines ++ (run ++ run').map ShineEntry.of).take _
    rw [List.map_append, ← List.append_assoc]
    generalize c.shines ++ run.map ShineEntry.of = before
    rw [List.take_append, List.take_append, List.take_take, min_self, List.length_take]
    congr 2
    omega
  · rfl
  · rfl
  · rfl

/-- The chunks that are sent when one is open and more shines come. -/
def chunksAfter (c : StateChunk) (rest : List (List OwnedShine)) : List StateChunk :=
  match rest with
  | (y :: run) :: rest =>
      if c.stageName.bytes = y.stage.bytes then fill c (y :: run) :: rest.map runChunk
      else c :: runChunk (y :: run) :: rest.map runChunk
  | rest => c :: rest.map runChunk

theorem chunksAfter_runs (c : StateChunk) (x : OwnedShine) (xs : List OwnedShine) :
    chunksAfter c (runs (x :: xs)) =
      if c.stageName.bytes = x.stage.bytes then chunksAfter (fill c [x]) (runs xs)
      else c :: chunksAfter (fill (.named x.stage.bytes) [x]) (runs xs) := by
  have kept (same : c.stageName.bytes = x.stage.bytes) : (stageOf x).bytes = c.stageName.bytes := by
    rw [stageOf, ← same, ofBytes_bytes]
  rw [runs]
  cases tail : runs xs with
  | nil =>
      simp only [chunksAfter, List.map_nil]
      rfl
  | cons run rest =>
      cases run with
      | nil => exact absurd rfl (ne_nil_of_mem_runs (tail ▸ List.mem_cons_self))
      | cons y run =>
          have joined : fill (fill c [x]) (y :: run) = fill c (x :: y :: run) := fill_fill c [x] _
          have opened : fill (fill (.named x.stage.bytes) [x]) (y :: run) = runChunk (x :: y :: run) :=
            fill_fill _ [x] _
          have name : (fill c [x]).stageName = c.stageName := rfl
          have new_name : (fill (.named x.stage.bytes) [x]).stageName = stageOf x := rfl
          by_cases same : c.stageName.bytes = x.stage.bytes
          · have next_same := kept same
            by_cases more : (stageOf x).bytes = y.stage.bytes
            · have here : c.stageName.bytes = y.stage.bytes := next_same ▸ more
              simp only [if_pos more, chunksAfter, if_pos same, name, if_pos here, joined]
            · have apart : ¬ c.stageName.bytes = y.stage.bytes := next_same ▸ more
              simp only [if_neg more, chunksAfter, if_pos same, name, if_neg apart, List.map_cons]
          · by_cases more : (stageOf x).bytes = y.stage.bytes
            · simp only [if_pos more, chunksAfter, if_neg same, new_name, opened]
            · simp only [if_neg more, chunksAfter, if_neg same, new_name, List.map_cons]
              rfl

theorem addShine_active {b : SnapshotBuilder} (active : b.currentActive = true) {x : OwnedShine}
    (stage : x.stage.bytes ≠ []) :
    b.addShine x =
      if b.current.stageName.bytes = x.stage.bytes then { b with current := fill b.current [x] }
      else ⟨fill (.named x.stage.bytes) [x], true, b.sent ++ [b.current]⟩ := by
  have named : x.stage.bytes.isEmpty = false := List.isEmpty_eq_false_iff.2 stage
  unfold SnapshotBuilder.addShine
  rw [named, if_neg Bool.false_ne_true]
  by_cases same : b.current.stageName.bytes = x.stage.bytes
  · have stays : b.flushIfNeeded x.stage.bytes = b := if_neg fun h => h.2 same
    dsimp only
    rw [stays, if_pos same, if_pos active, addShine_eq_fill]
  · have leaves : b.flushIfNeeded x.stage.bytes = ⟨.empty, false, b.sent ++ [b.current]⟩ :=
      if_pos ⟨active, same⟩
    dsimp only
    rw [leaves, if_neg same, if_neg Bool.false_ne_true, addShine_eq_fill]
    rfl

theorem foldl_addShine {b : SnapshotBuilder} (active : b.currentActive = true)
    {shines : List OwnedShine} (stages : ∀ x ∈ shines, x.stage.bytes ≠ []) :
    (shines.foldl SnapshotBuilder.addShine b).finalize = b.sent ++ chunksAfter b.current (runs shines) := by
  induction shines generalizing b with
  | nil =>
      rw [List.foldl_nil, SnapshotBuilder.finalize, if_pos active]
      rfl
  | cons x xs ih =>
      have here := addShine_active active (stages x List.mem_cons_self)
      have later := fun y member => stages y (List.mem_cons_of_mem x member)
      rw [List.foldl_cons, here, chunksAfter_runs]
      split_ifs with same
      · exact ih (b := { b with current := fill b.current [x] }) active later
      · rw [ih (b := ⟨fill (.named x.stage.bytes) [x], true, b.sent ++ [b.current]⟩) rfl later,
          List.append_assoc, List.singleton_append]

/-- Shines without a stage are passed over. -/
theorem foldl_named (b : SnapshotBuilder) (shines : List OwnedShine) :
    shines.foldl SnapshotBuilder.addShine b =
      (shines.filter fun x => ¬ x.stage.bytes.isEmpty).foldl SnapshotBuilder.addShine b := by
  induction shines generalizing b with
  | nil => rfl
  | cons x xs ih =>
      rw [List.foldl_cons, ih]
      cases empty : x.stage.bytes.isEmpty with
      | true =>
          have stays : b.addShine x = b := if_pos empty
          rw [stays, List.filter_cons_of_neg (by simp [empty])]
      | false => rw [List.filter_cons_of_pos (by simp [empty]), List.foldl_cons]

/-- One chunk is sent for each run of the shines that have a stage. -/
theorem shineChunks_eq (shines : List OwnedShine) :
    shineChunks shines = (runs (shines.filter fun x => ¬ x.stage.bytes.isEmpty)).map runChunk := by
  have stages : ∀ x ∈ shines.filter (fun x => ¬ x.stage.bytes.isEmpty), x.stage.bytes ≠ [] := by
    intro x member
    have test := (List.mem_filter.1 member).2
    simp only [decide_eq_true_eq, List.isEmpty_iff] at test
    exact test
  rw [shineChunks, foldl_named]
  generalize shines.filter (fun x => ¬ x.stage.bytes.isEmpty) = xs at stages ⊢
  cases xs with
  | nil => rfl
  | cons x xs =>
      have named : x.stage.bytes.isEmpty = false :=
        List.isEmpty_eq_false_iff.2 (stages x List.mem_cons_self)
      have opened : SnapshotBuilder.start.addShine x = ⟨fill (.named x.stage.bytes) [x], true, []⟩ := by
        unfold SnapshotBuilder.addShine
        rw [named, if_neg Bool.false_ne_true]
        change SnapshotBuilder.mk (StateChunk.addShine (.named x.stage.bytes) (.of x)) true [] = _
        rw [addShine_eq_fill]
      have later := fun y member => stages y (List.mem_cons_of_mem x member)
      have first := chunksAfter_runs (.named []) x xs
      have unnamed : ¬ (StateChunk.named []).stageName.bytes = x.stage.bytes := by
        intro same
        exact stages x List.mem_cons_self same.symm
      rw [if_neg unnamed] at first
      rw [List.foldl_cons, opened, foldl_addShine rfl later, List.nil_append]
      have whole : chunksAfter (.named []) (runs (x :: xs)) =
          .named [] :: (runs (x :: xs)).map runChunk := by
        cases start : runs (x :: xs) with
        | nil => rfl
        | cons run rest =>
            cases run with
            | nil => rfl
            | cons y run =>
                have flat := flatten_runs (x :: xs)
                rw [start] at flat
                have same : y = x := (List.cons.inj flat).1
                rw [chunksAfter, same, if_neg unnamed, List.map_cons]
      exact (List.cons.inj (first.symm.trans whole)).2

/-- The captures that have a name, as a field holds it. -/
def namedCaptures (captures : List CString) : List (CStr kCheckFieldCap) :=
  (captures.filter fun hack => ¬ hack.bytes.isEmpty).map fun hack => .ofBytes hack.bytes

/-- The captures that the `_meta` chunk keeps. -/
def keptCaptures (captures : List CString) : List (CStr kCheckFieldCap) :=
  (namedCaptures captures).take kSnapshotMaxCaptures

theorem foldl_addCapture (captures : List CString) (c : StateChunk) :
    (captures.foldl StateChunk.addCapture c).captures =
        (c.captures ++ namedCaptures captures).take kSnapshotMaxCaptures ∧
      (captures.foldl StateChunk.addCapture c).stageName = c.stageName ∧
      (captures.foldl StateChunk.addCapture c).shines = c.shines := by
  induction captures generalizing c with
  | nil =>
      rw [show namedCaptures [] = [] from rfl, List.append_nil]
      exact ⟨(List.take_of_length_le c.captureRoom).symm, rfl, rfl⟩
  | cons hack captures ih =>
      obtain ⟨kept, name, shines⟩ := ih (c.addCapture hack)
      rw [List.foldl_cons, kept, name, shines]
      unfold StateChunk.addCapture
      cases empty : hack.bytes.isEmpty with
      | true =>
          have passed : namedCaptures (hack :: captures) = namedCaptures captures := by
            rw [namedCaptures, List.filter_cons_of_neg (by simp [empty]), namedCaptures]
          rw [if_pos rfl, passed]
          exact ⟨rfl, rfl, rfl⟩
      | false =>
          have taken : namedCaptures (hack :: captures) =
              .ofBytes hack.bytes :: namedCaptures captures := by
            rw [namedCaptures, List.filter_cons_of_pos (by simp [empty]), namedCaptures, List.map_cons]
          rw [if_neg Bool.false_ne_true, taken]
          split_ifs with room
          · refine ⟨?_, rfl, rfl⟩
            rw [List.append_assoc, List.singleton_append]
          · have full : c.captures.length = kSnapshotMaxCaptures :=
              le_antisymm c.captureRoom (Nat.not_lt.1 room)
            refine ⟨?_, rfl, rfl⟩
            rw [List.take_left' full, List.take_left' full]

theorem metaChunk_captures (captures : List CString) (goalSent : Bool) :
    (metaChunk captures goalSent).captures = keptCaptures captures :=
  (foldl_addCapture captures _).1

end SmoArchipelago.Switch.ApProtocol
