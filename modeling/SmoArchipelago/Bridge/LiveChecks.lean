import SmoArchipelago.Bridge.Snapshot

/-! # Buffered live checks

A check that comes in before the server side is ready is buffered and later goes through
the dispatcher of the snapshots, which is compared with the way of a check that comes in
after.

## Implementation notes

`on_check` is a parameter that may change any state and may raise. Where it raises, the
receive loop goes on with the next message, and the drain does not. -/

namespace SmoArchipelago.Bridge

/-- The server of the Switch as live checks see it, with the calls of `on_check` so far. -/
structure SwitchServer (σ : Type*) where
  state : σ
  apReady : Bool := false
  pendingLiveChecks : List Check := []
  calls : List Check := []

namespace SwitchServer

variable {σ : Type*} (onCheck : Check → σ → σ × Bool)

/-- `_dispatch_check`, with whether it raised. -/
def dispatchCheck (c : Check) (s : SwitchServer σ) : SwitchServer σ × Bool :=
  let r := onCheck c s.state
  ({ s with state := r.1, calls := s.calls ++ [c] }, r.2)

/-- A check from the active Switch; the receive loop catches what it raises. -/
def dispatchFrom (s : SwitchServer σ) (c : Check) : SwitchServer σ :=
  if s.apReady then (s.dispatchCheck onCheck c).1
  else { s with pendingLiveChecks := s.pendingLiveChecks ++ [c] }

/-- The loop of `_dispatch_snapshot_entries`. -/
def dispatchSnapshotEntries : List Check → SwitchServer σ → SwitchServer σ
  | [], s => s
  | c :: rest, s =>
      if DroppedFromSnapshot c then dispatchSnapshotEntries rest s
      else
        match s.dispatchCheck onCheck c with
        | (s, true) => s
        | (s, false) => dispatchSnapshotEntries rest s

/-- `drain_pending_snapshot`, as far as it concerns live checks. -/
def drainPendingSnapshot (s : SwitchServer σ) : SwitchServer σ :=
  dispatchSnapshotEntries onCheck s.pendingLiveChecks { s with pendingLiveChecks := [] }

/-- The checks come in while the server side is not ready, and are drained when it is. -/
def buffered (s : SwitchServer σ) (checks : List Check) : SwitchServer σ :=
  drainPendingSnapshot onCheck
    { checks.foldl (dispatchFrom onCheck) { s with apReady := false } with apReady := true }

/-- The same checks come in when the server side is ready. -/
def direct (s : SwitchServer σ) (checks : List Check) : SwitchServer σ :=
  checks.foldl (dispatchFrom onCheck) { s with apReady := true }

/-- No call but the last raises. -/
def RaisesLast : σ → List Check → Prop
  | _, [] => True
  | st, c :: rest =>
      (rest = [] ∨ (onCheck c st).2 = false) ∧ RaisesLast (onCheck c st).1 rest

variable {onCheck} {s : SwitchServer σ}

theorem foldl_notReady (waiting : s.apReady = false) (checks : List Check) :
    checks.foldl (dispatchFrom onCheck) s =
      { s with pendingLiveChecks := s.pendingLiveChecks ++ checks } := by
  induction checks generalizing s with
  | nil => rw [List.append_nil, List.foldl_nil]
  | cons c rest ih =>
      have first : dispatchFrom onCheck s c =
          { s with pendingLiveChecks := s.pendingLiveChecks ++ [c] } := by
        rw [dispatchFrom, waiting]
        rfl
      have later := ih (s := { s with pendingLiveChecks := s.pendingLiveChecks ++ [c] }) waiting
      rw [List.foldl_cons, first, later]
      simp only [List.append_assoc, List.cons_append, List.nil_append]

/-- A check that comes in when the server side is ready is passed on as it is. -/
theorem direct_cons (ready : s.apReady = true) (c : Check) (rest : List Check) :
    (c :: rest).foldl (dispatchFrom onCheck) s =
      rest.foldl (dispatchFrom onCheck) (s.dispatchCheck onCheck c).1 := by
  rw [List.foldl_cons, dispatchFrom, if_pos ready]

theorem direct_calls (ready : s.apReady = true) (checks : List Check) :
    (checks.foldl (dispatchFrom onCheck) s).calls = s.calls ++ checks := by
  induction checks generalizing s with
  | nil => exact (List.append_nil _).symm
  | cons c rest ih =>
      have later := ih (s := (s.dispatchCheck onCheck c).1) ready
      rw [direct_cons ready, later]
      simp [dispatchCheck]

/-- The dispatcher calls for some of the checks at most. -/
theorem dispatchSnapshotEntries_calls (onCheck : Check → σ → σ × Bool) (checks : List Check) (s : SwitchServer σ) :
    ∃ made, made.Sublist checks ∧
      (dispatchSnapshotEntries onCheck checks s).calls = s.calls ++ made := by
  induction checks generalizing s with
  | nil => exact ⟨[], List.Sublist.refl _, (List.append_nil _).symm⟩
  | cons c rest ih =>
      unfold dispatchSnapshotEntries
      split_ifs
      · obtain ⟨made, sub, calls⟩ := ih s
        exact ⟨made, sub.cons c, calls⟩
      · split
        · next s' raised dispatched =>
            have first := congrArg (fun r => r.1.calls) dispatched
            exact ⟨[c], (List.nil_sublist rest).cons_cons c, first.symm⟩
        · next s' dispatched =>
            have first := congrArg (fun r => r.1.calls) dispatched
            obtain ⟨made, sub, calls⟩ := ih s'
            refine ⟨c :: made, sub.cons_cons c, ?_⟩
            rw [calls, ← first]
            simp [dispatchCheck]

theorem dispatchSnapshotEntries_eq (checks : List Check) (ready : s.apReady = true)
    (kept : ∀ c ∈ checks, ¬ DroppedFromSnapshot c) (last : RaisesLast onCheck s.state checks) :
    dispatchSnapshotEntries onCheck checks s = checks.foldl (dispatchFrom onCheck) s := by
  induction checks generalizing s with
  | nil => rfl
  | cons c rest ih =>
      rw [direct_cons ready, dispatchSnapshotEntries, if_neg (kept c List.mem_cons_self)]
      have next := ih (s := (s.dispatchCheck onCheck c).1) ready
        (fun c' member => kept c' (List.mem_cons_of_mem c member)) last.2
      rcases last.1 with none_left | quiet
      · rw [none_left]
        split <;> rename_i dispatched <;> rw [dispatched] <;> rfl
      · have fine : s.dispatchCheck onCheck c = ((s.dispatchCheck onCheck c).1, false) :=
          Prod.ext rfl quiet
        rw [fine]
        exact next

/-- Where the dispatcher calls for every check, it drops none and none but the last raises. -/
theorem of_all_called (checks : List Check)
    (all : (dispatchSnapshotEntries onCheck checks s).calls = s.calls ++ checks) :
    (∀ c ∈ checks, ¬ DroppedFromSnapshot c) ∧ RaisesLast onCheck s.state checks := by
  induction checks generalizing s with
  | nil => exact ⟨nofun, trivial⟩
  | cons c rest ih =>
      by_cases dropped : DroppedFromSnapshot c
      · obtain ⟨made, sub, calls⟩ := dispatchSnapshotEntries_calls onCheck rest s
        rw [dispatchSnapshotEntries, if_pos dropped, calls] at all
        have same := congrArg List.length (List.append_cancel_left all)
        have short := sub.length_le
        rw [List.length_cons] at same
        omega
      · rw [dispatchSnapshotEntries, if_neg dropped] at all
        cases raised : (onCheck c s.state).2 with
        | true =>
            have dispatched : s.dispatchCheck onCheck c = ((s.dispatchCheck onCheck c).1, true) :=
              Prod.ext rfl raised
            rw [dispatched] at all
            have only : [c] = c :: rest := List.append_cancel_left all
            have none_left : rest = [] := (List.cons.inj only).2.symm
            rw [none_left]
            exact ⟨fun c' member => List.mem_singleton.1 member ▸ dropped, .inl rfl, trivial⟩
        | false =>
            have dispatched : s.dispatchCheck onCheck c = ((s.dispatchCheck onCheck c).1, false) :=
              Prod.ext rfl raised
            rw [dispatched] at all
            have called : (s.dispatchCheck onCheck c).1.calls ++ rest = s.calls ++ c :: rest := by
              simp [dispatchCheck]
            obtain ⟨kept, last⟩ := ih (all.trans called.symm)
            refine ⟨?_, .inr raised, last⟩
            intro c' member
            rcases List.mem_cons.1 member with rfl | later
            · exact dropped
            · exact kept c' later

/-- Buffered checks are passed on once each, in order and as they would have been without the
buffer, if and only if none is of a kind that the snapshots drop and none but the last raises. -/
theorem buffered_eq_direct_iff (onCheck : Check → σ → σ × Bool) (st : σ) (checks : List Check) :
    (buffered onCheck { state := st } checks).calls = checks ∧
        buffered onCheck { state := st } checks = direct onCheck { state := st } checks ↔
      (∀ c ∈ checks, ¬ DroppedFromSnapshot c) ∧ RaisesLast onCheck st checks := by
  have drained : buffered onCheck { state := st } checks =
      dispatchSnapshotEntries onCheck checks { state := st, apReady := true } := by
    rw [buffered, foldl_notReady rfl]
    rfl
  rw [drained, direct]
  constructor
  · exact fun same => of_all_called checks same.1
  · rintro ⟨kept, last⟩
    have same := dispatchSnapshotEntries_eq (s := { state := st, apReady := true }) checks rfl kept last
    rw [same]
    exact ⟨direct_calls rfl checks, rfl⟩

/-- `report_check` as the handler: what it sends comes back at once. -/
def reportCheck (disk : Disk) (c : Check) (ctx : Context) : Context × Bool :=
  match ctx.beginReport disk c with
  | (ctx, .sending name id) => ((ctx.finishReport name id).1, false)
  | (ctx, _) => (ctx, false)

/-- A capture that comes in during the handshake is never reported. -/
theorem buffered_capture_lost :
    (direct (reportCheck {}) { state := { dp := samplePackage } }
        [{ kind := some "capture", cap := some "Frog" }]).state.locationsChecked = {12} ∧
      (buffered (reportCheck {}) { state := { dp := samplePackage } }
        [{ kind := some "capture", cap := some "Frog" }]).calls = [] ∧
      (buffered (reportCheck {}) { state := { dp := samplePackage } }
        [{ kind := some "capture", cap := some "Frog" }]).state.locationsChecked = ∅ := by
  decide

end SwitchServer

end SmoArchipelago.Bridge
