import SmoArchipelago.Bridge.Delivery

/-! # Exactly-once mirroring

Once all handlers have finished, each delivered position is mirrored exactly once if and
only if every handler started safely; the counters are then those of one pass over the
delivered history, apart from the bonus grants. -/

namespace SmoArchipelago.Bridge

open Library Runs BridgeState
open scoped List

/-- One pass of `add_received_item` over the entries. -/
def sequential (ctx : Context) (items : List NetworkItem) : BridgeState :=
  (items.filterMap ctx.parseReceivedItem).foldl addReceivedItem {}

theorem counters_foldl (s : BridgeState) (evts : List ItemEvent) (k : String) :
    (evts.foldl addReceivedItem s).moonsReceivedByKingdom.getD k 0 =
        s.moonsReceivedByKingdom.getD k 0 + (evts.map (moonCredit k)).sum ∧
      (evts.foldl addReceivedItem s).capturesReceivedCount.getD k 0 =
        s.capturesReceivedCount.getD k 0 + (evts.map (captureCredit k)).sum ∧
      (evts.foldl addReceivedItem s).abilitiesReceived.getD k 0 =
        s.abilitiesReceived.getD k 0 + (evts.map (abilityCredit k)).sum := by
  induction evts generalizing s with
  | nil => exact ⟨rfl, rfl, rfl⟩
  | cons evt evts ih =>
      obtain ⟨moons, captures, abilities⟩ := ih (s.addReceivedItem evt)
      obtain ⟨moon, capture, ability⟩ := Mirror.counters_addReceivedItem s evt k
      simp only [List.foldl_cons, List.map_cons, List.sum_cons]
      omega

namespace Delivery

variable (H : List NetworkItem) (ctx : Context)

/-- A run of the received-items handlers alone, in one context. -/
structure OnlyItems (s : Delivery) : Prop where
  sent : Sent H s
  ctx_eq : s.loop.ctx = ctx
  ready : ∀ p ∈ s.loop.ready, ∃ index items, p = .receivedItems index items
  suspended : ∀ t ∈ s.loop.suspended, ∃ h, t = .received h
  counted : s.loop.mirror.Counted
  follows : s.loop.mirror.Follows some fun p => H[p]?.bind ctx.parseReceivedItem

variable {H ctx}

theorem reads_history (p : ℕ) (ni : NetworkItem) (evt : ItemEvent) (here : H[p]? = some ni)
    (parsed : ctx.parseReceivedItem ni = some evt) :
    some evt = H[p]?.bind ctx.parseReceivedItem := by
  rw [here, Option.bind_some, parsed]

theorem onlyItems_step (s : Delivery) (e : Event) (h : OnlyItems H ctx s) :
    OnlyItems H ctx (s.step H e) := by
  have sent := sent_step s e h.sent
  cases e with
  | deliver n =>
      refine ⟨sent, h.ctx_eq, ?_, h.suspended, h.counted, h.follows⟩
      intro p member
      rcases List.mem_append.1 member with old | new
      · exact h.ready p old
      · exact ⟨_, _, List.mem_singleton.1 new⟩
  | resend n =>
      refine ⟨sent, h.ctx_eq, ?_, h.suspended, h.counted, h.follows⟩
      intro p member
      rcases List.mem_append.1 member with old | new
      · exact h.ready p old
      · exact ⟨_, _, List.mem_singleton.1 new⟩
  | start disk =>
      cases hready : s.loop.ready with
      | nil =>
          have same : s.step H (.start disk) = s := by
            simp only [step, Loop.step_start_nil hready, hready]
          rw [same]
          exact h
      | cons p ps =>
          obtain ⟨index, items, rfl⟩ := h.ready p (by simp [hready])
          have loop := Loop.step_start_received disk hready
          have chain := h.sent.chain
          rw [hready] at chain
          constructor
          · exact sent
          · simp only [step, loop, h.ctx_eq]
          · intro p member
            simp only [step, loop] at member
            exact h.ready p (by simp [hready, member])
          · intro t member
            simp only [step, loop] at member
            rcases List.mem_append.1 member with old | new
            · exact h.suspended t old
            · obtain ⟨r, -, rfl⟩ := List.mem_map.1 new
              exact ⟨r, rfl⟩
          · simp only [step, loop]
            exact startReceived_kept _ Mirror.counted_kept h.counted index items
          · simp only [step, loop, h.ctx_eq]
            exact (processItems_follows _ reads_history h.follows chain.2.2.1).1
  | resume k =>
      cases hk : s.loop.suspended[k]? with
      | none =>
          have same : s.step H (.resume k) = s := by simp only [step, Loop.step_resume_none hk]
          rw [same]
          exact h
      | some t =>
          obtain ⟨r, rfl⟩ := h.suspended t (List.mem_of_getElem? hk)
          have loop := Loop.step_resume_received hk
          have here : r ∈ s.loop.handlers :=
            (Loop.handlers_perm hk).mem_iff.2 (List.mem_append_left _ (List.mem_singleton.2 rfl))
          constructor
          · exact sent
          · simp only [step, loop, h.ctx_eq]
          · simp only [step, loop]
            exact h.ready
          · intro t member
            simp only [step, loop] at member
            rcases List.mem_append.1 member with old | new
            · exact h.suspended t (List.eraseIdx_subset old)
            · obtain ⟨r', -, rfl⟩ := List.mem_map.1 new
              exact ⟨r', rfl⟩
          · simp only [step, loop]
            exact resumeReceived_kept _ Mirror.counted_kept h.counted r
          · simp only [step, loop, h.ctx_eq]
            exact (resumeReceived_follows _ reads_history h.follows (h.sent.slices r here)).1

theorem run_onlyItems (H : List NetworkItem) (ctx : Context) (events : List Event) :
    OnlyItems H ctx (run (step H) { loop := { ctx } } events) := by
  apply invariant_run
  · exact onlyItems_step
  · exact ⟨sent_start H ctx, rfl, fun _ h => absurd h List.not_mem_nil,
      fun _ h => absurd h List.not_mem_nil, Mirror.counted_start, rfl⟩

theorem map_range_take {α : Type*} (f : NetworkItem → Option α) {n : ℕ} (bound : n ≤ H.length) :
    (List.range n).map (fun p => H[p]?.bind f) = (H.take n).map f := by
  apply List.ext_getElem
  · simp [bound]
  · intro i here _
    have inside : i < H.length := by
      simp only [List.length_map, List.length_range] at here
      omega
    simp [inside]

/-- The mirror of a delivered history: every position once, the events those of the
history, and the counters those of a single pass, with the bonuses added. -/
structure MirroredOnce (s : Delivery) : Prop where
  once : s.loop.mirror.positions ~ List.range s.delivered
  items : s.loop.mirror.state.receivedItems ~
    (H.take s.delivered).filterMap s.loop.ctx.parseReceivedItem
  moons : ∀ k, s.loop.mirror.state.moonsReceivedByKingdom.getD k 0 =
    (sequential s.loop.ctx (H.take s.delivered)).moonsReceivedByKingdom.getD k 0
  captures : ∀ k, s.loop.mirror.state.capturesReceivedCount.getD k 0 =
    (sequential s.loop.ctx (H.take s.delivered)).capturesReceivedCount.getD k 0 +
      s.loop.mirror.bonusCaptures.count k
  abilities : ∀ k, s.loop.mirror.state.abilitiesReceived.getD k 0 =
    (sequential s.loop.ctx (H.take s.delivered)).abilitiesReceived.getD k 0 +
      s.loop.mirror.bonusAbilities.count k

/-- With the positions mirrored once, the rest of the account follows. -/
theorem mirroredOnce_of_once {s : Delivery} (h : OnlyItems H ctx s)
    (once : s.loop.mirror.positions ~ List.range s.delivered) : MirroredOnce (H := H) s := by
  have items : s.loop.mirror.state.receivedItems ~
      (H.take s.delivered).filterMap s.loop.ctx.parseReceivedItem := by
    rw [h.ctx_eq]
    have events := once.map fun p => H[p]?.bind ctx.parseReceivedItem
    rw [← h.follows, map_range_take _ h.sent.bound] at events
    have names := events.filterMap id
    simpa [List.filterMap_map] using names
  have credits (f : ItemEvent → ℕ) := (items.map f).sum_eq
  have pass (k : String) := counters_foldl {}
    ((H.take s.delivered).filterMap s.loop.ctx.parseReceivedItem) k
  constructor
  · exact once
  · exact items
  · intro k
    rw [h.counted.moons k, credits, sequential, (pass k).1]
    exact (Nat.zero_add _).symm
  · intro k
    rw [h.counted.captures k, credits, sequential, (pass k).2.1]
    exact congrArg (· + _) (Nat.zero_add _).symm
  · intro k
    rw [h.counted.abilities k, credits, sequential, (pass k).2.2]
    exact congrArg (· + _) (Nat.zero_add _).symm

/-- When all handlers have finished, the delivered history is mirrored exactly once if and
only if each handler started with a new slice or with everything sent before mirrored. -/
theorem mirrored_once_iff (ids : ∀ ni ∈ H, ni.item.isSome) (events : List Event)
    (quiet : (run (step H) { loop := { ctx } } events).loop.Quiet) :
    MirroredOnce (H := H) (run (step H) { loop := { ctx } } events) ↔
      Along (step H) SafeStart { loop := { ctx } } events := by
  rw [← claimedOnce_iff ids ctx events]
  have only := run_onlyItems H ctx events
  generalize run (step H) { loop := { ctx } } events = s at quiet only ⊢
  have claims : s.claimed = s.loop.mirror.positions := by
    simp [claimed, Loop.total, Loop.handlers, quiet.2]
  have all : s.started = s.delivered := by
    have chain := only.sent.chain
    rw [quiet.1] at chain
    exact chain
  rw [ClaimedOnce, claims, all]
  constructor
  · exact MirroredOnce.once
  · exact mirroredOnce_of_once only

/-- A resend whose handler starts while the first is waiting with one moon mirrored. -/
def resendRun : List Event :=
  [.deliver 2, .start {}, .resend 0, .start {}, .resume 0, .resume 0, .resume 0, .resume 0,
    .resume 0, .resume 0, .resume 0]

def twoMoons : List NetworkItem := [{ item := some 3 }, { item := some 3 }]

theorem mirrored_once_iff_resendRun :
    MirroredOnce (H := twoMoons)
        (run (step twoMoons) { loop := { ctx := { dp := samplePackage } } } resendRun) ↔
      Along (step twoMoons) SafeStart { loop := { ctx := { dp := samplePackage } } } resendRun :=
  mirrored_once_iff (by decide) resendRun ⟨rfl, rfl⟩

/-- The second moon is mirrored twice, and three moons are counted for two. -/
theorem resend_counts_twice :
    (run (step twoMoons) { loop := { ctx := { dp := samplePackage } } } resendRun).loop.Quiet ∧
      (run (step twoMoons) { loop := { ctx := { dp := samplePackage } } } resendRun).delivered = 2 ∧
      (run (step twoMoons) { loop := { ctx := { dp := samplePackage } } }
          resendRun).loop.mirror.positions = [0, 1, 1] ∧
      (run (step twoMoons) { loop := { ctx := { dp := samplePackage } } }
          resendRun).loop.mirror.state.moonsReceivedByKingdom.getD "Cap" 0 = 3 ∧
      (sequential { dp := samplePackage } twoMoons).moonsReceivedByKingdom.getD "Cap" 0 = 2 := by
  refine ⟨⟨rfl, rfl⟩, ?_⟩
  decide

end Delivery

end SmoArchipelago.Bridge
