import SmoArchipelago.Bridge.ReceivedItems
import SmoArchipelago.Library.Runs

/-! # The handler tasks on the event loop

Each packet becomes a task. Tasks start in the order they were created; a task that
waits may be resumed at any time, in any order.

## Implementation notes

The Connected handler is cut at its awaits like the received-items handler. The data
package is loaded before the first packet that is modelled. What the drain at the end of
the Connected handler sends to the server is the matter of the snapshot modules. -/

namespace SmoArchipelago.Bridge

open scoped List

/-- The fields of `slot_data` that are kept in the context. -/
structure SlotData where
  goal : Option ℕ := none
  deathLink : Option Bool := none
  capturesanity : Bool := true
  abilitysanity : Bool := true
  mmBonusCaptures : List String := []
  mmBonusAbilities : List String := []

/-- The location whose check is the goal, for the goal options that have one. -/
def goalLocByOption : Option ℕ → Option String
  | some 1 => some "Metro: A Traditional Festival!"
  | _ => none

/-- The awaits of the Connected handler, in order. -/
inductive ConnectedAwait where
  | updateDeathLink
  | deathlinkHelloack
  | capturesanityReplay
  | abilityState
  | talkatooPool
  | kingdomGates
  | entranceMap
  | shopLabels
  | apState
  | drainSnapshot
  | requestScout
  deriving DecidableEq

structure ConnectedTask where
  slotData : SlotData
  waits : ConnectedAwait

/-- Whether the Connected handler clears the previous slot's state: it compares the slot
names and nothing else. -/
def SlotChanged (old new : String) : Prop := old ≠ "" ∧ new ≠ "" ∧ old ≠ new

instance (old new : String) : Decidable (SlotChanged old new) :=
  inferInstanceAs (Decidable (_ ∧ _ ∧ _))

/-- The slot-change reset of the Connected handler. -/
def enterSlot (newSlot : String) (ctx : Context) (m : Mirror) : Context × Mirror :=
  if SlotChanged m.state.slot newSlot then
    ({ ctx with switchReportedLocIds := ∅, goalReported := false },
      { m.clearReceived with state := { m.clearReceived.state with slot := newSlot } })
  else (ctx, { m with state := { m.state with slot := newSlot } })

/-- The Connected handler from its start to its first await. -/
def startConnected (disk : Disk) (sd : SlotData) (ctx : Context) (m : Mirror) :
    Context × Mirror × ConnectedTask :=
  let ctx := (ctx.reloadMaps disk false).1
  let ready := { m with state := { m.state with apConn := "ready" } }
  let entered := enterSlot (ctx.auth.getD "") ctx ready
  ({ entered.1 with
      goalLocationName := goalLocByOption sd.goal
      capturesanityEnabled := sd.capturesanity
      abilitysanityEnabled := sd.abilitysanity },
    entered.2,
    ⟨sd, if sd.deathLink.isSome then .updateDeathLink else .capturesanityReplay⟩)

/-- The mirror's history is kept or cleared as a whole when the Connected handler starts. -/
theorem startConnected_history (disk : Disk) (sd : SlotData) (ctx : Context) (m : Mirror) :
    ((startConnected disk sd ctx m).2.1.calls = m.calls ∧
        (startConnected disk sd ctx m).2.1.state.receivedItems = m.state.receivedItems) ∨
      ((startConnected disk sd ctx m).2.1.calls = [] ∧
        (startConnected disk sd ctx m).2.1.state.receivedItems = []) := by
  unfold startConnected enterSlot
  dsimp only
  split_ifs
  · exact .inr ⟨rfl, rfl⟩
  · exact .inl ⟨rfl, rfl⟩

@[simp] theorem startConnected_dp (disk : Disk) (sd : SlotData) (ctx : Context) (m : Mirror) :
    (startConnected disk sd ctx m).1.dp = ctx.dp := by
  unfold startConnected enterSlot Context.reloadMaps
  dsimp only
  split_ifs <;> rfl

/-- The Connected handler from an await to the next. The bonus lists are stored after
the entrance map is out. -/
def resumeConnected (ctx : Context) (t : ConnectedTask) : Context × Option ConnectedTask :=
  match t.waits with
  | .updateDeathLink => (ctx, some { t with waits := .deathlinkHelloack })
  | .deathlinkHelloack => (ctx, some { t with waits := .capturesanityReplay })
  | .capturesanityReplay => (ctx, some { t with waits := .abilityState })
  | .abilityState => (ctx, some { t with waits := .talkatooPool })
  | .talkatooPool => (ctx, some { t with waits := .kingdomGates })
  | .kingdomGates => (ctx, some { t with waits := .entranceMap })
  | .entranceMap =>
      ({ ctx with
          mmBonusCaptures := t.slotData.mmBonusCaptures
          mmBonusAbilities := t.slotData.mmBonusAbilities },
        some { t with waits := .shopLabels })
  | .shopLabels => (ctx, some { t with waits := .apState })
  | .apState => (ctx, some { t with waits := .drainSnapshot })
  | .drainSnapshot => (ctx, some { t with waits := .requestScout })
  | .requestScout => (ctx, none)

@[simp] theorem resumeConnected_dp (ctx : Context) (t : ConnectedTask) :
    (resumeConnected ctx t).1.dp = ctx.dp := by
  unfold resumeConnected
  split <;> rfl

inductive Packet where
  | roomInfo (seed : String)
  | connected (slotData : SlotData)
  | receivedItems (index : ℕ) (items : List NetworkItem)

inductive Task where
  | connected (t : ConnectedTask)
  | received (h : Handler)

def Task.handler : Task → Option Handler
  | .connected _ => none
  | .received h => some h

/-- The context, the mirror, the tasks that have not started and those that wait. -/
structure Loop where
  ctx : Context
  mirror : Mirror := {}
  ready : List Packet := []
  suspended : List Task := []

namespace Loop

/-- The received-items handlers among the tasks that wait. -/
def handlers (s : Loop) : List Handler := s.suspended.filterMap Task.handler

/-- No task is left to run. -/
def Quiet (s : Loop) : Prop := s.ready = [] ∧ s.suspended = []

end Loop

inductive Event where
  | packet (p : Packet)
  | start (disk : Disk)
  | resume (k : ℕ)

def startPacket (disk : Disk) (p : Packet) (s : Loop) : Loop :=
  match p with
  | .roomInfo seed =>
      if seed = "" then s
      else { s with mirror := { s.mirror with state := { s.mirror.state with seed } } }
  | .connected sd =>
      let r := startConnected disk sd s.ctx s.mirror
      { s with ctx := r.1, mirror := r.2.1, suspended := s.suspended ++ [.connected r.2.2] }
  | .receivedItems index items =>
      let r := startReceived s.ctx s.mirror index items
      { s with mirror := r.1, suspended := s.suspended ++ r.2.toList.map .received }

def resumeTask (t : Task) (s : Loop) : Loop :=
  match t with
  | .connected t =>
      let r := resumeConnected s.ctx t
      { s with ctx := r.1, suspended := s.suspended ++ r.2.toList.map .connected }
  | .received h =>
      let r := resumeReceived s.ctx s.mirror h
      { s with mirror := r.1, suspended := s.suspended ++ r.2.toList.map .received }

/-- `on_package` creates a task, the loop starts the oldest one or resumes one that
waits. -/
def Loop.step (s : Loop) : Event → Loop
  | .packet p => { s with ready := s.ready ++ [p] }
  | .start disk =>
      match s.ready with
      | [] => s
      | p :: ps => startPacket disk p { s with ready := ps }
  | .resume k =>
      match s.suspended[k]? with
      | none => s
      | some t => resumeTask t { s with suspended := s.suspended.eraseIdx k }

namespace Loop

variable {s : Loop}

theorem step_start_received (disk : Disk) {index : ℕ} {items : List NetworkItem}
    {ps : List Packet} (h : s.ready = .receivedItems index items :: ps) :
    s.step (.start disk) =
      { s with
        mirror := (startReceived s.ctx s.mirror index items).1
        ready := ps
        suspended := s.suspended ++
          (startReceived s.ctx s.mirror index items).2.toList.map .received } := by
  simp only [step, h, startPacket]

theorem step_start_nil {disk : Disk} (h : s.ready = []) : s.step (.start disk) = s := by
  simp only [step, h]

theorem step_start_connected (disk : Disk) {sd : SlotData} {ps : List Packet}
    (h : s.ready = .connected sd :: ps) :
    s.step (.start disk) =
      { ctx := (startConnected disk sd s.ctx s.mirror).1
        mirror := (startConnected disk sd s.ctx s.mirror).2.1
        ready := ps
        suspended := s.suspended ++ [.connected (startConnected disk sd s.ctx s.mirror).2.2] } := by
  simp only [step, h, startPacket]

/-- A RoomInfo packet sets the seed and nothing else. -/
theorem step_start_roomInfo (disk : Disk) {seed : String} {ps : List Packet}
    (h : s.ready = .roomInfo seed :: ps) :
    (s.step (.start disk)).ctx = s.ctx ∧ (s.step (.start disk)).ready = ps ∧
      (s.step (.start disk)).suspended = s.suspended ∧
      (s.step (.start disk)).mirror.calls = s.mirror.calls ∧
      (s.step (.start disk)).mirror.state.receivedItems = s.mirror.state.receivedItems := by
  simp only [step, h, startPacket]
  split_ifs <;> exact ⟨rfl, rfl, rfl, rfl, rfl⟩

theorem step_resume_received {k : ℕ} {h : Handler} (hk : s.suspended[k]? = some (.received h)) :
    s.step (.resume k) =
      { s with
        mirror := (resumeReceived s.ctx s.mirror h).1
        suspended := s.suspended.eraseIdx k ++
          (resumeReceived s.ctx s.mirror h).2.toList.map .received } := by
  simp only [step, hk, resumeTask]

theorem step_resume_connected {k : ℕ} {t : ConnectedTask}
    (hk : s.suspended[k]? = some (.connected t)) :
    s.step (.resume k) =
      { s with
        ctx := (resumeConnected s.ctx t).1
        suspended := s.suspended.eraseIdx k ++
          (resumeConnected s.ctx t).2.toList.map .connected } := by
  simp only [step, hk, resumeTask]

theorem step_resume_none {k : ℕ} (hk : s.suspended[k]? = none) : s.step (.resume k) = s := by
  simp only [step, hk]

theorem filterMap_received (hs : List Handler) :
    (hs.map Task.received).filterMap Task.handler = hs := by
  induction hs with
  | nil => rfl
  | cons h hs ih => exact congrArg (h :: ·) ih

theorem filterMap_connected (ts : List ConnectedTask) :
    (ts.map Task.connected).filterMap Task.handler = [] := by
  induction ts with
  | nil => rfl
  | cons t ts ih => exact ih

/-- The handlers that wait, with one task taken out. -/
theorem handlers_perm {k : ℕ} {t : Task} (hk : s.suspended[k]? = some t) :
    s.handlers.Perm (t.handler.toList ++ (s.suspended.eraseIdx k).filterMap Task.handler) := by
  obtain ⟨bound, rfl⟩ := List.getElem?_eq_some_iff.1 hk
  have whole := (List.getElem_cons_eraseIdx_perm bound).symm.filterMap Task.handler
  rw [List.filterMap_cons] at whole
  cases h : s.suspended[k] with
  | connected t =>
      rw [h] at whole
      exact whole
  | received r =>
      rw [h] at whole
      exact whole

theorem handlers_resume_connected {k : ℕ} {t : ConnectedTask}
    (hk : s.suspended[k]? = some (.connected t)) :
    (s.step (.resume k)).handlers.Perm s.handlers := by
  rw [step_resume_connected hk, handlers, List.filterMap_append, filterMap_connected,
    List.append_nil]
  exact (handlers_perm hk).symm

/-- What the mirror has and the handlers that wait still owe. -/
def total {α : Type*} (base : Mirror → List α) (f : Handler → List α) (s : Loop) : List α :=
  base s.mirror ++ s.handlers.flatMap f

section Total

variable {α : Type*} {base : Mirror → List α} {f : Handler → List α} {extra : List α}

theorem flatMap_start (disk : Disk) {index : ℕ} {items : List NetworkItem} {ps : List Packet}
    (h : s.ready = .receivedItems index items :: ps) (f : Handler → List α) :
    (s.step (.start disk)).handlers.flatMap f =
      s.handlers.flatMap f ++ (startReceived s.ctx s.mirror index items).2.toList.flatMap f := by
  rw [step_start_received disk h, handlers, List.filterMap_append, filterMap_received,
    List.flatMap_append]
  rfl

theorem total_start (disk : Disk) {index : ℕ} {items : List NetworkItem} {ps : List Packet}
    (h : s.ready = .receivedItems index items :: ps)
    (segment : base (startReceived s.ctx s.mirror index items).1 ++
        (startReceived s.ctx s.mirror index items).2.toList.flatMap f = base s.mirror ++ extra) :
    ((s.step (.start disk)).total base f).Perm (s.total base f ++ extra) := by
  have mirror : (s.step (.start disk)).mirror = (startReceived s.ctx s.mirror index items).1 := by
    rw [step_start_received disk h]
  rw [total, total, flatMap_start disk h, mirror]
  calc
    base (startReceived s.ctx s.mirror index items).1 ++ (s.handlers.flatMap f ++
        (startReceived s.ctx s.mirror index items).2.toList.flatMap f)
      ~ base (startReceived s.ctx s.mirror index items).1 ++
          (startReceived s.ctx s.mirror index items).2.toList.flatMap f ++ s.handlers.flatMap f := by
        rw [List.append_assoc]
        exact List.perm_append_comm.append_left _
    _ = base s.mirror ++ (extra ++ s.handlers.flatMap f) := by rw [segment, List.append_assoc]
    _ ~ base s.mirror ++ (s.handlers.flatMap f ++ extra) := List.perm_append_comm.append_left _
    _ = base s.mirror ++ s.handlers.flatMap f ++ extra := (List.append_assoc _ _ _).symm

/-- A resumption replaces the share of one handler by that of the handler it leaves. -/
theorem flatMap_resume {k : ℕ} {h : Handler} (hk : s.suspended[k]? = some (.received h))
    (f : Handler → List α) :
    ∃ left, s.handlers.flatMap f ~ f h ++ left ∧
      (s.step (.resume k)).handlers.flatMap f =
        left ++ (resumeReceived s.ctx s.mirror h).2.toList.flatMap f := by
  refine ⟨((s.suspended.eraseIdx k).filterMap Task.handler).flatMap f, ?_, ?_⟩
  · have others := (handlers_perm hk).flatMap_right f
    rw [List.flatMap_append, Task.handler, Option.toList_some, List.flatMap_singleton] at others
    exact others
  · rw [step_resume_received hk, handlers, List.filterMap_append, filterMap_received,
      List.flatMap_append]

theorem total_resume {k : ℕ} {h : Handler} (hk : s.suspended[k]? = some (.received h))
    (segment : base (resumeReceived s.ctx s.mirror h).1 ++
        (resumeReceived s.ctx s.mirror h).2.toList.flatMap f = base s.mirror ++ f h ++ extra) :
    ((s.step (.resume k)).total base f).Perm (s.total base f ++ extra) := by
  obtain ⟨left, before, after⟩ := flatMap_resume hk f
  have mirror : (s.step (.resume k)).mirror = (resumeReceived s.ctx s.mirror h).1 := by
    rw [step_resume_received hk]
  rw [total, total, after, mirror]
  calc
    base (resumeReceived s.ctx s.mirror h).1 ++
        (left ++ (resumeReceived s.ctx s.mirror h).2.toList.flatMap f)
      ~ base (resumeReceived s.ctx s.mirror h).1 ++
          (resumeReceived s.ctx s.mirror h).2.toList.flatMap f ++ left := by
        rw [List.append_assoc]
        exact List.perm_append_comm.append_left _
    _ = base s.mirror ++ (f h ++ (extra ++ left)) := by
        rw [segment, List.append_assoc, List.append_assoc]
    _ ~ base s.mirror ++ (f h ++ (left ++ extra)) :=
        (List.perm_append_comm.append_left _).append_left _
    _ = base s.mirror ++ (f h ++ left) ++ extra := by simp only [List.append_assoc]
    _ ~ base s.mirror ++ s.handlers.flatMap f ++ extra :=
        (before.symm.append_left _).append_right _

end Total

end Loop

section Invariant

variable {I : Context → Mirror → Prop}

/-- A relation between context and mirror that a start and a resumption of either
handler keep holds in every run. -/
theorem Loop.step_invariant
    (seed : ∀ ctx m s, I ctx m → I ctx { m with state := { m.state with seed := s } })
    (connected : ∀ disk sd ctx m, I ctx m →
      I (startConnected disk sd ctx m).1 (startConnected disk sd ctx m).2.1)
    (connectedNext : ∀ ctx m t, I ctx m → I (resumeConnected ctx t).1 m)
    (received : ∀ ctx m index items, I ctx m → I ctx (startReceived ctx m index items).1)
    (receivedNext : ∀ ctx m h, I ctx m → I ctx (resumeReceived ctx m h).1)
    (s : Loop) (e : Event) (h : I s.ctx s.mirror) :
    I (s.step e).ctx (s.step e).mirror := by
  cases e with
  | packet p => exact h
  | start disk =>
      simp only [Loop.step]
      split
      · exact h
      · next p ps _ =>
          cases p with
          | roomInfo s' =>
              unfold startPacket
              dsimp only
              split_ifs
              · exact h
              · exact seed _ _ s' h
          | connected sd => exact connected disk sd _ _ h
          | receivedItems index items => exact received _ _ index items h
  | resume k =>
      simp only [Loop.step]
      split
      · exact h
      · next t _ =>
          cases t with
          | connected t => exact connectedNext _ _ t h
          | received r => exact receivedNext _ _ r h

end Invariant

end SmoArchipelago.Bridge
