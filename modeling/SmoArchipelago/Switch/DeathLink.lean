import SmoArchipelago.Library.Channel
import SmoArchipelago.Library.Runs

/-! # Deaths on the console

Mario's deaths go out through a ring of status events, at most one of them unsent, and deaths of
other players come in as a flag that the frame thread acts on. A death that the module causes goes
to the game past its own hook, so nothing is reported for it.

## Implementation notes

The steps are what a thread does between two accesses to what the threads share; a report of a death
sets its flag and pushes its event in one step. The clock is read as the larger of the time given
and the last time read. `deaths` and `dropped` are history and not
state of the source. -/

namespace SmoArchipelago.Switch.DeathLink

open Library

structure StatusEvent where
  goal : Bool := false
  death : Bool := false
  tsMs : ℤ := 0
  deriving DecidableEq

/-- A status line to the bridge. -/
inductive Line where
  | goal
  | death (tsMs : ℤ)
  deriving DecidableEq

def Line.isDeath : Line → Bool
  | .goal => false
  | .death _ => true

/-- A line from the bridge that bears on deaths. -/
inductive Downlink where
  | helloAck (ok deathlinkEnabled : Bool)
  | kill (source cause : String)
  deriving DecidableEq

/-- A death, when it was seen and whether the module caused it. -/
structure Death where
  ms : ℤ
  synthetic : Bool
  deriving DecidableEq

/-- The console's part of DeathLink. After a death went out `clearDue` is set until its flag is
cleared. -/
structure Console where
  clock : ℤ
  deathlinkEnabled : Bool
  playerHpCache : Bool
  lastObservedDeathMs : ℤ
  inboundKillPending : Bool
  deathPendingSend : Bool
  outboundStatus : Channel StatusEvent 16
  clearDue : Bool
  deaths : List Death
  dropped : Bool

theorem statusRing_ne_zero : NeZero 16 := inferInstance

def start (clock : ℤ) : Console where
  clock := clock
  deathlinkEnabled := false
  playerHpCache := false
  lastObservedDeathMs := 0
  inboundKillPending := false
  deathPendingSend := false
  outboundStatus := @Channel.empty StatusEvent 16 statusRing_ne_zero {}
  clearDue := false
  deaths := []
  dropped := false

def kInboundKillDebounceMs : ℤ := 15 * 1000

namespace Console

/-- Read the clock. -/
def tick (c : Console) (now : ℤ) : Console := { c with clock := max c.clock now }

def reportDeath (c : Console) : Console :=
  if c.deathPendingSend then c
  else
    { c with
      deathPendingSend := true
      outboundStatus := c.outboundStatus.offer { death := true }
      dropped := (c.outboundStatus.ring.push { death := true }).isNone }

def reportGoal (c : Console) : Console :=
  { c with outboundStatus := c.outboundStatus.offer { goal := true } }

/-- The hook on Mario's death. -/
def deathHook (c : Console) : Console :=
  reportDeath { c with
    playerHpCache := true
    lastObservedDeathMs := c.clock
    deaths := c.deaths ++ [⟨c.clock, false⟩] }

def maybeApplyInboundKill (c : Console) : Console :=
  if !c.inboundKillPending then c
  else if !c.deathlinkEnabled then { c with inboundKillPending := false }
  else if c.lastObservedDeathMs ≠ 0 ∧ c.clock - c.lastObservedDeathMs < kInboundKillDebounceMs then
    { c with inboundKillPending := false }
  else if !c.playerHpCache then { c with inboundKillPending := false }
  else
    { c with
      inboundKillPending := false
      lastObservedDeathMs := c.clock
      deaths := c.deaths ++ [⟨c.clock, true⟩] }

/-- What a save load clears. -/
def clearSession (c : Console) : Console := { c with deathPendingSend := false, dropped := false }

/-- The lines that `pumpOnce` sends for an event. -/
def linesOf (e : StatusEvent) : List Line :=
  (if e.goal then [.goal] else []) ++ if e.death then [.death e.tsMs] else []

/-- Send the event in front, where `went` lines go out before a send fails. -/
def sendStatus (c : Console) (went : ℕ) : Console × List Line :=
  if c.outboundStatus.discardDue then (c, [])
  else
    match c.outboundStatus.ring.peek with
    | none => (c, [])
    | some e =>
        if went < (linesOf e).length then (c, (linesOf e).take went)
        else ({ c with outboundStatus := c.outboundStatus.take, clearDue := e.death }, linesOf e)

/-- The store after a death went out. -/
def clearPending (c : Console) : Console :=
  if c.clearDue then { c with deathPendingSend := false, clearDue := false, dropped := false } else c

/-- The `popDiscard` after an event went out. -/
def discard (c : Console) : Console :=
  if c.clearDue then c else { c with outboundStatus := c.outboundStatus.discard }

def handleLine (c : Console) : Downlink → Console
  | .helloAck ok enabled => if ok then { c with deathlinkEnabled := enabled } else c
  | .kill _ _ => { c with inboundKillPending := true }

end Console

inductive Event where
  | kill (now : ℤ)
  | goal
  | applyOnFrame (now : ℤ)
  | saveLoad
  | sendStatus (went : ℕ)
  | clearPending
  | discard

/-- A step of one of the threads, and the lines it sends. -/
def step (c : Console) : Event → Console × List Line
  | .kill now => ((c.tick now).deathHook, [])
  | .goal => (c.reportGoal, [])
  | .applyOnFrame now => ((c.tick now).maybeApplyInboundKill, [])
  | .saveLoad => (c.clearSession, [])
  | .sendStatus went => c.sendStatus went
  | .clearPending => (c.clearPending, [])
  | .discard => (c.discard, [])

namespace Console

/-- Mario's own deaths. -/
def organic (c : Console) : ℕ := c.deaths.countP fun d => !d.synthetic

/-- The deaths that the module caused. -/
def kills (c : Console) : ℕ := c.deaths.countP fun d => d.synthetic

/-- The deaths that went out. -/
def sentDeaths (c : Console) : ℕ := c.outboundStatus.consumed.countP StatusEvent.death

/-- The kills that are done or pending. -/
def accepted (c : Console) : ℕ := c.kills + if c.inboundKillPending then 1 else 0

end Console

/-! ## What the threads keep -/

/-- The module's own kills come long after any death. -/
def Apart (before : List Death) (d : Death) : Prop :=
  d.synthetic = true → ∀ d' ∈ before, d'.ms + kInboundKillDebounceMs ≤ d.ms

/-- The last death seen is the last of the history, and its time is not taken for none. -/
structure Clocked (c : Console) : Prop where
  running : 0 < c.clock
  last_le : c.lastObservedDeathMs ≤ c.clock
  seen : ∀ d ∈ c.deaths, 0 < c.lastObservedDeathMs ∧ d.ms ≤ c.lastObservedDeathMs
  spaced : Runs.AtEach Apart c.deaths

/-- Every report is of a death, and a death whose flag is set is about to be sent, just sent, or
was dropped by a full ring. -/
structure Reported (c : Console) : Prop where
  history : c.outboundStatus.history.countP StatusEvent.death ≤ c.organic
  due : c.clearDue = true → c.outboundStatus.discardDue = true
  pending : c.deathPendingSend = true →
    c.dropped = true ∨ c.clearDue = true ∨ ∃ e ∈ c.outboundStatus.waiting, e.death = true

theorem start_clocked {clock : ℤ} (running : 0 < clock) : Clocked (start clock) where
  running := running
  last_le := running.le
  seen _ member := absurd member List.not_mem_nil
  spaced := Runs.atEach_nil

theorem start_reported (clock : ℤ) : Reported (start clock) where
  history := by
    change (Channel.history (.empty 16 {})).countP StatusEvent.death ≤ 0
    rw [Channel.history_empty]
    exact le_rfl
  due h := absurd h Bool.false_ne_true
  pending h := absurd h Bool.false_ne_true

theorem Clocked.tick {c : Console} (h : Clocked c) (now : ℤ) : Clocked (c.tick now) where
  running := h.running.trans_le (le_max_left _ _)
  last_le := h.last_le.trans (le_max_left _ _)
  seen := h.seen
  spaced := h.spaced

/-- A death seen now. -/
theorem Clocked.see {c c' : Console} (h : Clocked c) {synthetic : Bool} (clock : c'.clock = c.clock)
    (last : c'.lastObservedDeathMs = c.clock) (log : c'.deaths = c.deaths ++ [⟨c.clock, synthetic⟩])
    (apart : Apart c.deaths ⟨c.clock, synthetic⟩) : Clocked c' where
  running := clock ▸ h.running
  last_le := by rw [last, clock]
  seen d member := by
    rw [last]
    refine ⟨h.running, ?_⟩
    rw [log] at member
    rcases List.mem_append.1 member with old | new
    · exact (h.seen d old).2.trans h.last_le
    · rw [List.mem_singleton.1 new]
  spaced := log ▸ h.spaced.append apart

/-- Steps that see no death. -/
theorem Clocked.of_same {c c' : Console} (h : Clocked c) (clock : c'.clock = c.clock)
    (last : c'.lastObservedDeathMs = c.lastObservedDeathMs) (log : c'.deaths = c.deaths) :
    Clocked c' where
  running := clock ▸ h.running
  last_le := by rw [last, clock]; exact h.last_le
  seen := by rw [log, last]; exact h.seen
  spaced := log ▸ h.spaced

theorem Clocked.deathHook {c : Console} (h : Clocked c) : Clocked c.deathHook := by
  have apart : Apart c.deaths ⟨c.clock, false⟩ := fun synthetic => absurd synthetic Bool.false_ne_true
  unfold Console.deathHook Console.reportDeath
  split_ifs
  · exact h.see rfl rfl rfl apart
  · exact h.see rfl rfl rfl apart

theorem Clocked.maybeApplyInboundKill {c : Console} (h : Clocked c) :
    Clocked c.maybeApplyInboundKill := by
  unfold Console.maybeApplyInboundKill
  split_ifs with none_pending off soon no_cache
  · exact h
  · exact h.of_same rfl rfl rfl
  · exact h.of_same rfl rfl rfl
  · exact h.of_same rfl rfl rfl
  · have apart : Apart c.deaths ⟨c.clock, true⟩ := by
      intro _ d member
      obtain ⟨positive, before⟩ := h.seen d member
      have late : ¬ c.clock - c.lastObservedDeathMs < kInboundKillDebounceMs := fun early =>
        soon ⟨positive.ne', early⟩
      change d.ms + kInboundKillDebounceMs ≤ c.clock
      omega
    exact h.see rfl rfl rfl apart

theorem step_clocked {c : Console} (h : Clocked c) (e : Event) : Clocked (step c e).1 := by
  cases e with
  | kill now => exact (h.tick now).deathHook
  | goal => exact h.of_same rfl rfl rfl
  | applyOnFrame now => exact (h.tick now).maybeApplyInboundKill
  | saveLoad => exact h.of_same rfl rfl rfl
  | sendStatus went =>
      change Clocked (c.sendStatus went).1
      unfold Console.sendStatus
      split_ifs
      · exact h
      · split
        · exact h
        · split_ifs
          · exact h
          · exact h.of_same rfl rfl rfl
  | clearPending =>
      change Clocked c.clearPending
      unfold Console.clearPending
      split_ifs
      · exact h.of_same rfl rfl rfl
      · exact h
  | discard =>
      change Clocked c.discard
      unfold Console.discard
      split_ifs
      · exact h
      · exact h.of_same rfl rfl rfl

theorem Clocked.handleLine {c : Console} (h : Clocked c) (line : Downlink) :
    Clocked (c.handleLine line) := by
  cases line with
  | helloAck ok enabled =>
      change Clocked (if ok then _ else _)
      split_ifs
      · exact h.of_same rfl rfl rfl
      · exact h
  | kill source cause => exact h.of_same rfl rfl rfl

/-! ## Reports -/

/-- What an offer adds to the history. -/
theorem countP_offer (ch : Channel StatusEvent 16) (e : StatusEvent) :
    (ch.offer e).history.countP StatusEvent.death ≤
      ch.history.countP StatusEvent.death + if e.death then 1 else 0 := by
  rw [Channel.history_offer, List.countP_append]
  split_ifs with room death
  · rw [List.countP_singleton, if_pos death]
  · rw [List.countP_singleton, if_neg death]
  · exact Nat.le_add_right _ 1
  · exact le_rfl

theorem mem_waiting_offer {ch : Channel StatusEvent 16} {e : StatusEvent} (d : StatusEvent)
    (member : d ∈ ch.waiting) : d ∈ (ch.offer e).waiting := by
  rw [Channel.waiting_offer]
  exact List.mem_append_left _ member

theorem Reported.reportGoal {c : Console} (h : Reported c) : Reported c.reportGoal where
  history := (countP_offer _ _).trans h.history
  due := h.due
  pending set := by
    rcases h.pending set with dropped | due | ⟨e, member, death⟩
    · exact .inl dropped
    · exact .inr (.inl due)
    · exact .inr (.inr ⟨e, mem_waiting_offer e member, death⟩)

theorem Reported.deathHook {c : Console} (h : Reported c) : Reported c.deathHook := by
  have one_more : (c.deaths ++ [(⟨c.clock, false⟩ : Death)]).countP (fun d : Death => !d.synthetic) =
      c.organic + 1 := by
    rw [List.countP_append]
    rfl
  unfold Console.deathHook Console.reportDeath
  split_ifs with unsent
  · refine ⟨?_, h.due, fun _ => h.pending unsent⟩
    change _ ≤ List.countP _ (c.deaths ++ _)
    rw [one_more]
    exact h.history.trans (Nat.le_succ _)
  · refine ⟨?_, h.due, fun _ => ?_⟩
    · change _ ≤ List.countP _ (c.deaths ++ _)
      rw [one_more]
      exact (countP_offer _ _).trans (Nat.succ_le_succ h.history)
    · by_cases room : c.outboundStatus.ring.HasRoom
      · refine .inr (.inr ⟨{ death := true }, ?_, rfl⟩)
        change _ ∈ (c.outboundStatus.offer _).waiting
        rw [Channel.waiting_offer, if_pos room]
        exact List.mem_append_right _ (List.mem_singleton_self _)
      · refine .inl ?_
        change (c.outboundStatus.ring.push _).isNone = true
        rw [RingBuffer.push_of_full room]
        rfl

theorem Reported.maybeApplyInboundKill {c : Console} (h : Reported c) :
    Reported c.maybeApplyInboundKill := by
  have same : (c.deaths ++ [(⟨c.clock, true⟩ : Death)]).countP (fun d : Death => !d.synthetic) = c.organic := by
    rw [List.countP_append]
    rfl
  unfold Console.maybeApplyInboundKill
  split_ifs
  · exact h
  · exact ⟨h.history, h.due, h.pending⟩
  · exact ⟨h.history, h.due, h.pending⟩
  · exact ⟨h.history, h.due, h.pending⟩
  · refine ⟨?_, h.due, h.pending⟩
    change _ ≤ List.countP _ (c.deaths ++ _)
    rw [same]
    exact h.history

theorem Reported.sendStatus {c : Console} (h : Reported c) (went : ℕ) :
    Reported (c.sendStatus went).1 := by
  unfold Console.sendStatus
  split_ifs with busy
  · exact h
  · have idle : c.outboundStatus.discardDue = false := Bool.eq_false_iff.2 busy
    split
    · exact h
    · rename_i e front
      split_ifs
      · exact h
      · obtain ⟨-, rest, due⟩ := Channel.take_eq idle front
        refine ⟨?_, fun _ => due, fun set => ?_⟩
        · change c.outboundStatus.take.history.countP _ ≤ _
          rw [Channel.history_take]
          exact h.history
        · rcases h.pending set with dropped | due | ⟨d, member, death⟩
          · exact .inl dropped
          · exact absurd (h.due due) busy
          · rw [Channel.waiting_eq_of_peek idle front] at member
            rcases List.mem_cons.1 member with rfl | later
            · exact .inr (.inl death)
            · refine .inr (.inr ⟨d, ?_, death⟩)
              change d ∈ c.outboundStatus.take.waiting
              rw [rest]
              exact later

theorem step_reported {c : Console} (h : Reported c) (e : Event) : Reported (step c e).1 := by
  cases e with
  | kill now => exact Reported.deathHook ⟨h.history, h.due, h.pending⟩
  | goal => exact h.reportGoal
  | applyOnFrame now => exact Reported.maybeApplyInboundKill ⟨h.history, h.due, h.pending⟩
  | saveLoad => exact ⟨h.history, h.due, fun set => absurd set Bool.false_ne_true⟩
  | sendStatus went => exact h.sendStatus went
  | clearPending =>
      change Reported c.clearPending
      unfold Console.clearPending
      split_ifs
      · exact ⟨h.history, fun due => absurd due Bool.false_ne_true,
          fun set => absurd set Bool.false_ne_true⟩
      · exact h
  | discard =>
      change Reported c.discard
      unfold Console.discard
      split_ifs with due
      · exact h
      · refine ⟨?_, fun still => absurd still due, fun set => ?_⟩
        · change c.outboundStatus.discard.history.countP _ ≤ _
          rw [Channel.history_discard]
          exact h.history
        · change c.dropped = true ∨ c.clearDue = true ∨ ∃ e ∈ c.outboundStatus.discard.waiting, _
          rw [Channel.waiting_discard]
          exact h.pending set

theorem Reported.handleLine {c : Console} (h : Reported c) (line : Downlink) :
    Reported (c.handleLine line) := by
  cases line with
  | helloAck ok enabled =>
      change Reported (if ok then _ else _)
      split_ifs
      · exact ⟨h.history, h.due, h.pending⟩
      · exact h
  | kill source cause => exact ⟨h.history, h.due, h.pending⟩

/-! ## Lines -/

/-- A death goes out last of the lines of its event. -/
theorem countP_linesOf (e : StatusEvent) :
    (Console.linesOf e).countP Line.isDeath = if e.death then 1 else 0 := by
  unfold Console.linesOf
  cases e.goal <;> cases e.death <;> rfl

theorem countP_linesOf_cut (e : StatusEvent) {went : ℕ} (cut : went < (Console.linesOf e).length) :
    ((Console.linesOf e).take went).countP Line.isDeath = 0 := by
  revert cut
  unfold Console.linesOf
  cases e.goal <;> cases e.death <;> intro cut
  · exact absurd cut (Nat.not_lt_zero went)
  · obtain rfl : went = 0 := Nat.lt_one_iff.1 cut
    rfl
  · obtain rfl : went = 0 := Nat.lt_one_iff.1 cut
    rfl
  · change went < 2 at cut
    interval_cases went <;> rfl

/-- The deaths that a step sends are those it takes from the ring. -/
theorem step_sent (c : Console) (e : Event) :
    (step c e).1.sentDeaths = c.sentDeaths + (step c e).2.countP Line.isDeath := by
  cases e with
  | kill now =>
      change Console.sentDeaths (Console.deathHook _) = _
      unfold Console.deathHook Console.reportDeath
      split_ifs <;> rfl
  | goal => rfl
  | applyOnFrame now =>
      change Console.sentDeaths (Console.maybeApplyInboundKill _) = _
      unfold Console.maybeApplyInboundKill
      split_ifs <;> rfl
  | saveLoad => rfl
  | sendStatus went =>
      change (c.sendStatus went).1.sentDeaths = c.sentDeaths + (c.sendStatus went).2.countP _
      unfold Console.sendStatus
      split_ifs with busy
      · rfl
      · have idle : c.outboundStatus.discardDue = false := Bool.eq_false_iff.2 busy
        split
        · rfl
        · rename_i d front
          split_ifs with cut
          · rw [countP_linesOf_cut d cut]
            rfl
          · obtain ⟨consumed, -, -⟩ := Channel.take_eq idle front
            rw [countP_linesOf]
            change c.outboundStatus.take.consumed.countP _ = _
            rw [consumed, List.countP_append, List.countP_singleton]
            rfl
  | clearPending =>
      change Console.sentDeaths (Console.clearPending _) = _
      unfold Console.clearPending
      split_ifs <;> rfl
  | discard =>
      change Console.sentDeaths (Console.discard _) = _
      unfold Console.discard
      split_ifs
      · rfl
      · change c.outboundStatus.discard.consumed.countP _ = _
        rw [Channel.consumed_discard]
        rfl

theorem sentDeaths_handleLine (c : Console) (line : Downlink) :
    (c.handleLine line).sentDeaths = c.sentDeaths := by
  cases line with
  | helloAck ok enabled =>
      change Console.sentDeaths (if ok then _ else _) = _
      split_ifs <;> rfl
  | kill source cause => rfl

/-- No more deaths go out than Mario dies by himself. -/
theorem Reported.sent_le {c : Console} (h : Reported c) : c.sentDeaths ≤ c.organic := by
  have whole := h.history
  rw [Channel.history, List.countP_append] at whole
  exact (Nat.le_add_right _ _).trans whole

def Downlink.isKill : Downlink → Bool
  | .helloAck _ _ => false
  | .kill _ _ => true

/-- No step of the console's own makes a kill pending, and applying one uses it up. -/
theorem step_accepted (c : Console) (e : Event) : (step c e).1.accepted ≤ c.accepted := by
  cases e with
  | kill now =>
      change Console.accepted (Console.deathHook _) ≤ c.accepted
      have same : (c.deaths ++ [(⟨(c.tick now).clock, false⟩ : Death)]).countP
          (fun d : Death => d.synthetic) = c.kills := by
        rw [List.countP_append]
        rfl
      unfold Console.deathHook Console.reportDeath
      split_ifs
      · change List.countP _ (c.deaths ++ _) + _ ≤ _
        rw [same]
        exact le_rfl
      · change List.countP _ (c.deaths ++ _) + _ ≤ _
        rw [same]
        exact le_rfl
  | goal => exact le_rfl
  | applyOnFrame now =>
      change Console.accepted (Console.maybeApplyInboundKill _) ≤ c.accepted
      have one_more : (c.deaths ++ [(⟨(c.tick now).clock, true⟩ : Death)]).countP
          (fun d : Death => d.synthetic) = c.kills + 1 := by
        rw [List.countP_append]
        rfl
      unfold Console.maybeApplyInboundKill
      split_ifs with none_pending
      · exact le_rfl
      · exact Nat.le_add_right _ _
      · exact Nat.le_add_right _ _
      · exact Nat.le_add_right _ _
      · have set : c.inboundKillPending = true := by
          simpa [Console.tick] using none_pending
        change List.countP _ (c.deaths ++ _) + 0 ≤ _
        rw [one_more, Console.accepted, if_pos set]
  | saveLoad => exact le_rfl
  | sendStatus went =>
      change (c.sendStatus went).1.accepted ≤ c.accepted
      unfold Console.sendStatus
      split_ifs
      · exact le_rfl
      · split
        · exact le_rfl
        · split_ifs <;> exact le_rfl
  | clearPending =>
      change Console.accepted (Console.clearPending _) ≤ c.accepted
      unfold Console.clearPending
      split_ifs <;> exact le_rfl
  | discard =>
      change Console.accepted (Console.discard _) ≤ c.accepted
      unfold Console.discard
      split_ifs <;> exact le_rfl

/-- A line from the bridge does, and only a kill. -/
theorem accepted_handleLine (c : Console) (line : Downlink) :
    (c.handleLine line).accepted ≤ c.accepted + if line.isKill then 1 else 0 := by
  cases line with
  | helloAck ok enabled =>
      change Console.accepted (if ok then _ else _) ≤ c.accepted
      split_ifs <;> exact le_rfl
  | kill source cause =>
      change c.kills + 1 ≤ c.kills + _ + 1
      omega

end SmoArchipelago.Switch.DeathLink
