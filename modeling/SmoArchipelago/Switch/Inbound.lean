import SmoArchipelago.Library.Channel
import SmoArchipelago.Library.Runs
import SmoArchipelago.Switch.DecodeState

/-! # Inbound items: the item ring and the deferred captures

The socket thread decodes item lines into a bounded ring that the frame thread
drains, at most sixteen items a frame; captures whose grant fails wait in a second
ring. A run is a list of events of both threads.

## Implementation notes

The outcome of each grant and of each look into the hack dictionary is part of its
event. An item is taken and discarded in two events, so a line may arrive in
between. The table behind `captureBitFor` is generated by the build, so the
function is a parameter. -/

namespace SmoArchipelago.Switch.Inbound

open Library Library.Runs ApProtocol

variable (captureBitFor : CStr kCheckFieldCap → ℕ)

/-- The inbound half of the game state. The channels log the items applied and the
captures granted late; `received` and `deferred` log the other side. -/
structure State where
  msg : DecodedMsg
  inbound : Channel Item 256
  pendingCaptureGrant : Channel Item 64
  capturesUnlocked : BitVec 128
  drained : ℕ
  received : List Item
  deferred : List Item

/-- The state at the start of the process. -/
def start : State where
  msg := default
  inbound := Channel.empty 256 default
  pendingCaptureGrant := Channel.empty 64 default
  capturesUnlocked := 0
  drained := 0
  received := []
  deferred := []

/-- What the two threads do. -/
inductive Event where
  | line (bytes : List UInt8)
  | beginFrame
  | applyFront (alreadyOwned granted : Bool)
  | popDiscard
  | flushFront (sceneReady granted : Bool)
  | saveLoad (debounced : Bool)

def kDrainCap : ℕ := 16

/-- The item a line decodes to, if it is an accepted item line. -/
def itemOf (s : State) (bytes : List UInt8) : Option Item :=
  if (decode bytes s.msg).1 && MsgType.ofTag (decode bytes s.msg).2.t == some .item then
    some (decode bytes s.msg).2.item
  else none

/-- `handleLine` as far as items go. -/
def handleLine (bytes : List UInt8) (s : State) : State :=
  let decoded := { s with msg := (decode bytes s.msg).2 }
  match itemOf s bytes with
  | none => decoded
  | some item =>
      { decoded with inbound := s.inbound.offer item, received := s.received ++ [item] }

/-- `captures_unlocked.set(bit)` for a bit inside the set. -/
def unlock (cap : CStr kCheckFieldCap) (unlocked : BitVec 128) : BitVec 128 :=
  if captureBitFor cap < 128 then unlocked ||| BitVec.twoPow 128 (captureBitFor cap) else unlocked

/-- The front item is a capture whose grant is tried and fails. -/
def Defers (item : Item) (alreadyOwned granted : Bool) : Bool :=
  item.kind == .capture && !item.cap.isEmpty && !alreadyOwned && !granted

/-- One turn of the drain loop of `applyOnFrame`, up to the discard. -/
def applyFront (alreadyOwned granted : Bool) (s : State) : State :=
  if s.inbound.discardDue || kDrainCap ≤ s.drained then s
  else
    match s.inbound.ring.peek with
    | none => s
    | some item =>
        let taken :=
          { s with
            inbound := s.inbound.take
            drained := s.drained + 1
            capturesUnlocked :=
              if item.kind = .capture ∧ item.cap.isEmpty = false then
                unlock captureBitFor item.cap s.capturesUnlocked
              else s.capturesUnlocked }
        if Defers item alreadyOwned granted then
          { taken with
            pendingCaptureGrant := s.pendingCaptureGrant.offer item
            deferred := s.deferred ++ [item] }
        else taken

/-- Events that are not enabled change nothing. -/
def step (s : State) : Event → State
  | .line bytes => handleLine bytes s
  | .beginFrame => { s with drained := 0 }
  | .applyFront alreadyOwned granted => applyFront captureBitFor alreadyOwned granted s
  | .popDiscard => { s with inbound := s.inbound.discard }
  | .flushFront sceneReady granted =>
      if sceneReady && granted then
        { s with pendingCaptureGrant := s.pendingCaptureGrant.take.discard }
      else s
  | .saveLoad debounced =>
      if debounced then s
      else
        { s with
          pendingCaptureGrant := s.pendingCaptureGrant.restart
          capturesUnlocked := 0
          deferred := [] }

/-- The items applied so far and those still queued are the items received, in order,
and the deferred captures since the last load are granted or queued. -/
structure Exact (s : State) : Prop where
  items : s.inbound.consumed ++ s.inbound.waiting = s.received
  captures : s.pendingCaptureGrant.consumed ++ s.pendingCaptureGrant.waiting = s.deferred

/-- An item line finds room in the item ring, and a deferred capture room among the
pending grants. -/
def Good (s : State) : Event → Prop
  | .line bytes => (itemOf s bytes).isSome → s.inbound.ring.HasRoom
  | .applyFront alreadyOwned granted =>
      ∀ item, s.inbound.discardDue = false → s.drained < kDrainCap →
        s.inbound.ring.peek = some item → Defers item alreadyOwned granted = true →
          s.pendingCaptureGrant.ring.HasRoom
  | _ => True

/-! ## One step -/

/-- Offering and logging stay in step exactly when the ring has room. -/
theorem offer_exact_iff {n : ℕ} (c : Channel Item n) (log : List Item) (item : Item)
    (exact : c.history = log) : (c.offer item).history = log ++ [item] ↔ c.ring.HasRoom := by
  rw [Channel.history_offer, exact, List.append_cancel_left_eq]
  split_ifs with room
  · exact iff_of_true rfl room
  · exact iff_of_false (by simp) room

theorem handleLine_exact (s : State) (bytes : List UInt8) (exact : Exact s) :
    Exact (handleLine bytes s) ↔ Good s (.line bytes) := by
  simp only [handleLine, Good]
  cases itemOf s bytes with
  | none => exact iff_of_true ⟨exact.1, exact.2⟩ fun h => absurd h Bool.false_ne_true
  | some item =>
      have one := offer_exact_iff s.inbound s.received item exact.items
      exact ⟨fun h _ => one.1 h.items, fun room => ⟨one.2 (room rfl), exact.captures⟩⟩

theorem applyFront_exact (s : State) (alreadyOwned granted : Bool) (exact : Exact s) :
    Exact (applyFront captureBitFor alreadyOwned granted s) ↔
      Good s (.applyFront alreadyOwned granted) := by
  have taken : s.inbound.take.history = s.received := s.inbound.history_take.trans exact.items
  unfold applyFront Good
  by_cases off : (s.inbound.discardDue || decide (kDrainCap ≤ s.drained)) = true
  · rw [if_pos off]
    refine iff_of_true exact fun item idle below => ?_
    simp [idle, not_le.2 below] at off
  · rw [if_neg off]
    simp only [Bool.or_eq_true, decide_eq_true_eq, not_or, not_le, Bool.not_eq_true] at off
    cases front : s.inbound.ring.peek with
    | none => exact iff_of_true exact fun item _ _ h => by cases h
    | some item =>
        dsimp only
        by_cases defers : Defers item alreadyOwned granted = true
        · rw [if_pos defers]
          have one := offer_exact_iff s.pendingCaptureGrant s.deferred item exact.captures
          refine ⟨fun h _ _ _ _ _ => one.1 h.captures, fun room => ⟨taken, one.2 ?_⟩⟩
          exact room item off.1 off.2 rfl defers
        · rw [if_neg defers]
          refine iff_of_true ⟨taken, exact.captures⟩ fun item' _ _ same defers' => ?_
          obtain rfl := Option.some.inj same
          exact absurd defers' defers

/-- Each step keeps exactness exactly when what it queues finds room. -/
theorem step_exact (s : State) (e : Event) (exact : Exact s) :
    Exact (step captureBitFor s e) ↔ Good s e := by
  cases e with
  | line bytes => exact handleLine_exact s bytes exact
  | beginFrame => exact iff_of_true ⟨exact.1, exact.2⟩ trivial
  | applyFront alreadyOwned granted =>
      exact applyFront_exact captureBitFor s alreadyOwned granted exact
  | popDiscard =>
      exact iff_of_true ⟨s.inbound.history_discard.trans exact.items, exact.captures⟩ trivial
  | flushFront sceneReady granted =>
      refine iff_of_true ?_ trivial
      simp only [step]
      split_ifs
      · refine ⟨exact.items, ?_⟩
        exact (Channel.history_discard _).trans
          ((Channel.history_take _).trans exact.captures)
      · exact exact
  | saveLoad debounced =>
      refine iff_of_true ?_ trivial
      simp only [step]
      split_ifs
      · exact exact
      · exact ⟨exact.items, Channel.history_restart _⟩

/-! ## Runs -/

theorem start_exact : Exact start :=
  ⟨Channel.history_empty 256 default, Channel.history_empty 64 default⟩

/-- Throughout a run every received item is applied once and in order or waits, and
every deferred capture is granted or waits, exactly if no item line meets a full
item ring and no deferred capture a full pending ring. -/
theorem inbound_exact_iff (events : List Event) :
    Throughout (step captureBitFor) Exact start events ↔
      Along (step captureBitFor) Good start events :=
  throughout_iff_along (fun _ _ (_ : True) => trivial)
    (fun s e _ exact => step_exact captureBitFor s e exact) trivial start_exact events

/-- Item lines of one replay that arrive before the next frame. -/
def replayBurst (n : ℕ) : List Event := List.replicate n (.line frogLine)

theorem itemOf_frogLine (s : State) : (itemOf s frogLine).isSome := by
  have accepted : (decode frogLine s.msg).1 = true :=
    (decode_verdict frogLine s.msg).trans (by decide +kernel)
  have tag : MsgType.ofTag (decode frogLine s.msg).2.t = some .item := by
    rw [decode_tag frogLine s.msg accepted]
    decide +kernel
  simp [itemOf, accepted, tag]

theorem run_replayBurst (n : ℕ) (s : State) :
    (run (step captureBitFor) s (replayBurst n)).received.length = s.received.length + n ∧
      (run (step captureBitFor) s (replayBurst n)).inbound.consumed = s.inbound.consumed := by
  induction n generalizing s with
  | zero => exact ⟨rfl, rfl⟩
  | succ n ih =>
      obtain ⟨item, found⟩ := Option.isSome_iff_exists.1 (itemOf_frogLine s)
      obtain ⟨received, consumed⟩ := ih (handleLine frogLine s)
      have lines : replayBurst (n + 1) = .line frogLine :: replayBurst n := List.replicate_succ
      rw [lines, run_cons]
      have shape : (handleLine frogLine s).received = s.received ++ [item] ∧
          (handleLine frogLine s).inbound.consumed = s.inbound.consumed := by
        simp [handleLine, found]
      constructor
      · refine received.trans ?_
        rw [shape.1, List.length_append, List.length_singleton]
        omega
      · exact consumed.trans shape.2

/-- A replay of 256 items before the next frame loses one of them. -/
theorem replay_burst_loses_item :
    ¬ Throughout (step fun _ => 0xff) Exact start (replayBurst 256) := by
  intro throughout
  have items := congrArg List.length (throughout_end throughout).items
  obtain ⟨received, consumed⟩ := run_replayBurst (fun _ => 0xff) 256 start
  rw [received, List.length_append, consumed] at items
  have bound := (run (step fun _ => 0xff) start (replayBurst 256)).inbound.length_waiting_lt
  simp only [start, Channel.empty, List.length_nil] at items bound
  omega

end SmoArchipelago.Switch.Inbound
