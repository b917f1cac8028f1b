import SmoArchipelago.Library.CountedRing
import SmoArchipelago.Library.Runs
import SmoArchipelago.Switch.CappyText

/-! # Cappy's messages

Messages wait in a ring of eight until the game lets Cappy speak. The game reads the text of the
balloon from the one buffer as long as the balloon is shown, and answers whether it still is.

## Implementation notes

What the game answers to the calls of one `tryPump` is given with it. `log` notes what the code
logs; it is read by what is said about the messenger only. -/

namespace SmoArchipelago.Switch.Cappy

open Library Library.Runs Json ApProtocol MsgFontSafe CappyText

def kQueueCap : ℕ := 8

def kMaxRetryFrames : ℕ := 9000

def kSceneSettleFrames : UInt32 := 600

def kSceneSettleMs : ℤ := 10000

def kArchipelagoLabel : List UInt8 := ascii "ArchipelagoCappyMsg"

/-- The text of a queued message. -/
abbrev Text := CStr kEntryTextCap

/-- What the messenger does; the first argument of `isActive` is whether no balloon of its own is
up. -/
inductive Act where
  | enqueued (text : Text)
  | sceneChanged
  | isActive (preFlight answer : Bool)
  | filled
  | tryShow (text : Text) (answer : Bool)
  | dropped (text : Text)

variable {σ : Type*}

/-- `buffer` is without the terminator; a scene is known by its address. -/
structure CappyMessenger (σ : Type*) where
  queue : CountedRing Text kQueueCap
  retryFrames : ℕ
  lastScene : Option σ
  settleFrames : UInt32
  sceneChangeMs : ℤ
  buffer : List UInt16
  bufferInUse : Bool
  dispatchedSinceReset : Bool
  log : List Act

namespace CappyMessenger

def start : CappyMessenger σ where
  queue := ⟨fun _ => default, fun _ => false, ⟨0, by decide⟩, ⟨0, by decide⟩, 0⟩
  retryFrames := 0
  lastScene := none
  settleFrames := 0
  sceneChangeMs := 0
  buffer := []
  bufferInUse := false
  dispatchedSinceReset := false
  log := []

/-! ## Enqueueing -/

def shouldShowCappyMsg (kind : ItemKind) (sender localSlot : List UInt8) (suppress : Bool) : Bool :=
  if suppress then false
  else if sender = [] then false
  else if kind = .other then false
  else if localSlot ≠ [] ∧ sender = localSlot then false
  else true

/-- The end of both `enqueue`s: a full queue drops the newest message. -/
def accept (s : CappyMessenger σ) (text : Text) : CappyMessenger σ :=
  if kQueueCap ≤ s.queue.count then s
  else { s with queue := s.queue.push text, log := s.log ++ [.enqueued text] }

def enqueue (s : CappyMessenger σ) (item : Item) (localSlot : List UInt8) (suppress : Bool) :
    CappyMessenger σ :=
  if shouldShowCappyMsg item.kind item.from.bytes localSlot suppress then
    s.accept (formatCappyMsg item)
  else s

def enqueueSystem (s : CappyMessenger σ) (text : List UInt8) : CappyMessenger σ :=
  if text = [] then s else s.accept (CStr.ofBytes (sanitizeForMsgFont text kEntryTextCap))

/-! ## Pumping -/

/-- One `tryPump`: its scene, whether the calls into the game are known, the clock at its two
readings, and what the game answers to the calls. -/
structure Pump (σ : Type*) where
  scene : Option σ
  resolved : Bool
  changeMs : ℤ
  now : ℤ
  stillActive : Bool
  nintendoActive : Bool
  ok : Bool

/-- Another scene frees the buffer. -/
def noteScene [DecidableEq σ] (s : CappyMessenger σ) (scene : Option σ) (changeMs : ℤ) : CappyMessenger σ :=
  if scene ≠ s.lastScene then
    { s with
      lastScene := scene
      settleFrames := 0
      sceneChangeMs := if scene.isSome then changeMs else 0
      bufferInUse := false
      log := s.log ++ [.sceneChanged] }
  else if scene.isSome then { s with settleFrames := s.settleFrames + 1 }
  else s

/-- The settle gate. -/
def Settled (s : CappyMessenger σ) (now : ℤ) : Prop :=
  kSceneSettleFrames ≤ s.settleFrames ∧
    kSceneSettleMs ≤ if s.sceneChangeMs = 0 then 0 else now - s.sceneChangeMs

instance decidableSettled (s : CappyMessenger σ) (now : ℤ) : Decidable (s.Settled now) :=
  inferInstanceAs (Decidable (_ ∧ _))

def headText (s : CappyMessenger σ) : Text := s.queue.slots s.queue.head

def dropHead (s : CappyMessenger σ) : CappyMessenger σ :=
  { s with
    queue := s.queue.dropHead
    retryFrames := 0
    log := s.log ++ [.dropped s.headText] }

/-- A refusal is counted, and the last one that is waited for drops the message. -/
def refused (s : CappyMessenger σ) : CappyMessenger σ :=
  let t := { s with retryFrames := s.retryFrames + 1 }
  if kMaxRetryFrames ≤ t.retryFrames then t.dropHead else t

/-- The buffer stays in use: the game reads it as long as the balloon is shown. -/
def markDispatched (s : CappyMessenger σ) : CappyMessenger σ :=
  if s.queue.count = 0 then s else { s with queue := s.queue.dropHead, retryFrames := 0 }

/-- The buffer takes the text of the head. -/
def fill (s : CappyMessenger σ) : CappyMessenger σ :=
  { s with
    buffer := utf8ToUtf16 s.headText.bytes kBufferUtf16Words
    log := s.log ++ [.filled] }

/-- The head is shown or refused. -/
def show' (s : CappyMessenger σ) (ok : Bool) : CappyMessenger σ :=
  let t : CappyMessenger σ := { s with bufferInUse := true, log := s.log ++ [.tryShow s.headText ok] }
  if ok then { t with dispatchedSinceReset := true }.markDispatched
  else { t with bufferInUse := false }.refused

/-- `tryPump` from the pre-flight check on. -/
def dispatch (s : CappyMessenger σ) (p : Pump σ) : CappyMessenger σ :=
  let t : CappyMessenger σ := { s with log := s.log ++ [.isActive true p.nintendoActive] }
  if p.nintendoActive then t.refused
  else if t.fill.buffer = [] ∧ t.headText.bytes ≠ [] then t.fill.dropHead
  else t.fill.show' p.ok

def tryPump [DecidableEq σ] (s : CappyMessenger σ) (p : Pump σ) : CappyMessenger σ :=
  let t := s.noteScene p.scene p.changeMs
  if t.queue.count = 0 then t
  else if p.scene = none then t
  else if p.resolved = false then t
  else if ¬ t.Settled p.now then t
  else if t.bufferInUse then
    let u : CappyMessenger σ := { t with log := t.log ++ [.isActive false p.stillActive] }
    if p.stillActive then u else { u with bufferInUse := false }.dispatch p
  else t.dispatch p

/-- What the game finds under a label. -/
def lookupSubstitution (s : CappyMessenger σ) (label : List UInt8) : Option (List UInt16) :=
  if label ≠ kArchipelagoLabel then none
  else if s.bufferInUse = false then none
  else some s.buffer

def clearDispatchLatch (s : CappyMessenger σ) : CappyMessenger σ :=
  { s with dispatchedSinceReset := false }

inductive Event (σ : Type*) where
  | enqueue (item : Item) (localSlot : List UInt8) (suppress : Bool)
  | enqueueSystem (text : List UInt8)
  | tryPump (p : Pump σ)
  | clearDispatchLatch

def step [DecidableEq σ] (s : CappyMessenger σ) : Event σ → CappyMessenger σ
  | .enqueue item localSlot suppress => s.enqueue item localSlot suppress
  | .enqueueSystem text => s.enqueueSystem text
  | .tryPump p => s.tryPump p
  | .clearDispatchLatch => s.clearDispatchLatch

end CappyMessenger

/-! ## What an observer notes -/

namespace Act

def accepted : Act → Option Text
  | .enqueued text => some text
  | _ => none

/-- The message that left the queue, and whether it was dispatched. -/
def left : Act → Option (Text × Bool)
  | .tryShow text true => some (text, true)
  | .dropped text => some (text, false)
  | _ => none

/-- How often the head was refused since it became the head. -/
def refusals (n : ℕ) : Act → ℕ
  | .isActive true true => n + 1
  | .tryShow _ false => n + 1
  | .tryShow _ true => 0
  | .dropped _ => 0
  | _ => n

/-- The text of the balloon that may be up. -/
def balloon (up : Option Text) : Act → Option Text
  | .tryShow text true => some text
  | .isActive _ false => none
  | .sceneChanged => none
  | _ => up

end Act

def accepted (log : List Act) : List Text := log.filterMap Act.accepted

def left (log : List Act) : List (Text × Bool) := log.filterMap Act.left

def refusals (log : List Act) : ℕ := log.foldl Act.refusals 0

def balloon (log : List Act) : Option Text := log.foldl Act.balloon none

/-- Where a message is dropped: it was refused often enough, or nothing of it can be shown. -/
def DropsRightly (before : List Act) (a : Act) : Prop :=
  (∀ text, a = .dropped text → refusals before = kMaxRetryFrames ∨
    text.bytes ≠ [] ∧ utf8ToUtf16 text.bytes kBufferUtf16Words = []) ∧
  (refusals before = kMaxRetryFrames → ∃ text, a = .dropped text)

/-- The buffer is written while no balloon is up. -/
def FillsFree (before : List Act) (a : Act) : Prop := a = .filled → balloon before = none

open CappyMessenger

/-- The queue and the buffer are as the log tells. -/
structure Tracked (s : CappyMessenger σ) : Prop where
  ordered : s.queue.Ordered
  counted : (accepted s.log).length = (left s.log).length + s.queue.count
  inOrder : accepted s.log = (left s.log).map Prod.fst ++ s.queue.toList
  retried : s.retryFrames = refusals s.log
  drops : AtEach DropsRightly s.log
  fills : AtEach FillsFree s.log
  shown : ∀ text, balloon s.log = some text →
    s.lookupSubstitution kArchipelagoLabel = some (utf8ToUtf16 text.bytes kBufferUtf16Words)

/-- And the head is not due to be dropped. -/
structure Disciplined (s : CappyMessenger σ) : Prop extends Tracked s where
  waits : s.retryFrames < kMaxRetryFrames

/-! ## One entry of the log -/

section

variable {s t : CappyMessenger σ} {a : Act}

theorem accepted_append (log : List Act) (a : Act) :
    accepted (log ++ [a]) = accepted log ++ a.accepted.toList := by
  rw [accepted, List.filterMap_append]
  cases a <;> rfl

theorem left_append (log : List Act) (a : Act) : left (log ++ [a]) = left log ++ a.left.toList := by
  rw [left, List.filterMap_append, ← left, List.filterMap_cons, List.filterMap_nil]
  cases a.left <;> rfl

theorem refusals_append (log : List Act) (a : Act) :
    refusals (log ++ [a]) = a.refusals (refusals log) := List.foldl_concat ..

theorem balloon_append (log : List Act) (a : Act) :
    balloon (log ++ [a]) = a.balloon (balloon log) := List.foldl_concat ..

/-- No message comes or goes. -/
theorem Disciplined.note (h : Disciplined s) (log : t.log = s.log ++ [a])
    (queue : t.queue = s.queue) (retry : t.retryFrames = a.refusals s.retryFrames)
    (noneCame : a.accepted = none) (noneLeft : a.left = none) (free : FillsFree s.log a)
    (shown : ∀ text, a.balloon (balloon s.log) = some text →
      t.lookupSubstitution kArchipelagoLabel =
        some (utf8ToUtf16 text.bytes kBufferUtf16Words)) : Tracked t where
  ordered := queue ▸ h.ordered
  counted := by
    rw [log, accepted_append, left_append, noneCame, noneLeft, queue]
    simpa using h.counted
  inOrder := by
    rw [log, accepted_append, left_append, noneCame, noneLeft, queue]
    simpa using h.inOrder
  retried := by rw [log, refusals_append, retry, h.retried]
  drops := by
    rw [log]
    refine h.drops.append ⟨fun text same => ?_, fun due => ?_⟩
    · rw [same] at noneLeft
      cases noneLeft
    · exact absurd (h.retried.trans due) h.waits.ne
  fills := by
    rw [log]
    exact h.fills.append free
  shown := by
    intro text up
    rw [log, balloon_append] at up
    exact shown text up

/-- The head leaves the queue. -/
theorem Tracked.leave (h : Tracked s) (waiting : 0 < s.queue.count) {dispatched : Bool}
    (log : t.log = s.log ++ [a]) (queue : t.queue = s.queue.dropHead) (retry : t.retryFrames = 0)
    (headLeft : a.left = some (s.headText, dispatched)) (rightly : DropsRightly s.log a)
    (shown : ∀ text, a.balloon (balloon s.log) = some text →
      t.lookupSubstitution kArchipelagoLabel =
        some (utf8ToUtf16 text.bytes kBufferUtf16Words)) : Disciplined t := by
  have noneCame : a.accepted = none := by
    cases a <;> first | rfl | cases headLeft
  have reset : a.refusals (refusals s.log) = 0 := by
    cases a with
    | tryShow text answer =>
        cases answer with
        | true => rfl
        | false => cases headLeft
    | dropped text => rfl
    | enqueued text => cases headLeft
    | sceneChanged => cases headLeft
    | isActive preFlight answer => cases headLeft
    | filled => cases headLeft
  refine ⟨⟨queue ▸ h.ordered.dropHead waiting, ?_, ?_, ?_, ?_, ?_, ?_⟩, ?_⟩
  · rw [log, accepted_append, left_append, noneCame, headLeft, queue]
    change (accepted s.log ++ []).length = (left s.log ++ [_]).length + (s.queue.count - 1)
    rw [List.append_nil, List.length_append, h.counted, List.length_singleton]
    omega
  · rw [log, accepted_append, left_append, noneCame, headLeft, queue, h.inOrder,
      CountedRing.toList_dropHead waiting]
    change _ ++ [] = List.map _ (_ ++ [_]) ++ _
    rw [List.append_nil, List.map_append, List.append_assoc]
    rfl
  · rw [log, refusals_append, retry, reset]
  · rw [log]
    exact h.drops.append rightly
  · rw [log]
    refine h.fills.append fun filled => ?_
    rw [filled] at headLeft
    cases headLeft
  · intro text up
    rw [log, balloon_append] at up
    exact shown text up
  · rw [retry]
    decide

/-! ## One operation -/

theorem Disciplined.accept (h : Disciplined s) (text : Text) : Disciplined (s.accept text) := by
  rw [CappyMessenger.accept]
  split_ifs with full
  · exact h
  · have room := not_le.1 full
    refine ⟨⟨h.ordered.push room text, ?_, ?_, ?_, ?_, ?_, ?_⟩, h.waits⟩
    · change (accepted (s.log ++ [_])).length = (left (s.log ++ [_])).length + (s.queue.count + 1)
      rw [accepted_append, left_append, List.length_append, h.counted]
      change _ + 1 = (left s.log ++ []).length + _
      rw [List.append_nil, add_assoc]
    · change accepted (s.log ++ [_]) = (left (s.log ++ [_])).map Prod.fst ++ (s.queue.push text).toList
      rw [accepted_append, left_append, h.inOrder, CountedRing.toList_push h.ordered room,
        List.append_assoc]
      change _ = List.map _ (left s.log ++ []) ++ _
      rw [List.append_nil]
      rfl
    · change s.retryFrames = refusals (s.log ++ [_])
      rw [refusals_append]
      exact h.retried
    · refine h.drops.append ⟨fun text same => (by cases same), fun due => ?_⟩
      exact absurd (h.retried.trans due) h.waits.ne
    · exact h.fills.append fun same => by cases same
    · intro up shows
      change balloon (s.log ++ [_]) = _ at shows
      rw [balloon_append] at shows
      exact h.shown up shows

theorem Tracked.dropHead (h : Tracked s) (waiting : 0 < s.queue.count)
    (right : refusals s.log = kMaxRetryFrames ∨
      s.headText.bytes ≠ [] ∧ utf8ToUtf16 s.headText.bytes kBufferUtf16Words = []) :
    Disciplined s.dropHead := by
  refine h.leave waiting rfl rfl rfl rfl ⟨?_, fun _ => ⟨_, rfl⟩⟩ h.shown
  rintro text ⟨⟩
  exact right

/-- The head is refused. -/
theorem Disciplined.refused (h : Disciplined s) (waiting : 0 < s.queue.count)
    (log : t.log = s.log ++ [a]) (queue : t.queue = s.queue) (retry : t.retryFrames = s.retryFrames)
    (counts : ∀ n, a.refusals n = n + 1) (noneCame : a.accepted = none) (noneLeft : a.left = none)
    (free : FillsFree s.log a) (down : a.balloon (balloon s.log) = none) :
    Disciplined t.refused := by
  have next : Tracked { t with retryFrames := t.retryFrames + 1 } := by
    refine h.note log queue ?_ noneCame noneLeft free ?_
    · rw [counts, ← retry]
    · intro text up
      rw [down] at up
      cases up
  have waits := h.waits
  rw [CappyMessenger.refused]
  dsimp only
  split_ifs with due
  · refine next.dropHead (queue ▸ waiting) (.inl ?_)
    rw [← next.retried]
    change t.retryFrames + 1 = _
    omega
  · exact ⟨next, not_le.1 due⟩

theorem balloon_fill : balloon s.fill.log = balloon s.log := balloon_append ..

theorem Disciplined.fill (h : Disciplined s) (down : balloon s.log = none) :
    Disciplined s.fill := by
  refine ⟨h.note rfl rfl rfl rfl rfl (fun _ => down) ?_, h.waits⟩
  intro text up
  rw [down] at up
  cases up

theorem Disciplined.show' (h : Disciplined s) (waiting : 0 < s.queue.count)
    (down : balloon s.log = none)
    (filled : s.buffer = utf8ToUtf16 s.headText.bytes kBufferUtf16Words) (ok : Bool) :
    Disciplined (s.show' ok) := by
  cases ok with
  | true =>
      change Disciplined (CappyMessenger.markDispatched _)
      rw [CappyMessenger.markDispatched, if_neg waiting.ne']
      refine h.leave waiting rfl rfl rfl rfl ⟨?_, ?_⟩ ?_
      · rintro text ⟨⟩
      · intro due
        exact absurd (h.retried.trans due) h.waits.ne
      · rintro text ⟨⟩
        exact congrArg some filled
  | false =>
      exact h.refused waiting rfl rfl rfl (fun _ => rfl) rfl rfl (fun same => by cases same) down

theorem Disciplined.dispatch (h : Disciplined s) (waiting : 0 < s.queue.count)
    (down : balloon s.log = none) (p : Pump σ) : Disciplined (s.dispatch p) := by
  rw [CappyMessenger.dispatch]
  split_ifs with busy empty
  · rw [busy]
    exact h.refused waiting rfl rfl rfl (fun _ => rfl) rfl rfl (fun same => by cases same) down
  all_goals
    rw [Bool.not_eq_true] at busy
    rw [busy]
    have asked : Disciplined { s with log := s.log ++ [.isActive true false] } := by
      refine ⟨h.note rfl rfl rfl rfl rfl (fun same => by cases same) ?_, h.waits⟩
      rintro text ⟨⟩
    have free : balloon (s.log ++ [.isActive true false]) = none := by
      rw [balloon_append]
      rfl
    have filled := asked.fill free
  · exact filled.toTracked.dropHead waiting (.inr ⟨empty.2, empty.1⟩)
  · exact filled.show' waiting (by rw [balloon_fill, free]) rfl p.ok

theorem balloon_free (h : Disciplined s) (free : s.bufferInUse = false) : balloon s.log = none := by
  cases up : balloon s.log with
  | none => rfl
  | some text =>
      have shown := h.shown text up
      rw [lookupSubstitution, if_neg (not_not.2 rfl), if_pos free] at shown
      cases shown

variable [DecidableEq σ]

theorem Disciplined.noteScene (h : Disciplined s) (scene : Option σ) (changeMs : ℤ) :
    Disciplined (s.noteScene scene changeMs) := by
  rw [CappyMessenger.noteScene]
  by_cases changed : scene = s.lastScene
  · rw [if_neg (not_not.2 changed)]
    split_ifs
    · exact ⟨⟨h.ordered, h.counted, h.inOrder, h.retried, h.drops, h.fills, h.shown⟩, h.waits⟩
    · exact h
  · rw [if_pos changed]
    refine ⟨h.note rfl rfl rfl rfl rfl (fun same => by cases same) ?_, h.waits⟩
    rintro text ⟨⟩

theorem Disciplined.tryPump (h : Disciplined s) (p : Pump σ) : Disciplined (s.tryPump p) := by
  have noted := h.noteScene p.scene p.changeMs
  rw [CappyMessenger.tryPump]
  split_ifs with none _ _ _ inUse active
  · exact noted
  · exact noted
  · exact noted
  · rw [active]
    exact ⟨noted.note rfl rfl rfl rfl rfl (fun same => by cases same) noted.shown, noted.waits⟩
  · have released : Disciplined
        { s.noteScene p.scene p.changeMs with
          bufferInUse := false
          log := (s.noteScene p.scene p.changeMs).log ++ [.isActive false p.stillActive] } := by
      rw [Bool.not_eq_true] at active
      rw [active]
      refine ⟨noted.note rfl rfl rfl rfl rfl (fun same => by cases same) ?_, noted.waits⟩
      rintro text ⟨⟩
    exact released.dispatch (Nat.pos_of_ne_zero none) (balloon_free released rfl) p
  · rw [Bool.not_eq_true] at inUse
    exact noted.dispatch (Nat.pos_of_ne_zero none) (balloon_free noted inUse) p
  · exact noted

end

theorem start_disciplined : Disciplined (start : CappyMessenger σ) where
  ordered := by
    refine ⟨Nat.zero_le _, rfl, fun i => iff_of_false Bool.false_ne_true ?_⟩
    rintro ⟨k, small, -⟩
    exact absurd small (Nat.not_lt_zero k)
  counted := rfl
  inOrder := rfl
  retried := rfl
  drops := atEach_nil
  fills := atEach_nil
  shown := by rintro text ⟨⟩
  waits := Nat.succ_pos _

theorem step_disciplined [DecidableEq σ] (s : CappyMessenger σ) (e : Event σ) (h : Disciplined s) :
    Disciplined (step s e) := by
  cases e with
  | enqueue item localSlot suppress =>
      change Disciplined (s.enqueue item localSlot suppress)
      rw [CappyMessenger.enqueue]
      split_ifs
      · exact h.accept _
      · exact h
  | enqueueSystem text =>
      change Disciplined (s.enqueueSystem text)
      rw [CappyMessenger.enqueueSystem]
      split_ifs
      · exact h
      · exact h.accept _
  | tryPump p => exact h.tryPump p
  | clearDispatchLatch =>
      exact ⟨⟨h.ordered, h.counted, h.inOrder, h.retried, h.drops, h.fills, h.shown⟩, h.waits⟩

/-- The messenger keeps its discipline in every run. -/
theorem throughout_disciplined [DecidableEq σ] (es : List (Event σ)) :
    Throughout step Disciplined start es := by
  have always : Along step (fun _ _ => True) start es := along_of_forall fun _ _ _ => trivial
  exact guarded_run (fun s e h _ => step_disciplined s e h) start_disciplined always

end SmoArchipelago.Switch.Cappy
