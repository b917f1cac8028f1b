import SmoArchipelago.Switch.Outbound

/-! # Labels of the get-cutscenes

The bridge answers a moon check with the text that its cutscene shows. One slot holds the label
published last, with the sequence number of its check; a cutscene takes what the slot holds and
does not ask for a number.

## Implementation notes

A get-cutscene follows its collection, so the one that plays is that of the check numbered last.
The bridge may answer a check at any time and more than once, and its answers may overtake each
other on the way. -/

namespace SmoArchipelago.Switch.MoonLabels

open Library Library.Runs ApProtocol

def kPendingMoonLabelCap : ℕ := 32

instance neZeroLabelCap : NeZero kPendingMoonLabelCap := neZero32

/-- The slot; number 0 is an empty one, deadline 0 is none. -/
structure PendingMoonLabel where
  text : CStr kPendingMoonLabelCap
  deadlineMs : ℤ
  publishedSeq : ℤ

/-- A label that was taken: which publication it was, in which cutscene and when. -/
structure Taken where
  text : CStr kPendingMoonLabelCap
  publication : ℕ
  cutscene : ℤ
  now : ℤ

/-- The labels of one session. The last two fields log what was published and taken. -/
structure State where
  outbound : Outbound.State
  pendingMoonLabel : PendingMoonLabel
  labelLastConsumedSeq : ℤ
  now : ℤ
  replies : List MoonLabel
  published : List PendingMoonLabel
  taken : List Taken

def start : State where
  outbound := Outbound.start
  pendingMoonLabel := ⟨default, 0, 0⟩
  labelLastConsumedSeq := 0
  now := 0
  replies := []
  published := []
  taken := []

/-- What the frame thread, the socket thread and the bridge do. -/
inductive Event where
  | outbound (e : Outbound.Event)
  | blocked
  | dispatchCheck (sent : ℕ) (label : Option (CStr kCheckFieldCap))
  | handleLine (reply : ℕ)
  | take
  | pass (ms : ℕ)

/-- The number of the check whose cutscene plays. -/
def State.cutscene (s : State) : ℤ := s.outbound.nextCheckSeq - 1

/-- `setPendingMoonLabel`: nothing is compared with what the slot holds. -/
def setPendingMoonLabel (text : List UInt8) (seq deadlineMs : ℤ) (s : State) : State :=
  if seq ≤ 0 then s
  else
    let label : PendingMoonLabel := ⟨CStr.ofBytes text, deadlineMs, seq⟩
    { s with pendingMoonLabel := label, published := s.published ++ [label] }

/-- `tryTakePendingMoonLabel`. -/
def tryTakePendingMoonLabel (s : State) : Option (CStr kPendingMoonLabelCap) × State :=
  let label := s.pendingMoonLabel
  if label.publishedSeq = 0 then (none, s)
  else if label.publishedSeq = s.labelLastConsumedSeq then (none, s)
  else if label.deadlineMs ≠ 0 ∧ label.deadlineMs < s.now then
    (none, { s with labelLastConsumedSeq := label.publishedSeq })
  else (some label.text, { s with labelLastConsumedSeq := label.publishedSeq })

/-- What `_dispatch_check` sends back, where a label could be composed. -/
def moonLabelReply (c : Check) (label : Option (CStr kCheckFieldCap)) : Option MoonLabel :=
  label.bind fun text =>
    if c.kind = .moon ∧ c.seq ≠ 0 ∧ text.isEmpty = false then
      some { (default : MoonLabel) with text := text, seq := c.seq }
    else none

/-- `handleLine` on a `moon_label` message. -/
def handleMoonLabel (reply : MoonLabel) (s : State) : State :=
  setPendingMoonLabel reply.text.bytes reply.seq
    (if 0 < reply.validForMs then s.now + reply.validForMs else 0) s

/-- The log entry of a label handed out. -/
def State.takes (s : State) (text : CStr kPendingMoonLabelCap) : Taken :=
  ⟨text, s.published.length - 1, s.cutscene, s.now⟩

def step (s : State) : Event → State
  | .outbound e => { s with outbound := Outbound.step s.outbound e }
  | .blocked =>
      setPendingMoonLabel (Json.ascii "Blocked by Talkatoo!") s.outbound.nextCheckSeq (s.now + 4000)
        { s with outbound := { s.outbound with nextCheckSeq := s.outbound.nextCheckSeq + 1 } }
  | .dispatchCheck sent label =>
      { s with
        replies := s.replies ++
          (s.outbound.sent[sent]?.bind fun c => moonLabelReply c label).toList }
  | .handleLine reply =>
      (s.replies[reply]?).elim s fun r =>
        handleMoonLabel r { s with replies := s.replies.eraseIdx reply }
  | .take =>
      let r := tryTakePendingMoonLabel s
      { r.2 with taken := s.taken ++ r.1.toList.map s.takes }
  | .pass ms => { s with now := s.now + ms }

/-! ## What the labels are to be -/

/-- A label that is taken is that of its cutscene, in time, and no other take had it. -/
structure Own (s : State) : Prop where
  own : ∀ t ∈ s.taken, ∃ label, s.published[t.publication]? = some label ∧ label.text = t.text ∧
    label.publishedSeq = t.cutscene ∧ (label.deadlineMs = 0 ∨ t.now ≤ label.deadlineMs)
  once : (s.taken.map Taken.publication).Nodup

/-- The reply that an event brings. -/
def arriving (s : State) : Event → Option MoonLabel
  | .handleLine reply => s.replies[reply]?
  | _ => none

/-- A reply does not replace the label of a newer check. -/
def NewestStays (s : State) (e : Event) : Prop :=
  ∀ r, arriving s e = some r → s.pendingMoonLabel.publishedSeq ≤ r.seq

/-- The labels that a cutscene takes are its own, whenever it takes one, and no label of a newer
check is replaced. -/
def LabelsOwn (events : List Event) : Prop :=
  Throughout step (fun s => Own (step s .take)) start events ∧ Along step NewestStays start events

/-- The label of the slot would be handed out. -/
def State.Waiting (s : State) : Prop :=
  s.pendingMoonLabel.publishedSeq ≠ 0 ∧ s.pendingMoonLabel.publishedSeq ≠ s.labelLastConsumedSeq ∧
    (s.pendingMoonLabel.deadlineMs = 0 ∨ s.now ≤ s.pendingMoonLabel.deadlineMs)

/-- The event numbers a check without publishing a label for it. -/
def collects : Event → Bool
  | .outbound (.reportMoonChecked _ _ _) => true
  | _ => false

/-- No label waits when a moon is collected, and a reply comes while its check is the one numbered
last, or is a second one that is no longer taken. -/
def OnTime (s : State) (e : Event) : Prop :=
  (collects e = true → ¬ s.Waiting) ∧
    ∀ r, arriving s e = some r → r.seq = s.cutscene ∨
      r.seq = s.labelLastConsumedSeq ∧ s.pendingMoonLabel.publishedSeq ≤ r.seq

/-! ## Sequence numbers -/

theorem nextCheckSeq_replayIds (ids : List ItemRef) (s : Outbound.State) :
    (ids.foldl Outbound.replayId s).nextCheckSeq = s.nextCheckSeq := by
  induction ids generalizing s with
  | nil => rfl
  | cons ref ids ih => exact ih (Outbound.replayId s ref)

theorem nextCheckSeq_enqueueCheck (c : Check) (s : Outbound.State) :
    (Outbound.enqueueCheck c s).nextCheckSeq = s.nextCheckSeq := by
  unfold Outbound.enqueueCheck
  split_ifs <;> rfl

theorem nextCheckSeq_step (s : Outbound.State) (e : Outbound.Event) :
    (Outbound.step s e).nextCheckSeq =
      s.nextCheckSeq + if collects (.outbound e) = true then 1 else 0 := by
  cases e with
  | reportMoonChecked stageName objectId shineUid => exact nextCheckSeq_enqueueCheck _ _
  | reportCaptureChecked hackName =>
      exact (nextCheckSeq_enqueueCheck _ s).trans (add_zero _).symm
  | checkedReplay ids =>
      change _ = s.nextCheckSeq + 0
      rw [Outbound.step, add_zero]
      split_ifs
      · exact nextCheckSeq_replayIds ids s
      · rfl
  | setSyntheticGrant on => exact (add_zero _).symm
  | popDiscard => exact (add_zero _).symm
  | connect | disconnect | send ok =>
      change _ = s.nextCheckSeq + 0
      rw [Outbound.step, add_zero]
      split_ifs <;> rfl

theorem mem_history_enqueueCheck {c d : Check} {s : Outbound.State}
    (member : d ∈ (Outbound.enqueueCheck c s).outboundChecks.history) :
    d ∈ s.outboundChecks.history ∨ d = c := by
  by_cases on : s.syntheticGrantThisFrame = true
  · rw [Outbound.enqueueCheck_synthetic s c on] at member
    exact .inl member
  · have history := Outbound.history_enqueueCheck s c (Bool.eq_false_iff.2 on)
    change d ∈ (Outbound.enqueueCheck c s).sent ++ (Outbound.enqueueCheck c s).unsent at member
    rw [history] at member
    rcases List.mem_append.1 member with before | new
    · exact .inl before
    · split_ifs at new with pushed
      · exact .inr (List.mem_singleton.1 new)
      · cases new

/-- A check on its way was there before or is the one that the event reports. -/
theorem mem_history_step {s : Outbound.State} {e : Outbound.Event} {c : Check}
    (member : c ∈ (Outbound.step s e).outboundChecks.history) :
    c ∈ s.outboundChecks.history ∨ Outbound.reports s e = some c := by
  cases reported : Outbound.reports s e with
  | some d =>
      obtain ⟨n, shape⟩ := Outbound.step_reports reported
      rw [shape] at member
      exact (mem_history_enqueueCheck member).imp id fun same => by rw [same]
  | none =>
      left
      cases e with
      | reportMoonChecked stageName objectId shineUid => cases reported
      | reportCaptureChecked hackName => cases reported
      | setSyntheticGrant on => exact member
      | checkedReplay ids =>
          simp only [Outbound.step] at member
          split_ifs at member
          · exact (Outbound.replayIds_frame ids s).1 ▸ member
          · exact member
      | connect | disconnect =>
          simp only [Outbound.step] at member
          split_ifs at member <;> exact member
      | send ok =>
          simp only [Outbound.step] at member
          split_ifs at member
          · exact Channel.history_take s.outboundChecks ▸ member
          · exact member
      | popDiscard => exact Channel.history_discard s.outboundChecks ▸ member

/-- The numbers given so far are below the next one, and the log ends with the slot. -/
structure Numbered (s : State) : Prop where
  next_pos : 0 < s.outbound.nextCheckSeq
  checks : ∀ c ∈ s.outbound.outboundChecks.history, 0 ≤ c.seq ∧ c.seq < s.outbound.nextCheckSeq
  replies : ∀ r ∈ s.replies, 0 < r.seq ∧ r.seq < s.outbound.nextCheckSeq
  slot : s.pendingMoonLabel.publishedSeq < s.outbound.nextCheckSeq
  log : s.published.getLast? = some s.pendingMoonLabel ∨ s.pendingMoonLabel.publishedSeq = 0
  earlier : ∀ t ∈ s.taken, t.publication < s.published.length
  spent : ∀ t ∈ s.taken, t.publication + 1 = s.published.length →
    s.pendingMoonLabel.publishedSeq = s.labelLastConsumedSeq

theorem seq_reported {s : Outbound.State} {e : Outbound.Event} {c : Check} (pos : 0 < s.nextCheckSeq)
    (reported : Outbound.reports s e = some c) :
    0 ≤ c.seq ∧ c.seq < (Outbound.step s e).nextCheckSeq := by
  rw [nextCheckSeq_step]
  cases e with
  | reportMoonChecked stageName objectId shineUid =>
      cases reported
      exact ⟨pos.le, lt_add_one _⟩
  | reportCaptureChecked hackName =>
      cases reported
      exact ⟨le_rfl, pos.trans_le (add_zero _).ge⟩
  | _ => cases reported

theorem seq_moonLabelReply {c : Check} {label : Option (CStr kCheckFieldCap)} {r : MoonLabel}
    (reply : moonLabelReply c label = some r) : r.seq = c.seq ∧ c.seq ≠ 0 ∧ r.validForMs = 4000 := by
  obtain ⟨text, -, sent⟩ := Option.bind_eq_some_iff.1 reply
  split_ifs at sent with numbered
  cases sent
  exact ⟨rfl, numbered.2.1, rfl⟩

/-! ## One step -/

theorem setPendingMoonLabel_pos {seq : ℤ} (pos : 0 < seq) (text : List UInt8) (deadlineMs : ℤ)
    (s : State) :
    setPendingMoonLabel text seq deadlineMs s =
      { s with
        pendingMoonLabel := ⟨CStr.ofBytes text, deadlineMs, seq⟩
        published := s.published ++ [⟨CStr.ofBytes text, deadlineMs, seq⟩] } :=
  if_neg (not_le.2 pos)

theorem Numbered.publish {s : State} (h : Numbered s) {seq : ℤ} (pos : 0 < seq)
    (lt : seq < s.outbound.nextCheckSeq) (text : List UInt8) (deadlineMs : ℤ) :
    Numbered (setPendingMoonLabel text seq deadlineMs s) := by
  rw [setPendingMoonLabel_pos pos]
  refine ⟨h.next_pos, h.checks, h.replies, lt, .inl List.getLast?_concat, ?_, ?_⟩
  · intro t member
    rw [List.length_append]
    exact Nat.lt_add_right _ (h.earlier t member)
  · intro t member newest
    rw [List.length_append] at newest
    exact absurd (Nat.add_right_cancel newest) (h.earlier t member).ne

theorem Numbered.outbound {s : State} (h : Numbered s) {o : Outbound.State}
    (le : s.outbound.nextCheckSeq ≤ o.nextCheckSeq)
    (checks : ∀ c ∈ o.outboundChecks.history, 0 ≤ c.seq ∧ c.seq < o.nextCheckSeq) :
    Numbered { s with outbound := o } :=
  ⟨h.next_pos.trans_le le, checks, fun r member => (h.replies r member).imp id fun lt => lt.trans_le le,
    h.slot.trans_le le, h.log, h.earlier, h.spent⟩

theorem tryTake_waiting {s : State} (waiting : s.Waiting) :
    tryTakePendingMoonLabel s = (some s.pendingMoonLabel.text,
      { s with labelLastConsumedSeq := s.pendingMoonLabel.publishedSeq }) := by
  obtain ⟨published, fresh, inTime⟩ := waiting
  have not_late : ¬ (s.pendingMoonLabel.deadlineMs ≠ 0 ∧ s.pendingMoonLabel.deadlineMs < s.now) :=
    fun late => inTime.elim late.1 (not_le.2 late.2)
  rw [tryTakePendingMoonLabel, if_neg published, if_neg fresh, if_neg not_late]

/-- Where no label waits, at most its number is noted. -/
theorem tryTake_idle {s : State} (idle : ¬ s.Waiting) :
    ∃ seq, tryTakePendingMoonLabel s = (none, { s with labelLastConsumedSeq := seq }) ∧
      (seq = s.labelLastConsumedSeq ∨ seq = s.pendingMoonLabel.publishedSeq) ∧
        (s.pendingMoonLabel.publishedSeq = 0 ∨ s.pendingMoonLabel.publishedSeq = seq) := by
  unfold tryTakePendingMoonLabel
  dsimp only
  split_ifs with empty spent late
  · exact ⟨s.labelLastConsumedSeq, rfl, .inl rfl, .inl empty⟩
  · exact ⟨s.labelLastConsumedSeq, rfl, .inl rfl, .inr spent⟩
  · exact ⟨s.pendingMoonLabel.publishedSeq, rfl, .inr rfl, .inr rfl⟩
  · refine absurd ⟨empty, spent, ?_⟩ idle
    by_contra late'
    rw [not_or, not_le] at late'
    exact late late'

theorem step_take_waiting {s : State} (waiting : s.Waiting) :
    step s .take =
      { s with
        labelLastConsumedSeq := s.pendingMoonLabel.publishedSeq
        taken := s.taken ++ [s.takes s.pendingMoonLabel.text] } := by
  simp only [step, tryTake_waiting waiting]
  rfl

theorem step_take_idle {s : State} (idle : ¬ s.Waiting) :
    ∃ seq, step s .take = { s with labelLastConsumedSeq := seq } ∧
      (seq = s.labelLastConsumedSeq ∨ seq = s.pendingMoonLabel.publishedSeq) ∧
        (s.pendingMoonLabel.publishedSeq = 0 ∨ s.pendingMoonLabel.publishedSeq = seq) := by
  obtain ⟨seq, taken, noted⟩ := tryTake_idle idle
  refine ⟨seq, ?_, noted⟩
  simp only [step, taken]
  exact congrArg (fun log => { s with labelLastConsumedSeq := seq, taken := log })
    (List.append_nil s.taken)

theorem not_waiting_take (s : State) : ¬ (step s .take).Waiting := by
  by_cases waiting : s.Waiting
  · rw [step_take_waiting waiting]
    exact fun h => h.2.1 rfl
  · obtain ⟨seq, shape, -, spent⟩ := step_take_idle waiting
    rw [shape]
    exact fun h => spent.elim h.1 h.2.1

theorem Numbered.last {s : State} (h : Numbered s) (published : s.pendingMoonLabel.publishedSeq ≠ 0) :
    s.published[s.published.length - 1]? = some s.pendingMoonLabel ∧
      s.published.length - 1 + 1 = s.published.length := by
  have last := h.log.resolve_right published
  rw [List.getLast?_eq_getElem?] at last
  obtain ⟨lt, -⟩ := List.getElem?_eq_some_iff.1 last
  exact ⟨last, Nat.sub_add_cancel (Nat.one_le_of_lt (Nat.lt_of_le_of_lt (Nat.zero_le _) lt))⟩

/-- A step keeps the numbers in order. -/
theorem Numbered.step {s : State} (h : Numbered s) (e : Event) : Numbered (step s e) := by
  cases e with
  | outbound e =>
      have le : s.outbound.nextCheckSeq ≤ (Outbound.step s.outbound e).nextCheckSeq := by
        rw [nextCheckSeq_step]
        split_ifs <;> omega
      refine h.outbound le fun c member => ?_
      rcases mem_history_step member with before | reported
      · exact (h.checks c before).imp id fun lt => lt.trans_le le
      · exact seq_reported h.next_pos reported
  | blocked =>
      have raised := h.outbound (o := { s.outbound with nextCheckSeq := s.outbound.nextCheckSeq + 1 })
        (lt_add_one _).le fun c member => (h.checks c member).imp id fun lt => lt.trans (lt_add_one _)
      exact raised.publish h.next_pos (lt_add_one _) _ _
  | dispatchCheck sent label =>
      refine ⟨h.next_pos, h.checks, fun r member => ?_, h.slot, h.log, h.earlier, h.spent⟩
      rcases List.mem_append.1 member with before | new
      · exact h.replies r before
      · obtain ⟨c, there, reply⟩ := Option.bind_eq_some_iff.1 (Option.mem_toList.1 new)
        obtain ⟨seq, numbered, -⟩ := seq_moonLabelReply reply
        obtain ⟨nonneg, lt⟩ := h.checks c (List.mem_append_left _ (List.mem_of_getElem? there))
        rw [seq]
        exact ⟨lt_of_le_of_ne nonneg numbered.symm, lt⟩
  | handleLine reply =>
      rw [MoonLabels.step]
      cases there : s.replies[reply]? with
      | none => exact h
      | some r =>
          obtain ⟨pos, lt⟩ := h.replies r (List.mem_of_getElem? there)
          have fewer : Numbered { s with replies := s.replies.eraseIdx reply } :=
            ⟨h.next_pos, h.checks, fun r member => h.replies r (List.mem_of_mem_eraseIdx member),
              h.slot, h.log, h.earlier, h.spent⟩
          exact fewer.publish pos lt _ _
  | take =>
      by_cases waiting : s.Waiting
      · rw [step_take_waiting waiting]
        obtain ⟨-, length⟩ := h.last waiting.1
        refine ⟨h.next_pos, h.checks, h.replies, h.slot, h.log, fun t member => ?_, fun _ _ _ => rfl⟩
        rcases List.mem_append.1 member with before | new
        · exact h.earlier t before
        · rw [List.mem_singleton.1 new]
          exact Nat.lt_of_succ_le length.le
      · obtain ⟨seq, shape, noted, -⟩ := step_take_idle waiting
        rw [shape]
        refine ⟨h.next_pos, h.checks, h.replies, h.slot, h.log, h.earlier, fun t member newest => ?_⟩
        rcases noted with same | taken
        · exact (h.spent t member newest).trans same.symm
        · exact taken.symm
  | pass ms => exact ⟨h.next_pos, h.checks, h.replies, h.slot, h.log, h.earlier, h.spent⟩

theorem numbered_start : Numbered start := by
  refine ⟨zero_lt_one, fun c member => ?_, fun r member => ?_, zero_lt_one, .inr rfl,
    fun t member => ?_, fun t member => ?_⟩
  · rw [start, Outbound.start, Channel.history_empty] at member
    cases member
  all_goals cases member

/-! ## Own labels -/

/-- A take finds the labels in order exactly if the one that waits is that of the cutscene. -/
theorem own_take_iff {s : State} (h : Numbered s) :
    Own (step s .take) ↔ Own s ∧ (s.Waiting → s.pendingMoonLabel.publishedSeq = s.cutscene) := by
  by_cases waiting : s.Waiting
  · obtain ⟨last, length⟩ := h.last waiting.1
    rw [step_take_waiting waiting]
    constructor
    · rintro ⟨own, once⟩
      refine ⟨⟨fun t member => own t (List.mem_append_left _ member), ?_⟩, fun _ => ?_⟩
      · rw [List.map_append] at once
        exact once.of_append_left
      · obtain ⟨label, here, -, seq, -⟩ := own _ (List.mem_append_right _ (List.mem_singleton_self _))
        have same : label = s.pendingMoonLabel := Option.some.inj (here.symm.trans last)
        rw [← same]
        exact seq
    · rintro ⟨⟨own, once⟩, current⟩
      constructor
      · intro t member
        rcases List.mem_append.1 member with before | new
        · exact own t before
        · rw [List.mem_singleton.1 new]
          exact ⟨s.pendingMoonLabel, last, rfl, current waiting, waiting.2.2⟩
      · rw [List.map_append, List.map_singleton, List.nodup_append]
        refine ⟨once, List.nodup_singleton _, fun n member n' newest same => ?_⟩
        obtain ⟨t, taken, rfl⟩ := List.mem_map.1 member
        have again : t.publication = s.published.length - 1 :=
          same.trans (List.mem_singleton.1 newest)
        exact waiting.2.1 (h.spent t taken (by rw [again, length]))
  · obtain ⟨seq, shape, -⟩ := step_take_idle waiting
    rw [shape]
    constructor
    · exact fun own => ⟨⟨own.own, own.once⟩, fun h => absurd h waiting⟩
    · exact fun own => ⟨own.1.own, own.1.once⟩

theorem Own.publish {s : State} (own : Own s) (text : List UInt8) (seq deadlineMs : ℤ) :
    Own (setPendingMoonLabel text seq deadlineMs s) := by
  unfold setPendingMoonLabel
  split_ifs with unnumbered
  · exact own
  · refine ⟨fun t member => ?_, own.once⟩
    obtain ⟨label, here, rest⟩ := own.own t member
    obtain ⟨lt, -⟩ := List.getElem?_eq_some_iff.1 here
    exact ⟨label, (List.getElem?_append_left lt).trans here, rest⟩

/-- What was taken stays in order under every step but a take. -/
theorem own_step {s : State} (own : Own s) {e : Event} (other : e ≠ .take) : Own (step s e) := by
  cases e with
  | outbound e => exact ⟨own.own, own.once⟩
  | blocked =>
      have numbered : Own
          { s with outbound := { s.outbound with nextCheckSeq := s.outbound.nextCheckSeq + 1 } } :=
        ⟨own.own, own.once⟩
      exact numbered.publish _ _ _
  | dispatchCheck sent label => exact ⟨own.own, own.once⟩
  | handleLine reply =>
      rw [MoonLabels.step]
      cases s.replies[reply]? with
      | none => exact own
      | some r =>
          have fewer : Own { s with replies := s.replies.eraseIdx reply } := ⟨own.own, own.once⟩
          exact fewer.publish _ _ _
  | take => exact absurd rfl other
  | pass ms => exact ⟨own.own, own.once⟩

/-- The label that waits, if one does, is that of the cutscene. -/
def State.Current (s : State) : Prop := s.Waiting → s.pendingMoonLabel.publishedSeq = s.cutscene

/-- A reply waits once it is published, unless its number was the last one taken. -/
theorem waiting_handleMoonLabel {s : State} {r : MoonLabel} (pos : 0 < r.seq) :
    (handleMoonLabel r s).Waiting ↔ r.seq ≠ s.labelLastConsumedSeq := by
  rw [handleMoonLabel, setPendingMoonLabel_pos pos]
  constructor
  · exact fun waiting => waiting.2.1
  · intro fresh
    refine ⟨pos.ne', fresh, ?_⟩
    dsimp only
    split_ifs with valid
    · exact .inr (le_add_of_nonneg_right valid.le)
    · exact .inl rfl

theorem current_step {s : State} (h : Numbered s) (current : s.Current) (e : Event) :
    (step s e).Current ∧ NewestStays s e ↔ OnTime s e := by
  have quiet {e : Event} (none : arriving s e = none) : NewestStays s e := by
    intro r here
    rw [none] at here
    cases here
  have easy {e : Event} (none : arriving s e = none) (idle : collects e = false)
      (kept : (step s e).Current) : (step s e).Current ∧ NewestStays s e ↔ OnTime s e := by
    refine iff_of_true ⟨kept, quiet none⟩ ⟨fun collecting => ?_, fun r here => ?_⟩
    · rw [idle] at collecting
      cases collecting
    · rw [none] at here
      cases here
  cases e with
  | outbound e =>
      have next := nextCheckSeq_step s.outbound e
      cases collecting : collects (.outbound e) with
      | false =>
          refine easy rfl collecting fun waiting => (current waiting).trans ?_
          rw [collecting, if_neg Bool.false_ne_true, add_zero] at next
          exact congrArg (· - 1) next.symm
      | true =>
          rw [collecting, if_pos rfl] at next
          have newer : s.pendingMoonLabel.publishedSeq ≠ (step s (.outbound e)).cutscene := by
            change _ ≠ (Outbound.step s.outbound e).nextCheckSeq - 1
            rw [next, add_sub_cancel_right]
            exact h.slot.ne
          constructor
          · rintro ⟨kept, -⟩
            exact ⟨fun _ waiting => newer (kept waiting), fun r here => by cases here⟩
          · rintro ⟨none, -⟩
            exact ⟨fun waiting => absurd waiting (none collecting), quiet rfl⟩
  | blocked =>
      refine easy rfl rfl fun _ => ?_
      rw [MoonLabels.step, setPendingMoonLabel_pos h.next_pos]
      exact (add_sub_cancel_right _ _).symm
  | dispatchCheck sent label => exact easy rfl rfl current
  | handleLine reply =>
      cases there : s.replies[reply]? with
      | none =>
          refine easy there rfl ?_
          rw [MoonLabels.step, there]
          exact current
      | some r =>
          obtain ⟨pos, lt⟩ := h.replies r (List.mem_of_getElem? there)
          have shape : step s (.handleLine reply) =
              handleMoonLabel r { s with replies := s.replies.eraseIdx reply } := by
            rw [MoonLabels.step, there]
            rfl
          have waits : (step s (.handleLine reply)).Current ↔
              (r.seq ≠ s.labelLastConsumedSeq → r.seq = s.cutscene) := by
            rw [State.Current, shape, waiting_handleMoonLabel pos, handleMoonLabel,
              setPendingMoonLabel_pos pos]
            exact Iff.rfl
          have slot : s.pendingMoonLabel.publishedSeq ≤ s.cutscene := Int.le_sub_one_of_lt h.slot
          rw [waits]
          constructor
          · rintro ⟨kept, stays⟩
            refine ⟨fun collecting => Bool.noConfusion collecting, fun r' here => ?_⟩
            obtain rfl : r = r' := Option.some.inj (there.symm.trans here)
            by_cases again : r.seq = s.labelLastConsumedSeq
            · exact .inr ⟨again, stays r here⟩
            · exact .inl (kept again)
          · rintro ⟨-, onTime⟩
            rcases onTime r there with newest | ⟨again, stays⟩
            · refine ⟨fun _ => newest, fun r' here => ?_⟩
              obtain rfl : r = r' := Option.some.inj (there.symm.trans here)
              rw [newest]
              exact slot
            · refine ⟨fun fresh => absurd again fresh, fun r' here => ?_⟩
              obtain rfl : r = r' := Option.some.inj (there.symm.trans here)
              exact stays
  | take => exact easy rfl rfl fun waiting => absurd waiting (not_waiting_take s)
  | pass ms =>
      refine easy rfl rfl fun waiting => current ⟨waiting.1, waiting.2.1, waiting.2.2.imp id ?_⟩
      exact (le_add_of_nonneg_right (Int.natCast_nonneg ms)).trans

/-- The labels are those of their cutscenes exactly in the runs in which every reply comes on time
and no moon is collected while a label waits. -/
theorem labelsOwn_iff (events : List Event) : LabelsOwn events ↔ Along step OnTime start events := by
  apply throughout_along_iff (J := Numbered) (fun s e h => h.step e)
  · intro s e h own
    obtain ⟨before, current⟩ := (own_take_iff h).1 own
    rw [own_take_iff (h.step e), and_assoc]
    have after : Own (step s e) := by
      by_cases taking : e = .take
      · rw [taking]
        exact own
      · exact own_step before taking
    rw [and_iff_right after]
    exact current_step h current e
  · exact numbered_start
  · apply (own_take_iff numbered_start).2
    constructor
    · exact ⟨fun t member => absurd member List.not_mem_nil, List.nodup_nil⟩
    · exact fun waiting => absurd rfl waiting.1

/-- A moon is collected, and its label arrives when Talkatoo has blocked the next one. -/
def overtaken : List Event :=
  [.outbound .connect, .outbound (.reportMoonChecked [] [] 1), .outbound (.send true),
    .dispatchCheck 0 (some (CStr.ofBytes [71])), .blocked, .handleLine 0]

/-- The cutscene of the blocked moon takes the label of the other one. -/
theorem overtaken_label_taken : ¬ LabelsOwn overtaken := by
  rintro ⟨throughout, -⟩
  have own := (throughout_end throughout).own
  generalize last : step (run step start overtaken) .take = s at own
  have taken : s.taken.map (fun t => (t.publication, t.cutscene)) = [(1, 2)] := by
    rw [← last]
    decide +kernel
  have published : s.published.map PendingMoonLabel.publishedSeq = [2, 1] := by
    rw [← last]
    decide +kernel
  obtain ⟨t, member, pair⟩ : ∃ t ∈ s.taken, (t.publication, t.cutscene) = (1, 2) := by
    rw [← List.mem_map, taken]
    exact List.mem_singleton_self _
  obtain ⟨publication, cutscene⟩ := Prod.mk.inj pair
  obtain ⟨label, here, -, seq, -⟩ := own t member
  have first : (s.published.map PendingMoonLabel.publishedSeq)[t.publication]? = some 1 := by
    rw [published, publication]
    rfl
  rw [List.getElem?_map, here, Option.map_some, seq, cutscene] at first
  exact absurd (Option.some.inj first) (by decide)

end SmoArchipelago.Switch.MoonLabels
