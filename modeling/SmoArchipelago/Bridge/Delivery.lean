import SmoArchipelago.Bridge.EventLoop

/-! # Delivery of the item history

The server sends its history in slices and may at any time send it again from the
start. Each packet becomes a handler task, and the tasks interleave at their awaits.

## Implementation notes

`claimed` lists the positions that are mirrored and those that waiting handlers still
owe; a resumption only moves a position from the second part to the first. So whether a
position is mirrored twice is decided when a handler starts. -/

namespace SmoArchipelago.Bridge

open Library Runs
open scoped List

/-- The event loop, with how far the history was sent and how far the slices reach whose
handlers have started. -/
structure Delivery where
  loop : Loop
  delivered : ℕ := 0
  started : ℕ := 0

namespace Delivery

inductive Event where
  /-- The next `n` entries of the history. -/
  | deliver (n : ℕ)
  /-- The whole history, with `n` further entries. -/
  | resend (n : ℕ)
  | start (disk : Disk)
  | resume (k : ℕ)

variable (H : List NetworkItem)

/-- The packet with the entries from `index` up to `upTo`. -/
def sendSlice (s : Delivery) (index upTo : ℕ) : Delivery :=
  { s with
    loop := s.loop.step (.packet (.receivedItems index ((H.take upTo).drop index)))
    delivered := upTo }

def step (s : Delivery) : Event → Delivery
  | .deliver n => s.sendSlice H s.delivered (min (s.delivered + n) H.length)
  | .resend n => s.sendSlice H 0 (min (s.delivered + n) H.length)
  | .start disk =>
      { s with
        loop := s.loop.step (.start disk)
        started := match s.loop.ready with
          | .receivedItems index items :: _ => index + items.length
          | _ => s.started }
  | .resume k => { s with loop := s.loop.step (.resume k) }

/-- A handler may start when its slice is new, or when all that was sent before it is in
the mirror. -/
def SafePacket (s : Delivery) : Packet → Prop
  | .receivedItems index _ =>
      index = s.started ∨ s.loop.mirror.state.receivedItems.length = s.started
  | _ => True

instance (s : Delivery) : ∀ p, Decidable (s.SafePacket p)
  | .receivedItems _ _ => inferInstanceAs (Decidable (_ ∨ _))
  | .connected _ | .roomInfo _ => isTrue trivial

def SafeStart (s : Delivery) : Event → Prop
  | .start _ => ∀ p ∈ s.loop.ready.head?, s.SafePacket p
  | _ => True

instance (s : Delivery) : ∀ e, Decidable (s.SafeStart e)
  | .start _ => inferInstanceAs (Decidable (∀ p ∈ s.loop.ready.head?, s.SafePacket p))
  | .deliver _ | .resend _ | .resume _ => isTrue trivial

/-- The packets that wait to be started take up the history where the started ones end:
each begins there or at the start of the history. A Connected packet comes first. -/
def Chain : ℕ → List Packet → ℕ → Prop
  | a, [], b => a = b
  | a, .receivedItems index items :: ps, b =>
      (index = a ∨ index = 0) ∧ a ≤ index + items.length ∧ items <+: H.drop index ∧
        Chain (index + items.length) ps b
  | a, .connected _ :: ps, b => a = 0 ∧ Chain a ps b
  | a, .roomInfo _ :: ps, b => Chain a ps b

theorem chain_append {a b c : ℕ} {ps : List Packet} {index : ℕ} {items : List NetworkItem}
    (h : Chain H a ps b) (next : index = b ∨ index = 0) (grows : b ≤ index + items.length)
    (slice : items <+: H.drop index) (upTo : index + items.length = c) :
    Chain H a (ps ++ [.receivedItems index items]) c := by
  induction ps generalizing a with
  | nil =>
      cases h
      exact ⟨next, grows, slice, upTo⟩
  | cons p ps ih =>
      cases p with
      | receivedItems i is => exact ⟨h.1, h.2.1, h.2.2.1, ih h.2.2.2⟩
      | connected sd => exact ⟨h.1, ih h.2⟩
      | roomInfo seed => exact ih h

/-- The positions that are mirrored or still owed. -/
def claimed (s : Delivery) : List ℕ := s.loop.total Mirror.positions Handler.owed

/-- What holds in every run, however the handlers interleave. -/
structure Sent (s : Delivery) : Prop where
  bound : s.delivered ≤ H.length
  chain : Chain H s.started s.loop.ready s.delivered
  slices : ∀ h ∈ s.loop.handlers, h.Slice H
  length : s.loop.mirror.state.receivedItems.length = s.loop.mirror.positions.length
  fresh : s.started = 0 → s.claimed = []

theorem sent_start (ctx : Context) : Sent H { loop := { ctx } } :=
  ⟨Nat.zero_le _, rfl, fun _ h => absurd h List.not_mem_nil, rfl, fun _ => rfl⟩

theorem mem_handlers_append {s : Loop} {h : Handler} {ts : List Task} {o : Option Handler}
    (hs : s.suspended = ts ++ o.toList.map .received) (member : h ∈ s.handlers) :
    h ∈ ts.filterMap Task.handler ∨ h ∈ o := by
  rw [Loop.handlers, hs, List.filterMap_append, Loop.filterMap_received] at member
  exact (List.mem_append.1 member).imp id Option.mem_toList.1

variable {H}

theorem claimed_startReceived {s : Delivery} (disk : Disk) {index : ℕ}
    {items : List NetworkItem} {ps : List Packet}
    (h : s.loop.ready = .receivedItems index items :: ps) :
    (s.step H (.start disk)).claimed ~
      s.claimed ++ owedPositions s.loop.mirror.state.receivedItems.length index items :=
  Loop.total_start disk h (processItems_positions _ _ _ _)

theorem claimed_resume (s : Delivery) (k : ℕ) : (s.step H (.resume k)).claimed ~ s.claimed := by
  cases hk : s.loop.suspended[k]? with
  | none =>
      simp only [step, claimed, Loop.step_resume_none hk]
      exact List.Perm.refl _
  | some t =>
      cases t with
      | received h =>
          have segment := resumeReceived_positions s.loop.ctx s.loop.mirror h
          rw [← List.append_nil (s.loop.mirror.positions ++ h.owed)] at segment
          have moved := Loop.total_resume hk segment
          rw [List.append_nil] at moved
          exact moved
      | connected t =>
          have same := Loop.handlers_resume_connected hk
          have mirror : (s.loop.step (.resume k)).mirror = s.loop.mirror := by
            rw [Loop.step_resume_connected hk]
          simp only [step, claimed, Loop.total, mirror]
          exact (same.flatMap_right _).append_left _

theorem slice_length {index upTo : ℕ} (bound : upTo ≤ H.length) (le : index ≤ upTo) :
    index + ((H.take upTo).drop index).length = upTo := by
  rw [List.length_drop, List.length_take, Nat.min_eq_left bound]
  omega

theorem sent_sendSlice {s : Delivery} (h : Sent H s) {index upTo : ℕ}
    (next : index = s.delivered ∨ index = 0) (grows : s.delivered ≤ upTo)
    (bound : upTo ≤ H.length) : Sent H (s.sendSlice H index upTo) := by
  have le : index ≤ upTo := by
    rcases next with rfl | rfl
    · exact grows
    · exact Nat.zero_le _
  have reaches := slice_length bound le
  constructor
  · exact bound
  · apply chain_append H h.chain next
    · rw [reaches]
      exact grows
    · exact (List.take_prefix upTo H).drop index
    · exact reaches
  · exact h.slices
  · exact h.length
  · exact h.fresh

/-- Whatever is read off the items, the mirror's events and positions agree on it after
a start as before. -/
theorem startReceived_sent {s : Delivery} (h : Sent H s) {disk : Disk} {index : ℕ}
    {items : List NetworkItem} {ps : List Packet}
    (hready : s.loop.ready = .receivedItems index items :: ps) :
    Sent H (s.step H (.start disk)) := by
  have chain := h.chain
  rw [hready] at chain
  obtain ⟨-, grows, slice, rest⟩ := chain
  have started : (s.step H (.start disk)).started = index + items.length := by
    simp only [step, hready]
  have loop := Loop.step_start_received disk hready
  have segment := processItems_follows s.loop.ctx (f := fun _ => ()) (g := fun _ => ())
    (fun _ _ _ _ _ => rfl) (m := s.loop.mirror) (by simp [Mirror.Follows, h.length])
    (l := { initialMirrorLen := s.loop.mirror.state.receivedItems.length, pos := index }) slice
  constructor
  · exact h.bound
  · rw [started]
    simp only [step, loop]
    exact rest
  · intro r member
    simp only [step, loop] at member
    rcases mem_handlers_append rfl member with old | new
    · exact h.slices r old
    · exact segment.2 r new
  · have lengths := congrArg List.length segment.1
    simp only [List.length_map] at lengths
    simp only [step, loop]
    exact lengths
  · intro zero
    rw [started] at zero
    have none : items = [] := List.eq_nil_of_length_eq_zero (by omega)
    have claims := claimed_startReceived (H := H) disk hready
    rw [h.fresh (by omega), none, owedPositions, List.append_nil] at claims
    exact List.perm_nil.1 claims

theorem startConnected_sent {s : Delivery} (h : Sent H s) (disk : Disk) {sd : SlotData}
    {ps : List Packet} (hready : s.loop.ready = .connected sd :: ps) :
    Sent H (s.step H (.start disk)) := by
  have chain := h.chain
  rw [hready] at chain
  have started : (s.step H (.start disk)).started = s.started := by simp only [step, hready]
  have loop := Loop.step_start_connected disk hready
  have handlers : (s.step H (.start disk)).loop.handlers = s.loop.handlers := by
    simp [step, loop, Loop.handlers, Task.handler]
  have history := startConnected_history disk sd s.loop.ctx s.loop.mirror
  constructor
  · exact h.bound
  · rw [started]
    simp only [step, loop]
    exact chain.2
  · rw [handlers]
    exact h.slices
  · simp only [step, loop, Mirror.positions]
    rcases history with ⟨calls, items⟩ | ⟨calls, items⟩
    · rw [calls, items]
      exact h.length
    · rw [calls, items]
      rfl
  · intro _
    have nothing := List.append_eq_nil_iff.1 (h.fresh chain.1)
    apply List.append_eq_nil_iff.2
    constructor
    · simp only [step, loop, Mirror.positions]
      rcases history with ⟨calls, -⟩ | ⟨calls, -⟩
      · rw [calls]
        exact nothing.1
      · rw [calls]
        rfl
    · rw [handlers]
      exact nothing.2

theorem sent_resume {s : Delivery} (h : Sent H s) (k : ℕ) : Sent H (s.step H (.resume k)) := by
  have claims := claimed_resume (H := H) s k
  cases hk : s.loop.suspended[k]? with
  | none =>
      have same : s.step H (.resume k) = s := by simp only [step, Loop.step_resume_none hk]
      rw [same]
      exact h
  | some t =>
      have erased : (s.loop.suspended.eraseIdx k).filterMap Task.handler ⊆ s.loop.handlers :=
        ((List.eraseIdx_sublist _ k).filterMap Task.handler).subset
      cases t with
      | received r =>
          have loop := Loop.step_resume_received hk
          have here : r ∈ s.loop.handlers :=
            (Loop.handlers_perm hk).mem_iff.2 (List.mem_append_left _ (List.mem_singleton.2 rfl))
          have segment := resumeReceived_follows s.loop.ctx (f := fun _ => ())
            (g := fun _ => ()) (fun _ _ _ _ _ => rfl) (m := s.loop.mirror)
            (by simp [Mirror.Follows, h.length]) (h.slices r here)
          constructor
          · exact h.bound
          · simp only [step, loop]
            exact h.chain
          · intro r' member
            simp only [step, loop] at member
            rcases mem_handlers_append rfl member with old | new
            · exact h.slices r' (erased old)
            · exact segment.2 r' new
          · have lengths := congrArg List.length segment.1
            simp only [List.length_map] at lengths
            simp only [step, loop]
            exact lengths
          · intro zero
            rw [h.fresh zero] at claims
            exact List.perm_nil.1 claims
      | connected t =>
          have loop := Loop.step_resume_connected hk
          constructor
          · exact h.bound
          · simp only [step, loop]
            exact h.chain
          · intro r' member
            exact h.slices r' ((Loop.handlers_resume_connected hk).mem_iff.1 member)
          · simp only [step, loop]
            exact h.length
          · intro zero
            rw [h.fresh zero] at claims
            exact List.perm_nil.1 claims

theorem sent_step (s : Delivery) (e : Event) (h : Sent H s) : Sent H (s.step H e) := by
  cases e with
  | deliver n =>
      have bound := h.bound
      exact sent_sendSlice h (.inl rfl) (by omega) (Nat.min_le_right _ _)
  | resend n =>
      have bound := h.bound
      exact sent_sendSlice h (.inr rfl) (by omega) (Nat.min_le_right _ _)
  | start disk =>
      cases hready : s.loop.ready with
      | nil =>
          have same : s.step H (.start disk) = s := by
            simp only [step, Loop.step_start_nil hready, hready]
          rw [same]
          exact h
      | cons p ps =>
          cases p with
          | receivedItems index items => exact startReceived_sent h hready
          | connected sd => exact startConnected_sent h disk hready
          | roomInfo seed =>
              have chain := h.chain
              rw [hready] at chain
              obtain ⟨-, ready, suspended, calls, items⟩ :=
                Loop.step_start_roomInfo disk hready
              have started : (s.step H (.start disk)).started = s.started := by
                simp only [step, hready]
              constructor
              · exact h.bound
              · rw [started]
                simp only [step, ready]
                exact chain
              · simp only [step, Loop.handlers, suspended]
                exact h.slices
              · simp only [step, Mirror.positions, calls, items]
                exact h.length
              · rw [started]
                simp only [step, claimed, Loop.total, Mirror.positions, calls, Loop.handlers,
                  suspended]
                exact h.fresh
  | resume k => exact sent_resume h k

/-- Only the start of a received-items handler claims positions. -/
theorem claimed_step {s : Delivery} (h : Sent H s) (e : Event) :
    ((s.step H e).claimed ~ s.claimed ∧ (s.step H e).started = s.started) ∨
      ∃ disk index items ps, e = .start disk ∧
        s.loop.ready = .receivedItems index items :: ps := by
  cases e with
  | deliver n => exact .inl ⟨List.Perm.refl _, rfl⟩
  | resend n => exact .inl ⟨List.Perm.refl _, rfl⟩
  | resume k => exact .inl ⟨claimed_resume s k, rfl⟩
  | start disk =>
      cases hready : s.loop.ready with
      | nil =>
          left
          have same : s.step H (.start disk) = s := by
            simp only [step, Loop.step_start_nil hready, hready]
          rw [same]
          exact ⟨List.Perm.refl _, rfl⟩
      | cons p ps =>
          cases p with
          | receivedItems index items => exact .inr ⟨disk, index, items, ps, rfl, rfl⟩
          | connected sd =>
              left
              have chain := h.chain
              rw [hready] at chain
              have started : (s.step H (.start disk)).started = s.started := by
                simp only [step, hready]
              refine ⟨?_, started⟩
              rw [(startConnected_sent h disk hready).fresh (by rw [started, chain.1]), h.fresh chain.1]
          | roomInfo seed =>
              left
              obtain ⟨-, -, suspended, calls, -⟩ := Loop.step_start_roomInfo disk hready
              refine ⟨?_, by simp only [step, hready]⟩
              simp only [step, claimed, Loop.total, Mirror.positions, calls, Loop.handlers, suspended]
              exact List.Perm.refl _

/-- Of entries with ids, a handler owes those at or beyond its mirror length. -/
theorem owedPositions_eq {L pos : ℕ} {items : List NetworkItem}
    (ids : ∀ ni ∈ items, ni.item.isSome) :
    owedPositions L pos items = List.range' (max L pos) (pos + items.length - max L pos) := by
  induction items generalizing pos with
  | nil =>
      have none : pos + 0 - max L pos = 0 := by omega
      rw [owedPositions, List.length_nil, none, List.range'_zero]
  | cons ni rest ih =>
      have later : owedPositions L (pos + 1) rest = _ :=
        ih fun n member => ids n (List.mem_cons_of_mem ni member)
      have present := ids ni List.mem_cons_self
      rw [owedPositions, later, List.length_cons]
      by_cases fresh : L ≤ pos
      · rw [if_pos ⟨present, fresh⟩, Nat.max_eq_right fresh, Nat.max_eq_right (by omega)]
        have size : pos + (rest.length + 1) - pos = pos + 1 + rest.length - (pos + 1) + 1 := by
          omega
        rw [size, List.range'_succ]
      · rw [if_neg fun h => fresh h.2, Nat.max_eq_left (by omega : pos ≤ L),
          Nat.max_eq_left (by omega : pos + 1 ≤ L)]
        congr 1
        omega

/-- Every position of the started slices is claimed exactly once. -/
def ClaimedOnce (s : Delivery) : Prop := s.claimed ~ List.range s.started

theorem mirror_le_started {s : Delivery} (h : Sent H s) (once : s.ClaimedOnce) :
    s.loop.mirror.state.receivedItems.length ≤ s.started := by
  have size := once.length_eq
  simp only [claimed, Loop.total, List.length_append, List.length_range] at size
  have same := h.length
  omega

theorem range_append {a b : ℕ} (h : a ≤ b) : List.range a ++ List.range' a (b - a) = List.range b := by
  have whole := List.range'_append_1 (s := 0) (m := a) (n := b - a)
  rw [Nat.zero_add, Nat.add_sub_cancel' h] at whole
  rw [List.range_eq_range', List.range_eq_range', whole]

variable (ids : ∀ ni ∈ H, ni.item.isSome)

include ids

/-- What a starting handler adds to the claims of a run that has claimed exactly once. -/
theorem claimed_received {s : Delivery} (h : Sent H s) (once : s.ClaimedOnce) (disk : Disk)
    {index : ℕ} {items : List NetworkItem} {ps : List Packet}
    (hready : s.loop.ready = .receivedItems index items :: ps) :
    (s.step H (.start disk)).claimed ~ List.range s.started ++
      List.range' (max s.loop.mirror.state.receivedItems.length index)
        (index + items.length - max s.loop.mirror.state.receivedItems.length index) := by
  have chain := h.chain
  rw [hready] at chain
  have present : ∀ ni ∈ items, ni.item.isSome := fun ni member =>
    ids ni (List.drop_subset _ _ (chain.2.2.1.subset member))
  have claims := claimed_startReceived (H := H) disk hready
  rw [owedPositions_eq present] at claims
  exact claims.trans (once.append_right _)

theorem claimedOnce_keep {s : Delivery} (h : Sent H s) (once : s.ClaimedOnce) (e : Event)
    (safe : s.SafeStart e) : (s.step H e).ClaimedOnce := by
  rcases claimed_step h e with ⟨same, started⟩ | ⟨disk, index, items, ps, rfl, hready⟩
  · rw [ClaimedOnce, started]
    exact same.trans once
  · have claims := claimed_received ids h once disk hready
    have le := mirror_le_started h once
    have safe : index = s.started ∨ s.loop.mirror.state.receivedItems.length = s.started :=
      safe (.receivedItems index items) (by simp [hready])
    have chain := h.chain
    rw [hready] at chain
    have started : (s.step H (.start disk)).started = index + items.length := by
      simp only [step, hready]
    have first : max s.loop.mirror.state.receivedItems.length index = s.started := by
      rcases safe with here | full <;> rcases chain.1 with next | whole <;> omega
    rw [first, range_append chain.2.1] at claims
    rw [ClaimedOnce, started]
    exact claims

/-- An unsafe start claims a position a second time. -/
theorem claimedOnce_spoil {s : Delivery} (h : Sent H s) (once : s.ClaimedOnce) (e : Event)
    (bad_start : ¬ s.SafeStart e) : ¬ (s.step H e).claimed.Nodup := by
  cases e with
  | deliver n => exact absurd trivial bad_start
  | resend n => exact absurd trivial bad_start
  | resume k => exact absurd trivial bad_start
  | start disk =>
      cases hready : s.loop.ready with
      | nil => exact absurd (fun p hp => by simp [hready] at hp) bad_start
      | cons p ps =>
          cases p with
          | connected sd =>
              refine absurd (fun p hp => ?_) bad_start
              rw [hready] at hp
              cases hp
              trivial
          | roomInfo seed =>
              refine absurd (fun p hp => ?_) bad_start
              rw [hready] at hp
              cases hp
              trivial
          | receivedItems index items =>
              have claims := claimed_received ids h once disk hready
              have le := mirror_le_started h once
              have chain := h.chain
              rw [hready] at chain
              have bad : ¬ (index = s.started ∨
                  s.loop.mirror.state.receivedItems.length = s.started) := by
                intro good
                refine bad_start fun p hp => ?_
                rw [hready] at hp
                cases hp
                exact good
              have grows := chain.2.1
              have whole : index = 0 := chain.1.resolve_left fun here => bad (.inl here)
              intro nodup
              have both := (claims.nodup_iff.1 nodup)
              have apart := (List.nodup_append.1 both).2.2
              apply apart s.loop.mirror.state.receivedItems.length _
                s.loop.mirror.state.receivedItems.length _ rfl
              · exact List.mem_range.2 (by omega)
              · apply List.mem_range'_1.2
                omega

omit ids

/-- What was claimed twice stays claimed twice. -/
theorem spoiled_stays {s : Delivery} (h : Sent H s) (e : Event) (twice : ¬ s.claimed.Nodup) :
    ¬ (s.step H e).claimed.Nodup := by
  rcases claimed_step h e with ⟨same, -⟩ | ⟨disk, index, items, ps, rfl, hready⟩
  · rw [same.nodup_iff]
    exact twice
  · rw [(claimed_startReceived disk hready).nodup_iff]
    exact fun both => twice (List.nodup_append.1 both).1

include ids

/-- The started slices are claimed exactly once if and only if every start was safe. -/
theorem claimedOnce_iff (ctx : Context) (events : List Event) :
    (run (step H) { loop := { ctx } } events).ClaimedOnce ↔
      Along (step H) SafeStart { loop := { ctx } } events := by
  apply end_iff_along (J := Sent H) (K := fun s => ¬ s.claimed.Nodup)
  · exact fun s e h => sent_step s e h
  · exact fun s e h once safe => claimedOnce_keep ids h once e safe
  · exact fun s e h once bad => claimedOnce_spoil ids h once e bad
  · exact fun s e h twice => spoiled_stays h e twice
  · exact fun s _ once twice => twice (once.nodup_iff.2 List.nodup_range)
  · exact sent_start H ctx
  · exact List.Perm.refl _

end Delivery

end SmoArchipelago.Bridge
