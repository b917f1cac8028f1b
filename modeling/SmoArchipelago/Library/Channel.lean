import SmoArchipelago.Library.RingBuffer

/-! # A ring whose consumer looks before it takes

The consumer reads the front entry, acts on it, and only then discards it, so the
producer may push in between. The channel logs what was consumed; its history is
that log followed by what is still waiting. -/

namespace SmoArchipelago.Library

/-- A ring, whether the front was consumed and awaits its discard, and the log. -/
structure Channel (α : Type*) (n : ℕ) where
  ring : RingBuffer α n
  discardDue : Bool
  consumed : List α
  due : discardDue = true → ring.toList ≠ []

namespace Channel

variable {α : Type*} {n : ℕ}

/-- A channel nothing went through. -/
def empty (n : ℕ) [NeZero n] (fill : α) : Channel α n where
  ring := RingBuffer.empty n fill
  discardDue := false
  consumed := []
  due h := absurd h Bool.false_ne_true

/-- The entries not yet consumed. -/
def waiting (c : Channel α n) : List α :=
  if c.discardDue then c.ring.toList.tail else c.ring.toList

/-- All entries the channel took in, in order. -/
def history (c : Channel α n) : List α := c.consumed ++ c.waiting

/-- Push without looking at the result. -/
def offer (c : Channel α n) (v : α) : Channel α n where
  ring := (c.ring.push v).getD c.ring
  discardDue := c.discardDue
  consumed := c.consumed
  due h := by
    rw [RingBuffer.toList_push_getD]
    split_ifs
    · exact List.append_ne_nil_of_left_ne_nil (c.due h) _
    · exact c.due h

/-- Consume the front entry; its discard is then due. -/
def take (c : Channel α n) : Channel α n :=
  if idle : c.discardDue = true then c
  else
    match front : c.ring.peek with
    | none => c
    | some v =>
        { ring := c.ring
          discardDue := true
          consumed := c.consumed ++ [v]
          due := fun _ none_left => by
            rw [RingBuffer.peek_eq, none_left] at front
            cases front }

/-- Discard the entry that was consumed. -/
def discard (c : Channel α n) : Channel α n :=
  if c.discardDue then
    { ring := c.ring.popDiscard
      discardDue := false
      consumed := c.consumed
      due := fun h => absurd h Bool.false_ne_true }
  else c

/-- Drop what waits and start a new log. -/
def restart (c : Channel α n) : Channel α n where
  ring := c.ring.drain
  discardDue := false
  consumed := []
  due h := absurd h Bool.false_ne_true

@[simp] theorem consumed_offer (c : Channel α n) (v : α) : (c.offer v).consumed = c.consumed := rfl

@[simp] theorem consumed_discard (c : Channel α n) : c.discard.consumed = c.consumed := by
  unfold discard
  split_ifs <;> rfl

theorem waiting_offer (c : Channel α n) (v : α) :
    (c.offer v).waiting = c.waiting ++ if c.ring.HasRoom then [v] else [] := by
  simp only [waiting, offer, RingBuffer.toList_push_getD]
  split_ifs with due room
  · exact List.tail_append_of_ne_nil (c.due due)
  · exact (List.append_nil _).symm
  · rfl
  · exact (List.append_nil _).symm

/-- An offer is taken in when the ring has room, and is gone when it has none. -/
theorem history_offer (c : Channel α n) (v : α) :
    (c.offer v).history = c.history ++ if c.ring.HasRoom then [v] else [] := by
  rw [history, consumed_offer, waiting_offer, history, List.append_assoc]

/-- The front entry of an idle channel. -/
theorem waiting_eq_of_peek {c : Channel α n} (idle : c.discardDue = false) {v : α}
    (front : c.ring.peek = some v) : c.waiting = v :: c.ring.toList.tail := by
  rw [RingBuffer.peek_eq, List.head?_eq_some_iff] at front
  obtain ⟨rest, queue⟩ := front
  simp [waiting, idle, queue]

/-- Taking moves the front entry to the log. -/
theorem take_eq {c : Channel α n} (idle : c.discardDue = false) {v : α}
    (front : c.ring.peek = some v) :
    c.take.consumed = c.consumed ++ [v] ∧ c.take.waiting = c.ring.toList.tail ∧
      c.take.discardDue = true := by
  have not_due : ¬ c.discardDue = true := by rw [idle]; exact Bool.false_ne_true
  unfold take
  rw [dif_neg not_due]
  split
  · rename_i blank
    rw [front] at blank
    cases blank
  · rename_i w found
    obtain rfl : v = w := Option.some.inj (front.symm.trans found)
    exact ⟨rfl, if_pos rfl, rfl⟩

/-- Taking loses and adds nothing. -/
@[simp] theorem history_take (c : Channel α n) : c.take.history = c.history := by
  cases idle : c.discardDue with
  | true => simp [take, idle]
  | false =>
      cases front : c.ring.peek with
      | none =>
          have same : c.take = c := by
            unfold take
            split_ifs
            · rfl
            · split
              · rfl
              · rename_i found
                rw [front] at found
                cases found
          rw [same]
      | some v =>
          obtain ⟨consumed, waiting, -⟩ := take_eq idle front
          rw [history, consumed, waiting, history, waiting_eq_of_peek idle front,
            List.append_assoc, List.singleton_append]

@[simp] theorem waiting_discard (c : Channel α n) : c.discard.waiting = c.waiting := by
  unfold discard
  split_ifs with due
  · obtain ⟨v, rest, queue⟩ := List.exists_cons_of_ne_nil (c.due due)
    simp [waiting, due, queue, RingBuffer.toList_popDiscard queue]
  · rfl

/-- Discarding a consumed entry loses and adds nothing. -/
@[simp] theorem history_discard (c : Channel α n) : c.discard.history = c.history := by
  rw [history, history, consumed_discard, waiting_discard]

@[simp] theorem history_empty (n : ℕ) [NeZero n] (fill : α) : (empty n fill).history = [] := by
  simp [history, waiting, empty]

@[simp] theorem history_restart (c : Channel α n) : c.restart.history = [] := by
  simp [history, waiting, restart]

/-- A channel never holds more than its ring does. -/
theorem length_waiting_lt (c : Channel α n) : c.waiting.length < n := by
  have bound := c.ring.pending_lt
  rw [← RingBuffer.length_toList] at bound
  unfold waiting
  split_ifs
  · exact Nat.lt_of_le_of_lt (List.tail_sublist _).length_le bound
  · exact bound

end Channel

end SmoArchipelago.Library
