import SmoArchipelago.Bridge.MirrorOnce

/-! # Bonus grants of the Multi-Moons

The Connected handler stores the bonus lists late; a received-items handler reads them,
and the number of copies in the mirror, after the await of its item.

## Implementation notes

A run is delivered in order and starts with the Connected packet. The invariant counts
the copies whose grants were chosen: those in the mirror less those whose handler still
waits at the item's own send. -/

namespace SmoArchipelago.Bridge.Delivery

open Library Runs
open scoped List

variable (H : List NetworkItem) (sd : SlotData)

/-- At the grants of a Mushroom Kingdom Multi-Moon the captures of the slot are stored and
no other copy waits for its own; at those of a Dark Side one its abilities are stored. -/
structure BonusReady (s : Delivery) (h : Handler) : Prop where
  captures : some mushroomMultiMoon ∈ h.sentName →
    s.loop.ctx.mmBonusCaptures = sd.mmBonusCaptures ∧
      (s.loop.handlers.flatMap Handler.sentName).count (some mushroomMultiMoon) = 1
  abilities : some darkSideMultiMoon ∈ h.sentName →
    s.loop.ctx.mmBonusAbilities = sd.mmBonusAbilities

instance (s : Delivery) (h : Handler) : Decidable (BonusReady sd s h) :=
  decidable_of_iff (_ ∧ _) ⟨fun h => ⟨h.1, h.2⟩, fun h => ⟨h.captures, h.abilities⟩⟩

def BonusSafe (s : Delivery) : Event → Prop
  | .resume k => ∀ t ∈ s.loop.suspended[k]?, ∀ h ∈ t.handler, BonusReady sd s h
  | _ => True

instance (s : Delivery) : ∀ e, Decidable (BonusSafe sd s e)
  | .resume k =>
      inferInstanceAs (Decidable (∀ t ∈ s.loop.suspended[k]?, ∀ h ∈ t.handler, BonusReady sd s h))
  | .deliver _ | .resend _ | .start _ => isTrue trivial

/-- Nothing is sent again. -/
def InOrder (_ : Delivery) : Event → Prop
  | .resend _ => False
  | _ => True

instance (s : Delivery) : ∀ e, Decidable (InOrder s e)
  | .resend _ => isFalse id
  | .deliver _ | .start _ | .resume _ => isTrue trivial

/-- The name of an entry's item. -/
def nameOf (dp : DataPackage) (ni : NetworkItem) : Option String := ni.item.map dp.itemName

/-- The copies of an item among the entries. -/
def copies (dp : DataPackage) (items : List NetworkItem) (name : String) : ℕ :=
  (items.map (nameOf dp)).count (some name)

/-- Whether the entry at a position carries an item id. -/
def hasId (p : ℕ) : Bool := (H[p]?.bind NetworkItem.item).isSome

/-- The packets that wait continue the history one after the other. -/
def Consecutive : ℕ → List Packet → ℕ → Prop
  | a, [], b => a = b
  | a, .receivedItems index items :: ps, b => index = a ∧ Consecutive (index + items.length) ps b
  | a, _ :: ps, b => Consecutive a ps b

theorem consecutive_append {a b c : ℕ} {ps : List Packet} {items : List NetworkItem}
    (h : Consecutive a ps b) (upTo : b + items.length = c) :
    Consecutive a (ps ++ [.receivedItems b items]) c := by
  induction ps generalizing a with
  | nil =>
      cases h
      exact ⟨rfl, upTo⟩
  | cons p ps ih =>
      cases p with
      | receivedItems i is => exact ⟨h.1, ih h.2⟩
      | connected sd => exact ih h
      | roomInfo seed => exact ih h

/-- For `n` copies of an item the grants were chosen: the mirror has `n` more of them than
wait for their grants. -/
def Chosen (s : Delivery) (name : String) (n : ℕ) : Prop :=
  s.loop.mirror.state.receivedItemCount name =
    n + (s.loop.handlers.flatMap Handler.sentName).count (some name)

/-- The grants made and owed are those of the copies whose grants were chosen. -/
structure Granted (s : Delivery) : Prop where
  captures : ∃ n, Chosen s mushroomMultiMoon n ∧
    s.loop.total Mirror.bonusCaptures Handler.owedCaptures ~ sd.mmBonusCaptures.take (3 * n)
  abilities : ∃ n, Chosen s darkSideMultiMoon n ∧
    s.loop.mirror.bonusAbilities ~ (List.replicate n sd.mmBonusAbilities).flatten

/-- The state of a run in order. -/
structure InOrderRun (dp : DataPackage) (s : Delivery) : Prop where
  sent : Sent H s
  dp_eq : s.loop.ctx.dp = dp
  consecutive : Consecutive s.started s.loop.ready s.delivered
  claims : s.claimed ~ (List.range s.started).filter (hasId H)
  names : s.loop.mirror.Follows (·.item.name) fun p => H[p]?.bind (nameOf dp)
  granted : Granted sd s

variable {H sd}

/-- A handler whose slice starts at or beyond its mirror length owes each entry with an
id. -/
theorem owedPositions_slice {L pos : ℕ} {items : List NetworkItem} (le : L ≤ pos)
    (slice : items <+: H.drop pos) :
    owedPositions L pos items = (List.range' pos items.length).filter (hasId H) := by
  induction items generalizing pos with
  | nil => rfl
  | cons ni rest ih =>
      have here : H[pos]? = some ni := by
        obtain ⟨more, hmore⟩ := slice
        have first := congrArg (·[0]?) hmore
        simpa using first.symm
      have later : rest <+: H.drop (pos + 1) := by
        obtain ⟨more, hmore⟩ := slice
        refine ⟨more, ?_⟩
        rw [← List.drop_drop, ← hmore]
        rfl
      have id_iff : hasId H pos = ni.item.isSome := by rw [hasId, here, Option.bind_some]
      rw [owedPositions, ih (by omega) later, List.length_cons, List.range'_succ,
        List.filter_cons, id_iff]
      by_cases present : ni.item.isSome
      · rw [if_pos ⟨present, le⟩, if_pos present]
      · rw [if_neg fun h => present h.1, if_neg present]

section Chosen

variable {s : Delivery} {disk : Disk} {ps : List Packet} {name : String} {n : ℕ}

theorem chosen_startReceived (bonus : name ∈ [mushroomMultiMoon, darkSideMultiMoon])
    {index : ℕ} {items : List NetworkItem}
    (hready : s.loop.ready = .receivedItems index items :: ps) (h : Chosen s name n) :
    Chosen (s.step H (.start disk)) name n := by
  have mirror : (s.loop.step (.start disk)).mirror =
      (startReceived s.loop.ctx s.loop.mirror index items).1 := by
    rw [Loop.step_start_received disk hready]
  have sent := Loop.flatMap_start disk hready Handler.sentName
  have more := processItems_count s.loop.ctx bonus s.loop.mirror
    { initialMirrorLen := s.loop.mirror.state.receivedItems.length, pos := index } items
  unfold Chosen at h ⊢
  simp only [step, mirror, sent, List.count_append, startReceived]
  omega

theorem chosen_resume (bonus : name ∈ [mushroomMultiMoon, darkSideMultiMoon]) {k : ℕ} {r : Handler}
    (hk : s.loop.suspended[k]? = some (.received r)) (h : Chosen s name n) :
    Chosen (s.step H (.resume k)) name (n + if some name ∈ r.sentName then 1 else 0) := by
  have mirror : (s.loop.step (.resume k)).mirror =
      (resumeReceived s.loop.ctx s.loop.mirror r).1 := by
    rw [Loop.step_resume_received hk]
  obtain ⟨left, before, after⟩ := Loop.flatMap_resume hk Handler.sentName
  have own : r.sentName.count (some name) = if some name ∈ r.sentName then 1 else 0 := by
    cases waits : r.waits <;>
      simp [Handler.sentName, waits, List.count_singleton, eq_comm (a := some name)]
  have more := resumeReceived_count s.loop.ctx bonus s.loop.mirror r
  have waiting := before.count_eq (some name)
  rw [List.count_append, own] at waiting
  unfold Chosen at h ⊢
  simp only [step, mirror, after, List.count_append]
  omega

end Chosen

theorem granted_startReceived {s : Delivery} (h : Granted sd s) {disk : Disk} {index : ℕ}
    {items : List NetworkItem} {ps : List Packet}
    (hready : s.loop.ready = .receivedItems index items :: ps) :
    Granted sd (s.step H (.start disk)) := by
  constructor
  · obtain ⟨n, chosen, caps⟩ := h.captures
    have segment : (startReceived s.loop.ctx s.loop.mirror index items).1.bonusCaptures ++
        (startReceived s.loop.ctx s.loop.mirror index items).2.toList.flatMap
          Handler.owedCaptures = s.loop.mirror.bonusCaptures ++ [] := by
      rw [startReceived, processItems_bonusCaptures, processItems_owedCaptures]
    have moved := Loop.total_start disk hready segment
    rw [List.append_nil] at moved
    exact ⟨n, chosen_startReceived (by decide) hready chosen, moved.trans caps⟩
  · obtain ⟨n, chosen, abilities⟩ := h.abilities
    refine ⟨n, chosen_startReceived (by decide) hready chosen, ?_⟩
    have mirror : (s.loop.step (.start disk)).mirror =
        (startReceived s.loop.ctx s.loop.mirror index items).1 := by
      rw [Loop.step_start_received disk hready]
    simp only [step, mirror, startReceived, processItems_bonusAbilities]
    exact abilities

/-- Before the first item nothing is granted, and the Connected handler may clear it. -/
theorem granted_startConnected {s : Delivery} (h : Granted sd s) (sent : Sent H s) {disk : Disk}
    {cd : SlotData} {ps : List Packet} (hready : s.loop.ready = .connected cd :: ps) :
    Granted sd (s.step H (.start disk)) := by
  have chain := sent.chain
  rw [hready] at chain
  have nothing := List.append_eq_nil_iff.1 (sent.fresh chain.1)
  have no_items : s.loop.mirror.state.receivedItems = [] := by
    apply List.eq_nil_of_length_eq_zero
    rw [sent.length, nothing.1, List.length_nil]
  have loop := Loop.step_start_connected disk hready
  have mirror : (s.loop.step (.start disk)).mirror =
      (startConnected disk cd s.loop.ctx s.loop.mirror).2.1 := by
    rw [loop]
  have handlers : (s.loop.step (.start disk)).handlers = s.loop.handlers := by
    simp [loop, Loop.handlers, Task.handler]
  have history := startConnected_history disk cd s.loop.ctx s.loop.mirror
  have items : (startConnected disk cd s.loop.ctx s.loop.mirror).2.1.state.receivedItems = [] := by
    rcases history with ⟨-, same⟩ | ⟨-, cleared⟩
    · rw [same, no_items]
    · exact cleared
  have none_chosen (name : String) (n : ℕ) (chosen : Chosen s name n) :
      n = 0 ∧ Chosen (s.step H (.start disk)) name 0 := by
    unfold Chosen at chosen ⊢
    simp only [step, mirror, handlers, BridgeState.receivedItemCount, no_items, items,
      List.countP_nil] at chosen ⊢
    omega
  constructor
  · obtain ⟨n, chosen, caps⟩ := h.captures
    obtain ⟨rfl, chosen'⟩ := none_chosen _ n chosen
    refine ⟨0, chosen', ?_⟩
    have none := List.append_eq_nil_iff.1 (List.perm_nil.1 caps)
    have bonus : (startConnected disk cd s.loop.ctx s.loop.mirror).2.1.bonusCaptures = [] := by
      rcases history with ⟨calls, -⟩ | ⟨calls, -⟩
      · rw [Mirror.bonusCaptures, calls]
        exact none.1
      · rw [Mirror.bonusCaptures, calls, List.filterMap_nil]
    simp only [step, Loop.total, mirror, handlers, none.2, bonus]
    exact List.Perm.refl _
  · obtain ⟨n, chosen, abilities⟩ := h.abilities
    obtain ⟨rfl, chosen'⟩ := none_chosen _ n chosen
    refine ⟨0, chosen', ?_⟩
    have none := List.perm_nil.1 abilities
    have bonus : (startConnected disk cd s.loop.ctx s.loop.mirror).2.1.bonusAbilities = [] := by
      rcases history with ⟨calls, -⟩ | ⟨calls, -⟩
      · rw [Mirror.bonusAbilities, calls]
        exact none
      · rw [Mirror.bonusAbilities, calls, List.filterMap_nil]
    simp only [step, mirror, bonus]
    exact List.Perm.refl _

/-- The next chunk completes the bonus captures of one more copy. -/
theorem take_append_bonusChunk (captures : List String) (n : ℕ) :
    captures.take (3 * n) ++ bonusChunk captures (n + 1) = captures.take (3 * (n + 1)) := by
  have whole := List.take_append_drop (3 * n) (captures.take (3 * (n + 1)))
  rw [List.take_take, Nat.min_eq_left (by omega)] at whole
  exact whole

theorem flatten_replicate_succ (abilities : List String) (n : ℕ) :
    (List.replicate n abilities).flatten ++ abilities =
      (List.replicate (n + 1) abilities).flatten := by
  rw [List.replicate_succ', List.flatten_append, List.flatten_singleton]

theorem granted_resumeReceived {s : Delivery} (h : Granted sd s) {k : ℕ} {r : Handler}
    (hk : s.loop.suspended[k]? = some (.received r)) (ready : BonusReady sd s r) :
    Granted sd (s.step H (.resume k)) := by
  constructor
  · obtain ⟨n, chosen, caps⟩ := h.captures
    have chosen' := chosen_resume (H := H) (by decide) hk chosen
    have moved := Loop.total_resume hk (resumeReceived_bonusCaptures _ s.loop.mirror r)
    refine ⟨_, chosen', moved.trans ((caps.append_right _).trans ?_)⟩
    unfold Handler.chosenCaptures
    split_ifs with here
    · obtain ⟨stored, alone⟩ := ready.captures here
      have number : s.loop.mirror.state.receivedItemCount mushroomMultiMoon = n + 1 := by
        rw [chosen, alone]
      rw [stored, number, take_append_bonusChunk]
    · rw [List.append_nil, Nat.add_zero]
  · obtain ⟨n, chosen, abilities⟩ := h.abilities
    have chosen' := chosen_resume (H := H) (by decide) hk chosen
    refine ⟨_, chosen', ?_⟩
    have mirror : (s.loop.step (.resume k)).mirror =
        (resumeReceived s.loop.ctx s.loop.mirror r).1 := by
      rw [Loop.step_resume_received hk]
    simp only [step, mirror, resumeReceived_bonusAbilities]
    refine (abilities.append_right _).trans ?_
    unfold Handler.chosenAbilities
    split_ifs with here
    · rw [ready.abilities here, flatten_replicate_succ]
    · rw [List.append_nil, Nat.add_zero]

theorem granted_resumeConnected {s : Delivery} (h : Granted sd s) {k : ℕ} {t : ConnectedTask}
    (hk : s.loop.suspended[k]? = some (.connected t)) : Granted sd (s.step H (.resume k)) := by
  have same := Loop.handlers_resume_connected hk
  have mirror : (s.loop.step (.resume k)).mirror = s.loop.mirror := by
    rw [Loop.step_resume_connected hk]
  have chosen (name : String) (n : ℕ) (h : Chosen s name n) :
      Chosen (s.step H (.resume k)) name n := by
    unfold Chosen at h ⊢
    simp only [step, mirror, (same.flatMap_right Handler.sentName).count_eq]
    exact h
  constructor
  · obtain ⟨n, count, caps⟩ := h.captures
    refine ⟨n, chosen _ n count, ?_⟩
    simp only [step, Loop.total, mirror]
    exact ((same.flatMap_right _).append_left _).trans caps
  · obtain ⟨n, count, abilities⟩ := h.abilities
    refine ⟨n, chosen _ n count, ?_⟩
    simp only [step, mirror]
    exact abilities

/-- The name in the mirror is the entry's. -/
theorem reads_name {ctx : Context} {dp : DataPackage} (same : ctx.dp = dp) (p : ℕ)
    (ni : NetworkItem) (evt : ItemEvent) (here : H[p]? = some ni)
    (parsed : ctx.parseReceivedItem ni = some evt) :
    evt.item.name = H[p]?.bind (nameOf dp) := by
  obtain ⟨item, hitem, named, -⟩ := Context.parse_name parsed
  rw [here, Option.bind_some, nameOf, hitem, Option.map_some, named, same]

theorem inOrder_startReceived {dp : DataPackage} {s : Delivery} (h : InOrderRun H sd dp s)
    {disk : Disk} {index : ℕ} {items : List NetworkItem} {ps : List Packet}
    (hready : s.loop.ready = .receivedItems index items :: ps) :
    InOrderRun H sd dp (s.step H (.start disk)) := by
  have loop := Loop.step_start_received disk hready
  have started : (s.step H (.start disk)).started = index + items.length := by
    simp only [step, hready]
  have chain := h.sent.chain
  rw [hready] at chain
  have consecutive := h.consecutive
  rw [hready] at consecutive
  obtain ⟨rfl, later⟩ := consecutive
  constructor
  · exact sent_step s _ h.sent
  · simp only [step, loop]
    exact h.dp_eq
  · rw [started]
    simp only [step, loop]
    exact later
  · have le : s.loop.mirror.state.receivedItems.length ≤ s.started := by
      calc
        s.loop.mirror.state.receivedItems.length = s.loop.mirror.positions.length := h.sent.length
        _ ≤ s.claimed.length := by
            rw [claimed, Loop.total, List.length_append]
            exact Nat.le_add_right _ _
        _ = ((List.range s.started).filter (hasId H)).length := h.claims.length_eq
        _ ≤ (List.range s.started).length := List.length_filter_le _ _
        _ = s.started := List.length_range
    have claims := claimed_startReceived (H := H) disk hready
    rw [owedPositions_slice le chain.2.2.1] at claims
    have whole := range_append (Nat.le_add_right s.started items.length)
    rw [Nat.add_sub_cancel_left] at whole
    rw [started, ← whole, List.filter_append]
    exact claims.trans (h.claims.append_right _)
  · simp only [step, loop]
    exact (processItems_follows _ (reads_name h.dp_eq) h.names chain.2.2.1).1
  · exact granted_startReceived h.granted hready

theorem inOrder_startConnected {dp : DataPackage} {s : Delivery} (h : InOrderRun H sd dp s)
    {disk : Disk} {cd : SlotData} {ps : List Packet}
    (hready : s.loop.ready = .connected cd :: ps) :
    InOrderRun H sd dp (s.step H (.start disk)) := by
  have loop := Loop.step_start_connected disk hready
  have sent := startConnected_sent h.sent disk hready
  have started : (s.step H (.start disk)).started = s.started := by simp only [step, hready]
  have chain := h.sent.chain
  rw [hready] at chain
  constructor
  · exact sent
  · simp only [step, loop, startConnected_dp]
    exact h.dp_eq
  · have consecutive := h.consecutive
    rw [hready] at consecutive
    rw [started]
    simp only [step, loop]
    exact consecutive
  · rw [sent.fresh (by rw [started, chain.1]), started, chain.1]
    exact List.Perm.refl _
  · have names := h.names
    simp only [step, loop, Mirror.Follows, Mirror.positions] at names ⊢
    rcases startConnected_history disk cd s.loop.ctx s.loop.mirror with
      ⟨calls, items⟩ | ⟨calls, items⟩
    · rw [calls, items]
      exact names
    · rw [calls, items]
      rfl
  · exact granted_startConnected h.granted h.sent hready

theorem inOrder_resume {dp : DataPackage} {s : Delivery} (h : InOrderRun H sd dp s) (k : ℕ)
    (safe : BonusSafe sd s (.resume k)) : InOrderRun H sd dp (s.step H (.resume k)) := by
  have sent := sent_step s (.resume k) h.sent
  have claims := (claimed_resume (H := H) s k).trans h.claims
  cases hk : s.loop.suspended[k]? with
  | none =>
      have same : s.step H (.resume k) = s := by simp only [step, Loop.step_resume_none hk]
      rw [same]
      exact h
  | some t =>
      cases t with
      | received r =>
          have loop := Loop.step_resume_received hk
          have here : r ∈ s.loop.handlers :=
            (Loop.handlers_perm hk).mem_iff.2 (List.mem_append_left _ (List.mem_singleton.2 rfl))
          constructor
          · exact sent
          · simp only [step, loop]
            exact h.dp_eq
          · simp only [step, loop]
            exact h.consecutive
          · exact claims
          · simp only [step, loop]
            exact (resumeReceived_follows _ (reads_name h.dp_eq) h.names (h.sent.slices r here)).1
          · exact granted_resumeReceived h.granted hk (safe _ hk r rfl)
      | connected t =>
          have loop := Loop.step_resume_connected hk
          constructor
          · exact sent
          · simp only [step, loop, resumeConnected_dp]
            exact h.dp_eq
          · simp only [step, loop]
            exact h.consecutive
          · exact claims
          · simp only [step, loop]
            exact h.names
          · exact granted_resumeConnected h.granted hk

/-- A step of a run in order that is safe for the bonuses keeps the account. -/
theorem inOrder_step {dp : DataPackage} (s : Delivery) (e : Event) (h : InOrderRun H sd dp s)
    (good : InOrder s e ∧ BonusSafe sd s e) : InOrderRun H sd dp (s.step H e) := by
  cases e with
  | resend n => exact absurd good.1 id
  | resume k => exact inOrder_resume h k good.2
  | deliver n =>
      have sent := sent_step s (.deliver n) h.sent
      have bound := h.sent.bound
      have upTo : s.delivered ≤ min (s.delivered + n) H.length := by omega
      refine ⟨sent, h.dp_eq, ?_, h.claims, h.names, ⟨h.granted.captures, h.granted.abilities⟩⟩
      exact consecutive_append h.consecutive (slice_length (Nat.min_le_right _ _) upTo)
  | start disk =>
      cases hready : s.loop.ready with
      | nil =>
          have same : s.step H (.start disk) = s := by
            simp only [step, Loop.step_start_nil hready, hready]
          rw [same]
          exact h
      | cons p ps =>
          cases p with
          | receivedItems index items => exact inOrder_startReceived h hready
          | connected cd => exact inOrder_startConnected h hready
          | roomInfo seed =>
              obtain ⟨ctx, ready, suspended, calls, items⟩ :=
                Loop.step_start_roomInfo disk hready
              have started : (s.step H (.start disk)).started = s.started := by
                simp only [step, hready]
              have consecutive := h.consecutive
              rw [hready] at consecutive
              have handlers : (s.loop.step (.start disk)).handlers = s.loop.handlers := by
                rw [Loop.handlers, suspended, Loop.handlers]
              constructor
              · exact sent_step s _ h.sent
              · simp only [step, ctx]
                exact h.dp_eq
              · rw [started]
                simp only [step, ready]
                exact consecutive
              · rw [started]
                simp only [step, claimed, Loop.total, Mirror.positions, calls, handlers]
                exact h.claims
              · have names := h.names
                simp only [step, Mirror.Follows, Mirror.positions, calls, items] at names ⊢
                exact names
              · obtain ⟨captures, abilities⟩ := h.granted
                constructor
                · simp only [step, Chosen, Loop.total, handlers, Mirror.bonusCaptures, calls,
                    BridgeState.receivedItemCount, items] at captures ⊢
                  exact captures
                · simp only [step, Chosen, handlers, Mirror.bonusAbilities, calls,
                    BridgeState.receivedItemCount, items] at abilities ⊢
                  exact abilities

/-- The copies in a mirror that has the first `n` positions are those of the history. -/
theorem count_of_positions {dp : DataPackage} {m : Mirror} {n : ℕ} (bound : n ≤ H.length)
    (positions : m.positions ~ (List.range n).filter (hasId H))
    (names : m.Follows (·.item.name) fun p => H[p]?.bind (nameOf dp)) (name : String) :
    m.state.receivedItemCount name = copies dp (H.take n) name := by
  have with_id (p : ℕ) (h : H[p]?.bind (nameOf dp) = some name) : hasId H p = true := by
    obtain ⟨ni, here, named⟩ := Option.bind_eq_some_iff.1 h
    obtain ⟨item, hitem, -⟩ := Option.map_eq_some_iff.1 named
    rw [hasId, here, Option.bind_some, hitem]
    rfl
  calc
    m.state.receivedItemCount name = (m.state.receivedItems.map (·.item.name)).count (some name) := by
        rw [BridgeState.receivedItemCount, List.count_eq_countP, List.countP_map]
        apply List.countP_congr
        intro evt _
        simp
    _ = (m.positions.map fun p => H[p]?.bind (nameOf dp)).count (some name) := by rw [names]
    _ = (((List.range n).filter (hasId H)).map fun p => H[p]?.bind (nameOf dp)).count
          (some name) := (positions.map _).count_eq _
    _ = ((List.range n).map fun p => H[p]?.bind (nameOf dp)).count (some name) := by
        rw [List.count_eq_countP, List.count_eq_countP, List.countP_map, List.countP_map,
          List.countP_filter]
        apply List.countP_congr
        intro p _
        simp only [Function.comp_apply, beq_iff_eq, Bool.and_eq_true]
        exact ⟨fun h => h.1, fun h => ⟨h, with_id p h⟩⟩
    _ = copies dp (H.take n) name := by rw [map_range_take _ bound, copies]

/-- The client when the Connected packet has come in and no item has. -/
def connecting (ctx : Context) (st : BridgeState) (sd : SlotData) : Delivery :=
  { loop := { ctx, mirror := { state := st }, ready := [.connected sd] } }

theorem connecting_inOrder (ctx : Context) {st : BridgeState} (empty : st.receivedItems = [])
    (sd : SlotData) : InOrderRun H sd ctx.dp (connecting ctx st sd) := by
  have none_chosen (name : String) : Chosen (connecting ctx st sd) name 0 := by
    simp [Chosen, connecting, BridgeState.receivedItemCount, empty, Loop.handlers]
  constructor
  · refine ⟨Nat.zero_le _, ⟨rfl, rfl⟩, fun _ h => absurd h List.not_mem_nil, ?_, fun _ => rfl⟩
    simp [connecting, empty, Mirror.positions]
  · rfl
  · rfl
  · exact List.Perm.refl _
  · simp [Mirror.Follows, connecting, empty, Mirror.positions]
  · exact ⟨⟨0, none_chosen _, List.Perm.refl _⟩, ⟨0, none_chosen _, List.Perm.refl _⟩⟩

/-- In a run in order whose bonus grants each find the lists of the slot stored and no
other Mushroom Kingdom copy waiting, the bonuses of every delivered copy are granted
exactly once when all tasks have finished. -/
theorem bonuses_granted_once (ctx : Context) (st : BridgeState) (empty : st.receivedItems = [])
    (sd : SlotData) (events : List Event)
    (inOrder : Along (step H) InOrder (connecting ctx st sd) events)
    (safe : Along (step H) (BonusSafe sd) (connecting ctx st sd) events)
    (quiet : (run (step H) (connecting ctx st sd) events).loop.Quiet) :
    (run (step H) (connecting ctx st sd) events).loop.mirror.bonusCaptures ~
        sd.mmBonusCaptures.take (3 * copies ctx.dp
          (H.take (run (step H) (connecting ctx st sd) events).delivered) mushroomMultiMoon) ∧
      (run (step H) (connecting ctx st sd) events).loop.mirror.bonusAbilities ~
        (List.replicate (copies ctx.dp
          (H.take (run (step H) (connecting ctx st sd) events).delivered) darkSideMultiMoon)
          sd.mmBonusAbilities).flatten := by
  have reached : InOrderRun H sd ctx.dp (run (step H) (connecting ctx st sd) events) :=
    throughout_end (guarded_run (I := InOrderRun H sd ctx.dp) inOrder_step
      (connecting_inOrder ctx empty sd) (along_and inOrder safe))
  generalize run (step H) (connecting ctx st sd) events = s at quiet reached ⊢
  have no_handlers : s.loop.handlers = [] := by rw [Loop.handlers, quiet.2, List.filterMap_nil]
  have all : s.started = s.delivered := by
    have consecutive := reached.consecutive
    rw [quiet.1] at consecutive
    exact consecutive
  have positions : s.loop.mirror.positions ~ (List.range s.delivered).filter (hasId H) := by
    have claims := reached.claims
    rw [claimed, Loop.total, no_handlers, List.flatMap_nil, List.append_nil, all] at claims
    exact claims
  have count := count_of_positions reached.sent.bound positions reached.names
  obtain ⟨⟨n, chosen, captures⟩, ⟨d, chosenDark, abilities⟩⟩ := reached.granted
  simp only [Chosen, no_handlers, List.flatMap_nil, List.count_nil, Nat.add_zero, count] at chosen
  simp only [Chosen, no_handlers, List.flatMap_nil, List.count_nil, Nat.add_zero, count] at chosenDark
  rw [Loop.total, no_handlers, List.flatMap_nil, List.append_nil] at captures
  rw [chosen, chosenDark]
  exact ⟨captures, abilities⟩

def oneMultiMoon : List NetworkItem := [{ item := some 1 }]

def threeCaptures : SlotData := { mmBonusCaptures := ["Frog", "Goomba", "Bullet Bill"] }

/-- The Connected handler stores its lists before the Multi-Moon is handled. -/
def storedFirst : List Event :=
  [.start {}, .resume 0, .resume 0, .resume 0, .resume 0, .resume 0, .deliver 1, .start {},
    .resume 0, .resume 0, .resume 0, .resume 0, .resume 0, .resume 0, .resume 0, .resume 0,
    .resume 0, .resume 0]

theorem bonuses_granted_once_storedFirst :
    (run (step oneMultiMoon) (connecting { dp := samplePackage } {} threeCaptures)
          storedFirst).loop.mirror.bonusCaptures ~
        threeCaptures.mmBonusCaptures.take (3 * copies samplePackage
          (oneMultiMoon.take (run (step oneMultiMoon)
            (connecting { dp := samplePackage } {} threeCaptures) storedFirst).delivered)
          mushroomMultiMoon) ∧
      (run (step oneMultiMoon) (connecting { dp := samplePackage } {} threeCaptures)
          storedFirst).loop.mirror.bonusAbilities ~
        (List.replicate (copies samplePackage
          (oneMultiMoon.take (run (step oneMultiMoon)
            (connecting { dp := samplePackage } {} threeCaptures) storedFirst).delivered)
          darkSideMultiMoon) threeCaptures.mmBonusAbilities).flatten :=
  bonuses_granted_once { dp := samplePackage } {} rfl threeCaptures storedFirst (by decide)
    (by decide) ⟨rfl, rfl⟩

/-- The Multi-Moon is handled while the Connected handler waits at its first await. -/
def handledFirst : List Event :=
  [.start {}, .deliver 1, .start {}, .resume 1, .resume 1, .resume 0, .resume 0, .resume 0,
    .resume 0, .resume 0, .resume 0, .resume 0, .resume 0, .resume 0]

/-- One Multi-Moon is delivered and mirrored, and none of its captures is ever granted. -/
theorem early_multiMoon_grants_nothing :
    Along (step oneMultiMoon) InOrder (connecting { dp := samplePackage } {} threeCaptures)
        handledFirst ∧
      (run (step oneMultiMoon) (connecting { dp := samplePackage } {} threeCaptures)
        handledFirst).loop.Quiet ∧
      (run (step oneMultiMoon) (connecting { dp := samplePackage } {} threeCaptures)
        handledFirst).delivered = 1 ∧
      copies samplePackage oneMultiMoon mushroomMultiMoon = 1 ∧
      (run (step oneMultiMoon) (connecting { dp := samplePackage } {} threeCaptures)
        handledFirst).loop.mirror.bonusCaptures = [] ∧
      threeCaptures.mmBonusCaptures.take 3 = ["Frog", "Goomba", "Bullet Bill"] := by
  refine ⟨by decide, ⟨rfl, rfl⟩, ?_⟩
  decide

end SmoArchipelago.Bridge.Delivery
