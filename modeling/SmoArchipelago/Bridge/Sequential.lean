import SmoArchipelago.Bridge.ReceivedItems

/-! # One handler at a time

What two runs of a received-items handler have in common when they cannot tell their
contexts and mirrors apart, and how many awaits a handler has at most. -/

namespace SmoArchipelago.Bridge

/-- The state that is compared of two mirrors. -/
structure Mirror.Alike (m m' : Mirror) : Prop where
  receivedItems : m.state.receivedItems = m'.state.receivedItems
  capturesUnlocked : m.state.capturesUnlocked = m'.state.capturesUnlocked
  capturesReceivedCount : m.state.capturesReceivedCount = m'.state.capturesReceivedCount
  abilitiesReceived : m.state.abilitiesReceived = m'.state.abilitiesReceived
  moonsReceivedByKingdom : m.state.moonsReceivedByKingdom = m'.state.moonsReceivedByKingdom

/-- Two contexts that the received-items handler cannot tell apart. -/
structure Context.Alike (ctx ctx' : Context) : Prop where
  parse : ∀ ni, ctx.parseReceivedItem ni = ctx'.parseReceivedItem ni
  mmBonusCaptures : ctx.mmBonusCaptures = ctx'.mmBonusCaptures
  mmBonusAbilities : ctx.mmBonusAbilities = ctx'.mmBonusAbilities

namespace Mirror.Alike

variable {m m' : Mirror}

theorem symm (h : m.Alike m') : m'.Alike m :=
  ⟨h.receivedItems.symm, h.capturesUnlocked.symm, h.capturesReceivedCount.symm,
    h.abilitiesReceived.symm, h.moonsReceivedByKingdom.symm⟩

theorem trans {m'' : Mirror} (h : m.Alike m') (h' : m'.Alike m'') : m.Alike m'' :=
  ⟨h.receivedItems.trans h'.receivedItems, h.capturesUnlocked.trans h'.capturesUnlocked,
    h.capturesReceivedCount.trans h'.capturesReceivedCount,
    h.abilitiesReceived.trans h'.abilitiesReceived,
    h.moonsReceivedByKingdom.trans h'.moonsReceivedByKingdom⟩

theorem addReceivedItem (h : m.Alike m') (pos : ℕ) (evt : ItemEvent) :
    (m.addReceivedItem pos evt).Alike (m'.addReceivedItem pos evt) := by
  obtain ⟨items, unlocked, captures, abilities, moons⟩ := h
  simp only [Mirror.addReceivedItem, BridgeState.addReceivedItem]
  split_ifs <;> constructor <;> simp only [items, unlocked, captures, abilities, moons]

theorem grantBonusCapture (h : m.Alike m') (cap : String) :
    (m.grantBonusCapture cap).Alike (m'.grantBonusCapture cap) :=
  ⟨h.receivedItems, congrArg (insert cap) h.capturesUnlocked,
    congrArg (·.bump cap 1) h.capturesReceivedCount, h.abilitiesReceived, h.moonsReceivedByKingdom⟩

theorem grantBonusAbility (h : m.Alike m') (name : String) :
    (m.grantBonusAbility name).Alike (m'.grantBonusAbility name) :=
  ⟨h.receivedItems, h.capturesUnlocked, h.capturesReceivedCount,
    congrArg (·.bump name 1) h.abilitiesReceived, h.moonsReceivedByKingdom⟩

theorem grantAbilities (h : m.Alike m') (names : List String) :
    (names.foldl Mirror.grantBonusAbility m).Alike (names.foldl Mirror.grantBonusAbility m') := by
  induction names generalizing m m' with
  | nil => exact h
  | cons name names ih => exact ih (h.grantBonusAbility name)

end Mirror.Alike

/-- Two segments with the same continuation and mirrors alike. -/
def SameSegment (r r' : Mirror × Option Handler) : Prop := r.1.Alike r'.1 ∧ r.2 = r'.2

section Segments

variable {ctx ctx' : Context} (same : ctx.Alike ctx') {m m' : Mirror}

include same

theorem processItems_same (h : m.Alike m') (l : Locals) (items : List NetworkItem) :
    SameSegment (processItems ctx m l items) (processItems ctx' m' l items) := by
  induction items generalizing m m' l with
  | nil => exact ⟨h, rfl⟩
  | cons ni rest ih =>
      simp only [processItems, same.parse ni]
      cases ctx'.parseReceivedItem ni with
      | none => exact ih h l.next
      | some evt =>
          dsimp only
          split_ifs
          · exact ih h l.next
          · exact ih (h.addReceivedItem l.pos evt) _
          · exact ⟨h.addReceivedItem l.pos evt, rfl⟩

theorem grantCaptures_same (h : m.Alike m') (l : Locals) (rest : List NetworkItem)
    (caps : List String) :
    SameSegment (grantCaptures ctx m l rest caps) (grantCaptures ctx' m' l rest caps) := by
  cases caps with
  | nil => exact processItems_same same h _ rest
  | cons cap caps => exact ⟨h.grantBonusCapture cap, rfl⟩

theorem bonusGrants_same (h : m.Alike m') (l : Locals) (rest : List NetworkItem) (ref : ItemRef) :
    SameSegment (bonusGrants ctx m l rest ref) (bonusGrants ctx' m' l rest ref) := by
  have copies : m.state.receivedItemCount mushroomMultiMoon =
      m'.state.receivedItemCount mushroomMultiMoon := by
    rw [BridgeState.receivedItemCount, h.receivedItems, BridgeState.receivedItemCount]
  simp only [bonusGrants, same.mmBonusCaptures, same.mmBonusAbilities, copies]
  split_ifs
  · exact grantCaptures_same same h l rest _
  · exact processItems_same same (h.grantAbilities _) _ rest
  · exact processItems_same same h l rest

theorem resumeReceived_same (h : m.Alike m') (r : Handler) :
    SameSegment (resumeReceived ctx m r) (resumeReceived ctx' m' r) := by
  unfold resumeReceived
  split
  · exact bonusGrants_same same h _ _ _
  · exact grantCaptures_same same h _ _ _
  · exact ⟨h, rfl⟩
  · exact ⟨h, rfl⟩
  · exact ⟨h, rfl⟩

theorem startReceived_same (h : m.Alike m') (index : ℕ) (items : List NetworkItem) :
    SameSegment (startReceived ctx m index items) (startReceived ctx' m' index items) := by
  unfold startReceived
  rw [h.receivedItems]
  exact processItems_same same h _ items

end Segments

/-! ## The awaits of a handler -/

/-- The awaits that a handler of so many items has at most. -/
def awaitsOf (items : List NetworkItem) : ℕ := 4 * items.length + 3

/-- The awaits that a handler has left at most. A Multi-Moon has three bonus captures. -/
def Handler.awaits (h : Handler) : ℕ :=
  match h.waits with
  | .sentItem _ rest => 4 + awaitsOf rest
  | .sentBonus caps rest => 1 + caps.length + awaitsOf rest
  | .outstanding => 3
  | .abilityState => 2
  | .coinGrant => 1

section Awaits

variable (ctx : Context) (m : Mirror) {h h' : Handler}

theorem pushCoinGrant_awaits {l : Locals} (next : h ∈ pushCoinGrant l) : h.awaits ≤ 1 := by
  unfold pushCoinGrant at next
  split_ifs at next <;> cases next
  exact Nat.le_refl 1

theorem pushAbilityState_awaits {l : Locals} (next : h ∈ pushAbilityState l) : h.awaits ≤ 2 := by
  unfold pushAbilityState at next
  split_ifs at next
  · cases next
    exact Nat.le_refl 2
  · exact Nat.le_succ_of_le (pushCoinGrant_awaits next)

theorem processItems_awaits (l : Locals) (items : List NetworkItem)
    (next : h ∈ (processItems ctx m l items).2) : h.awaits ≤ awaitsOf items := by
  induction items generalizing m l with
  | nil =>
      simp only [processItems, pushOutstanding] at next
      split_ifs at next
      · cases next
        exact Nat.le_refl 3
      · exact Nat.le_succ_of_le (pushAbilityState_awaits next)
  | cons ni rest ih =>
      have longer : awaitsOf (ni :: rest) = 4 + awaitsOf rest := by
        simp only [awaitsOf, List.length_cons]
        omega
      rw [longer]
      unfold processItems at next
      split at next
      · exact Nat.le_add_left_of_le (ih _ _ next)
      · split_ifs at next
        · exact Nat.le_add_left_of_le (ih _ _ next)
        · exact Nat.le_add_left_of_le (ih _ _ next)
        · cases next
          exact Nat.le_refl _

theorem grantCaptures_awaits (l : Locals) (rest : List NetworkItem) (caps : List String)
    (next : h ∈ (grantCaptures ctx m l rest caps).2) : h.awaits ≤ caps.length + awaitsOf rest := by
  cases caps with
  | nil => exact Nat.le_add_left_of_le (processItems_awaits ctx m _ rest next)
  | cons cap caps =>
      cases next
      simp only [Handler.awaits, List.length_cons]
      omega

theorem resumeReceived_awaits (next : h' ∈ (resumeReceived ctx m h).2) : h'.awaits < h.awaits := by
  obtain ⟨l, waits⟩ := h
  cases waits with
  | sentItem ref rest =>
      have chunk (n : ℕ) : (bonusChunk ctx.mmBonusCaptures n).length ≤ 3 := by
        rw [bonusChunk, List.length_drop, List.length_take]
        omega
      have budget : Handler.awaits ⟨l, .sentItem ref rest⟩ = 4 + awaitsOf rest := rfl
      simp only [resumeReceived, bonusGrants] at next
      rw [budget]
      split_ifs at next
      · have bound := grantCaptures_awaits ctx m l rest _ next
        have three := chunk (m.state.receivedItemCount mushroomMultiMoon)
        omega
      · have bound := processItems_awaits ctx _ _ rest next
        omega
      · have bound := processItems_awaits ctx m l rest next
        omega
  | sentBonus caps rest =>
      have bound := grantCaptures_awaits ctx m l rest caps next
      have budget : Handler.awaits ⟨l, .sentBonus caps rest⟩ = 1 + caps.length + awaitsOf rest := rfl
      omega
  | outstanding => exact Nat.lt_succ_of_le (pushAbilityState_awaits next)
  | abilityState => exact Nat.lt_succ_of_le (pushCoinGrant_awaits next)
  | coinGrant => cases next

theorem awaits_pos (h : Handler) : 0 < h.awaits := by
  obtain ⟨l, waits⟩ := h
  cases waits <;> simp only [Handler.awaits] <;> omega

/-- After the last item a handler mirrors nothing any more. -/
theorem resumeReceived_last (last : h.rest = []) :
    (resumeReceived ctx m h).1.state.receivedItems = m.state.receivedItems ∧
      ∀ h' ∈ (resumeReceived ctx m h).2, h'.rest = [] := by
  have none_left (m : Mirror) (l : Locals) : ∀ h' ∈ (processItems ctx m l []).2, h'.rest = [] :=
    fun h' next => (pushOutstanding_pushing h' next).rest
  have captures (l : Locals) (caps : List String) :
      (grantCaptures ctx m l [] caps).1.state.receivedItems = m.state.receivedItems ∧
        ∀ h' ∈ (grantCaptures ctx m l [] caps).2, h'.rest = [] := by
    cases caps with
    | nil => exact ⟨rfl, none_left m _⟩
    | cons cap caps =>
        refine ⟨rfl, ?_⟩
        rintro h' ⟨⟩
        rfl
  obtain ⟨l, waits⟩ := h
  cases waits with
  | sentItem ref rest =>
      have ended : rest = [] := last
      simp only [resumeReceived, bonusGrants, ended]
      split_ifs
      · exact captures l _
      · exact ⟨grantAbilities_items m _, none_left _ _⟩
      · exact ⟨rfl, none_left m l⟩
  | sentBonus caps rest =>
      have ended : rest = [] := last
      simp only [resumeReceived, ended]
      exact captures l caps
  | outstanding => exact ⟨rfl, fun h' next => (pushAbilityState_pushing (l := l) h' next).rest⟩
  | abilityState => exact ⟨rfl, fun h' next => (pushCoinGrant_pushing (l := l) h' next).rest⟩
  | coinGrant =>
      refine ⟨rfl, ?_⟩
      rintro h' ⟨⟩

/-- The first item of a history is mirrored by the first segment of its handler. -/
theorem startReceived_first {m : Mirror} (empty : m.state.receivedItems = []) {ni : NetworkItem}
    {evt : ItemEvent} (parsed : ctx.parseReceivedItem ni = some evt) :
    (startReceived ctx m 0 [ni]).1.state.receivedItems = [evt] ∧
      ∀ h ∈ (startReceived ctx m 0 [ni]).2, h.rest = [] := by
  simp only [startReceived, empty, List.length_nil, processItems, parsed, Nat.lt_irrefl, if_false]
  split_ifs
  · refine ⟨by simp [empty], ?_⟩
    exact fun h next => (pushOutstanding_pushing h next).rest
  · refine ⟨by simp [empty], ?_⟩
    rintro h ⟨⟩
    rfl

end Awaits

end SmoArchipelago.Bridge
