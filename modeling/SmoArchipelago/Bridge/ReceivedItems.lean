import SmoArchipelago.Bridge.Mirror

/-! # The received-items handler

`on_package` spawns one task for each packet. A task runs up to an await, where other
tasks may run, and goes on from there when it is resumed.

## Implementation notes

Each await is a place of `Await`, with the locals that live across it in `Handler`. The
mirror length is read once, when the task starts. The Switch server is wired before the
first packet; what an await sends to it changes none of the state kept here, so an await
that does not suspend is one that is resumed at once. -/

namespace SmoArchipelago.Bridge

/-- Where a suspended handler waits, with the items it has still to process. -/
inductive Await where
  /-- `send_item` of the item itself. -/
  | sentItem (ref : ItemRef) (rest : List NetworkItem)
  /-- `send_item` of a bonus capture, with the captures still to grant. -/
  | sentBonus (caps : List String) (rest : List NetworkItem)
  | outstanding
  | abilityState
  | coinGrant

structure Locals where
  initialMirrorLen : ℕ
  pos : ℕ
  moonReceived : Bool := false
  coinRelevant : Bool := false
  abilityReceived : Bool := false

structure Handler where
  locals : Locals
  waits : Await

namespace Locals

def next (l : Locals) : Locals := { l with pos := l.pos + 1 }

/-- What an item's kind sets for the pushes at the end of the batch. -/
def note (l : Locals) (ref : ItemRef) : Locals :=
  if ref.kind = ItemKind.moon.value ∧ Present ref.kingdom then
    { l with moonReceived := true, coinRelevant := l.coinRelevant || ref.kingdom = some "Cap" }
  else if ref.kind = ItemKind.ability.value then
    { l with abilityReceived := true, coinRelevant := true }
  else if ref.kind = ItemKind.capture.value then { l with coinRelevant := true }
  else l

@[simp] theorem note_initialMirrorLen (l : Locals) (ref : ItemRef) :
    (l.note ref).initialMirrorLen = l.initialMirrorLen := by
  unfold note
  split_ifs <;> rfl

@[simp] theorem note_pos (l : Locals) (ref : ItemRef) : (l.note ref).pos = l.pos := by
  unfold note
  split_ifs <;> rfl

end Locals

/-- The pushes after the last item, each from its own await. -/
def pushCoinGrant (l : Locals) : Option Handler :=
  if l.coinRelevant then some ⟨l, .coinGrant⟩ else none

def pushAbilityState (l : Locals) : Option Handler :=
  if l.abilityReceived then some ⟨l, .abilityState⟩ else pushCoinGrant l

def pushOutstanding (l : Locals) : Option Handler :=
  if l.moonReceived then some ⟨l, .outstanding⟩ else pushAbilityState l

variable (ctx : Context)

/-- The loop over the items, up to the next await. -/
def processItems (m : Mirror) (l : Locals) : List NetworkItem → Mirror × Option Handler
  | [] => (m, pushOutstanding l)
  | ni :: rest =>
      match ctx.parseReceivedItem ni with
      | none => processItems m l.next rest
      | some evt =>
          if l.pos < l.initialMirrorLen then processItems m l.next rest
          else if evt.item.kind = ItemKind.ability.value then
            processItems (m.addReceivedItem l.pos evt) (l.note evt.item).next rest
          else (m.addReceivedItem l.pos evt, some ⟨(l.note evt.item).next, .sentItem evt.item rest⟩)

/-- `mm_bonus_captures[3 * (n - 1): 3 * n]`. -/
def bonusChunk (captures : List String) (n : ℕ) : List String :=
  (captures.take (3 * n)).drop (3 * (n - 1))

/-- The loop over the bonus captures, and the rest of the items after the last. -/
def grantCaptures (m : Mirror) (l : Locals) (rest : List NetworkItem) :
    List String → Mirror × Option Handler
  | [] => processItems ctx m { l with coinRelevant := true } rest
  | cap :: caps => (m.grantBonusCapture cap, some ⟨l, .sentBonus caps rest⟩)

/-- The side grants of the two bonus Multi-Moons. The chunk is chosen by the number of
copies in the mirror. -/
def bonusGrants (m : Mirror) (l : Locals) (rest : List NetworkItem) (ref : ItemRef) :
    Mirror × Option Handler :=
  if ref.name = some mushroomMultiMoon ∧ ctx.mmBonusCaptures ≠ [] then
    grantCaptures ctx m l rest
      (bonusChunk ctx.mmBonusCaptures (m.state.receivedItemCount mushroomMultiMoon))
  else if ref.name = some darkSideMultiMoon ∧ ctx.mmBonusAbilities ≠ [] then
    processItems ctx (ctx.mmBonusAbilities.foldl Mirror.grantBonusAbility m)
      { l with abilityReceived := true, coinRelevant := true } rest
  else processItems ctx m l rest

/-- `_process_received_items` from its start to its first await. -/
def startReceived (m : Mirror) (index : ℕ) (items : List NetworkItem) : Mirror × Option Handler :=
  processItems ctx m { initialMirrorLen := m.state.receivedItems.length, pos := index } items

/-- A suspended handler from its await to the next. -/
def resumeReceived (m : Mirror) (h : Handler) : Mirror × Option Handler :=
  match h.waits with
  | .sentItem ref rest => bonusGrants ctx m h.locals rest ref
  | .sentBonus caps rest => grantCaptures ctx m h.locals rest caps
  | .outstanding => (m, pushAbilityState h.locals)
  | .abilityState => (m, pushCoinGrant h.locals)
  | .coinGrant => (m, none)

/-! ## What one segment does to the mirror -/

section Kept

variable {P : Mirror → Prop}

theorem processItems_kept (received : ∀ m pos evt, Mirror.Parsed evt → P m → P (m.addReceivedItem pos evt))
    {m : Mirror} (hm : P m) (l : Locals) (items : List NetworkItem) :
    P (processItems ctx m l items).1 := by
  induction items generalizing m l with
  | nil => exact hm
  | cons ni rest ih =>
      unfold processItems
      split
      · exact ih hm l.next
      · next evt parsed =>
          have added : P (m.addReceivedItem l.pos evt) := received m l.pos evt ⟨ctx, ni, parsed⟩ hm
          split_ifs
          · exact ih hm l.next
          · exact ih added _
          · exact added

theorem grantCaptures_kept (kept : Mirror.KeptByCalls P) {m : Mirror} (hm : P m) (l : Locals)
    (rest : List NetworkItem) (caps : List String) : P (grantCaptures ctx m l rest caps).1 := by
  cases caps with
  | nil => exact processItems_kept ctx kept.received hm _ _
  | cons cap caps => exact kept.capture m cap hm

theorem grantAbilities_kept (ability : ∀ m name, P m → P (m.grantBonusAbility name))
    {m : Mirror} (hm : P m) (names : List String) : P (names.foldl Mirror.grantBonusAbility m) := by
  induction names generalizing m with
  | nil => exact hm
  | cons name names ih => exact ih (ability m name hm)

theorem bonusGrants_kept (kept : Mirror.KeptByCalls P) {m : Mirror} (hm : P m) (l : Locals)
    (rest : List NetworkItem) (ref : ItemRef) : P (bonusGrants ctx m l rest ref).1 := by
  unfold bonusGrants
  split_ifs
  · exact grantCaptures_kept ctx kept hm l rest _
  · exact processItems_kept ctx kept.received (grantAbilities_kept kept.ability hm _) _ _
  · exact processItems_kept ctx kept.received hm _ _

/-- What every call keeps, a handler keeps from each await to the next. -/
theorem resumeReceived_kept (kept : Mirror.KeptByCalls P) {m : Mirror} (hm : P m) (h : Handler) :
    P (resumeReceived ctx m h).1 := by
  unfold resumeReceived
  split
  · exact bonusGrants_kept ctx kept hm _ _ _
  · exact grantCaptures_kept ctx kept hm _ _ _
  · exact hm
  · exact hm
  · exact hm

theorem startReceived_kept (kept : Mirror.KeptByCalls P) {m : Mirror} (hm : P m) (index : ℕ)
    (items : List NetworkItem) : P (startReceived ctx m index items).1 :=
  processItems_kept ctx kept.received hm _ items

end Kept

/-! ## What a suspended handler still owes -/

/-- The positions from `pos` on that a handler will mirror. -/
def owedPositions (initialMirrorLen : ℕ) : ℕ → List NetworkItem → List ℕ
  | _, [] => []
  | pos, ni :: rest =>
      if ni.item.isSome ∧ initialMirrorLen ≤ pos then
        pos :: owedPositions initialMirrorLen (pos + 1) rest
      else owedPositions initialMirrorLen (pos + 1) rest

namespace Handler

/-- The items still to come. -/
def rest (h : Handler) : List NetworkItem :=
  match h.waits with
  | .sentItem _ rest | .sentBonus _ rest => rest
  | _ => []

def owed (h : Handler) : List ℕ :=
  owedPositions h.locals.initialMirrorLen h.locals.pos h.rest

/-- The name of the item that was sent and whose side grants are still to come. -/
def sentName (h : Handler) : List (Option String) :=
  match h.waits with
  | .sentItem ref _ => [ref.name]
  | _ => []

/-- The bonus captures that are chosen and not granted. -/
def owedCaptures (h : Handler) : List String :=
  match h.waits with
  | .sentBonus caps _ => caps
  | _ => []

/-- The items still to come are the history's from the handler's position on. -/
def Slice (H : List NetworkItem) (h : Handler) : Prop := h.rest <+: H.drop h.locals.pos

/-- At one of the last pushes nothing is owed any more. -/
structure Pushing (h : Handler) : Prop where
  rest : h.rest = []
  sentName : h.sentName = []
  owedCaptures : h.owedCaptures = []

theorem Pushing.owed {h : Handler} (pushing : h.Pushing) : h.owed = [] := by
  rw [Handler.owed, pushing.rest, owedPositions]

theorem Pushing.slice {h : Handler} (pushing : h.Pushing) (H : List NetworkItem) : h.Slice H := by
  rw [Slice, pushing.rest]
  exact List.nil_prefix

end Handler

theorem pushCoinGrant_pushing {l : Locals} : ∀ h ∈ pushCoinGrant l, h.Pushing := by
  intro h
  unfold pushCoinGrant
  split_ifs
  · rintro ⟨⟩
    exact ⟨rfl, rfl, rfl⟩
  · nofun

theorem pushAbilityState_pushing {l : Locals} : ∀ h ∈ pushAbilityState l, h.Pushing := by
  intro h
  unfold pushAbilityState
  split_ifs
  · rintro ⟨⟩
    exact ⟨rfl, rfl, rfl⟩
  · exact pushCoinGrant_pushing h

theorem pushOutstanding_pushing {l : Locals} : ∀ h ∈ pushOutstanding l, h.Pushing := by
  intro h
  unfold pushOutstanding
  split_ifs
  · rintro ⟨⟩
    exact ⟨rfl, rfl, rfl⟩
  · exact pushAbilityState_pushing h

theorem flatMap_pushing {α : Type*} {f : Handler → List α} (hf : ∀ h, h.Pushing → f h = [])
    {o : Option Handler} (ho : ∀ h ∈ o, h.Pushing) : o.toList.flatMap f = [] := by
  apply List.flatMap_eq_nil_iff.2
  intro h member
  exact hf h (ho h (Option.mem_toList.1 member))

section Segment

theorem processItems_positions (m : Mirror) (l : Locals) (items : List NetworkItem) :
    (processItems ctx m l items).1.positions ++
        (processItems ctx m l items).2.toList.flatMap Handler.owed =
      m.positions ++ owedPositions l.initialMirrorLen l.pos items := by
  induction items generalizing m l with
  | nil =>
      have none_owed := flatMap_pushing (fun _ => Handler.Pushing.owed) (pushOutstanding_pushing (l := l))
      simp only [processItems, none_owed, owedPositions]
  | cons ni rest ih =>
      unfold processItems owedPositions
      split
      · next skipped =>
          have absent : ¬ ni.item.isSome := by simpa [Context.parseReceivedItem] using skipped
          rw [if_neg fun h => absurd h.1 absent]
          exact ih m l.next
      · next evt parsed =>
          have present : ni.item.isSome := by
            obtain ⟨item, hitem, -⟩ := Context.parse_name parsed
            rw [hitem]
            rfl
          by_cases replayed : l.pos < l.initialMirrorLen
          · have skip : ¬ (ni.item.isSome ∧ l.initialMirrorLen ≤ l.pos) := fun h =>
              absurd h.2 (Nat.not_le.2 replayed)
            rw [if_pos replayed, if_neg skip]
            exact ih m l.next
          · have fresh : ni.item.isSome ∧ l.initialMirrorLen ≤ l.pos :=
              ⟨present, Nat.not_lt.1 replayed⟩
            rw [if_neg replayed, if_pos fresh]
            split_ifs with ability
            · rw [ih]
              simp [Locals.next]
            · simp [Handler.owed, Handler.rest, Locals.next]

/-- The mirror's events and its positions tell the same story of the history. -/
def Mirror.Follows {β : Type*} (f : ItemEvent → β) (g : ℕ → β) (m : Mirror) : Prop :=
  m.state.receivedItems.map f = m.positions.map g

theorem processItems_follows {β : Type*} {f : ItemEvent → β} {g : ℕ → β} {H : List NetworkItem}
    (reads : ∀ p ni evt, H[p]? = some ni → ctx.parseReceivedItem ni = some evt → f evt = g p)
    {m : Mirror} (hm : m.Follows f g) {l : Locals} {items : List NetworkItem}
    (slice : items <+: H.drop l.pos) :
    (processItems ctx m l items).1.Follows f g ∧
      ∀ h ∈ (processItems ctx m l items).2, h.Slice H := by
  induction items generalizing m l with
  | nil => exact ⟨hm, fun h member => (pushOutstanding_pushing h member).slice H⟩
  | cons ni rest ih =>
      have here : H[l.pos]? = some ni := by
        obtain ⟨more, hmore⟩ := slice
        have first := congrArg (·[0]?) hmore
        simpa using first.symm
      have later : rest <+: H.drop (l.pos + 1) := by
        obtain ⟨more, hmore⟩ := slice
        refine ⟨more, ?_⟩
        rw [← List.drop_drop, ← hmore]
        rfl
      unfold processItems
      split
      · exact ih hm (l := l.next) later
      · next evt parsed =>
          have added : (m.addReceivedItem l.pos evt).Follows f g := by
            have same : f evt = g l.pos := reads l.pos ni evt here parsed
            simp only [Mirror.Follows, Mirror.addReceivedItem_items,
              Mirror.addReceivedItem_positions, List.map_append, List.map_cons, List.map_nil, same]
            exact congrArg (· ++ [g l.pos]) hm
          split_ifs
          · exact ih hm (l := l.next) later
          · exact ih added (by simpa [Locals.next] using later)
          · refine ⟨added, ?_⟩
            rintro h ⟨⟩
            simpa [Handler.Slice, Handler.rest, Locals.next] using later

/-- The copies of a bonus Multi-Moon that a segment mirrors wait for their side grants. -/
theorem processItems_count {name : String} (bonus : name ∈ [mushroomMultiMoon, darkSideMultiMoon])
    (m : Mirror) (l : Locals) (items : List NetworkItem) :
    (processItems ctx m l items).1.state.receivedItemCount name =
      m.state.receivedItemCount name +
        ((processItems ctx m l items).2.toList.flatMap Handler.sentName).count (some name) := by
  induction items generalizing m l with
  | nil =>
      have none_sent := flatMap_pushing (fun _ => Handler.Pushing.sentName)
        (pushOutstanding_pushing (l := l))
      simp only [processItems, none_sent, List.count_nil, Nat.add_zero]
  | cons ni rest ih =>
      unfold processItems
      split
      · exact ih m l.next
      · next evt parsed =>
          have counted : (m.addReceivedItem l.pos evt).state.receivedItemCount name =
              m.state.receivedItemCount name + if evt.item.name = some name then 1 else 0 := by
            simp [BridgeState.receivedItemCount, List.countP_append, List.countP_singleton]
          split_ifs with replayed ability
          · exact ih m l.next
          · rw [ih, counted, if_neg fun named => Context.parse_multiMoon parsed named bonus ability,
              Nat.add_zero]
          · simp only [counted, Option.toList_some, List.flatMap_singleton, Handler.sentName,
              List.count_singleton, beq_iff_eq]

theorem processItems_bonusCaptures (m : Mirror) (l : Locals) (items : List NetworkItem) :
    (processItems ctx m l items).1.bonusCaptures = m.bonusCaptures :=
  processItems_kept (P := fun m' => m'.bonusCaptures = m.bonusCaptures) ctx
    (fun _ _ _ _ h => by rw [Mirror.addReceivedItem_bonusCaptures, h]) rfl l items

theorem processItems_bonusAbilities (m : Mirror) (l : Locals) (items : List NetworkItem) :
    (processItems ctx m l items).1.bonusAbilities = m.bonusAbilities :=
  processItems_kept (P := fun m' => m'.bonusAbilities = m.bonusAbilities) ctx
    (fun _ _ _ _ h => by rw [Mirror.addReceivedItem_bonusAbilities, h]) rfl l items

theorem processItems_owedCaptures (m : Mirror) (l : Locals) (items : List NetworkItem) :
    (processItems ctx m l items).2.toList.flatMap Handler.owedCaptures = [] := by
  induction items generalizing m l with
  | nil => exact flatMap_pushing (fun _ => Handler.Pushing.owedCaptures) pushOutstanding_pushing
  | cons ni rest ih =>
      unfold processItems
      split
      · exact ih m l.next
      · split_ifs
        · exact ih m l.next
        · exact ih _ _
        · rfl

@[simp] theorem grantAbilities_positions (m : Mirror) (names : List String) :
    (names.foldl Mirror.grantBonusAbility m).positions = m.positions :=
  grantAbilities_kept (P := fun m' => m'.positions = m.positions)
    (fun _ _ h => by rw [Mirror.grantBonusAbility_positions, h]) rfl names

@[simp] theorem grantAbilities_items (m : Mirror) (names : List String) :
    (names.foldl Mirror.grantBonusAbility m).state.receivedItems = m.state.receivedItems :=
  grantAbilities_kept (P := fun m' => m'.state.receivedItems = m.state.receivedItems)
    (fun _ _ h => by rw [Mirror.grantBonusAbility_items, h]) rfl names

@[simp] theorem grantAbilities_bonusCaptures (m : Mirror) (names : List String) :
    (names.foldl Mirror.grantBonusAbility m).bonusCaptures = m.bonusCaptures :=
  grantAbilities_kept (P := fun m' => m'.bonusCaptures = m.bonusCaptures)
    (fun _ _ h => by rw [Mirror.grantBonusAbility_bonusCaptures, h]) rfl names

@[simp] theorem grantAbilities_bonusAbilities (m : Mirror) (names : List String) :
    (names.foldl Mirror.grantBonusAbility m).bonusAbilities = m.bonusAbilities ++ names := by
  induction names generalizing m with
  | nil => simp
  | cons name names ih => simp [ih]

/-- A resumed handler mirrors what it owed and still owes the rest. -/
theorem resumeReceived_positions (m : Mirror) (h : Handler) :
    (resumeReceived ctx m h).1.positions ++
        (resumeReceived ctx m h).2.toList.flatMap Handler.owed = m.positions ++ h.owed := by
  have grants (l : Locals) (rest : List NetworkItem) (caps : List String) :
      (grantCaptures ctx m l rest caps).1.positions ++
          (grantCaptures ctx m l rest caps).2.toList.flatMap Handler.owed =
        m.positions ++ owedPositions l.initialMirrorLen l.pos rest := by
    cases caps with
    | nil => exact processItems_positions ctx m _ rest
    | cons cap caps => simp [grantCaptures, Handler.owed, Handler.rest]
  obtain ⟨l, waits⟩ := h
  cases waits with
  | sentItem ref rest =>
      simp only [resumeReceived, bonusGrants, Handler.owed, Handler.rest]
      split_ifs
      · exact grants l rest _
      · rw [processItems_positions ctx, grantAbilities_positions]
      · exact processItems_positions ctx m l rest
  | sentBonus caps rest => exact grants l rest caps
  | outstanding =>
      have none_owed := flatMap_pushing (fun _ => Handler.Pushing.owed)
        (pushAbilityState_pushing (l := l))
      simp [resumeReceived, none_owed, Handler.owed, Handler.rest, owedPositions]
  | abilityState =>
      have none_owed := flatMap_pushing (fun _ => Handler.Pushing.owed)
        (pushCoinGrant_pushing (l := l))
      simp [resumeReceived, none_owed, Handler.owed, Handler.rest, owedPositions]
  | coinGrant => simp [resumeReceived, Handler.owed, Handler.rest, owedPositions]

theorem resumeReceived_follows {β : Type*} {f : ItemEvent → β} {g : ℕ → β} {H : List NetworkItem}
    (reads : ∀ p ni evt, H[p]? = some ni → ctx.parseReceivedItem ni = some evt → f evt = g p)
    {m : Mirror} (hm : m.Follows f g) {h : Handler} (slice : h.Slice H) :
    (resumeReceived ctx m h).1.Follows f g ∧ ∀ h' ∈ (resumeReceived ctx m h).2, h'.Slice H := by
  obtain ⟨l, waits⟩ := h
  have grants (rest : List NetworkItem) (caps : List String) (slice : rest <+: H.drop l.pos) :
      (grantCaptures ctx m l rest caps).1.Follows f g ∧
        ∀ h' ∈ (grantCaptures ctx m l rest caps).2, h'.Slice H := by
    cases caps with
    | nil => exact processItems_follows ctx reads hm (l := { l with coinRelevant := true }) slice
    | cons cap caps =>
        refine ⟨?_, ?_⟩
        · simpa [grantCaptures, Mirror.Follows] using hm
        · rintro h' ⟨⟩
          exact slice
  cases waits with
  | sentItem ref rest =>
      simp only [resumeReceived, bonusGrants]
      split_ifs
      · exact grants rest _ slice
      · have granted : (ctx.mmBonusAbilities.foldl Mirror.grantBonusAbility m).Follows f g := by
          simpa [Mirror.Follows] using hm
        exact processItems_follows ctx reads granted
          (l := { l with abilityReceived := true, coinRelevant := true }) slice
      · exact processItems_follows ctx reads hm slice
  | sentBonus caps rest => exact grants rest caps slice
  | outstanding => exact ⟨hm, fun h' member => (pushAbilityState_pushing h' member).slice H⟩
  | abilityState => exact ⟨hm, fun h' member => (pushCoinGrant_pushing h' member).slice H⟩
  | coinGrant =>
      refine ⟨hm, fun h' member => ?_⟩
      simp [resumeReceived] at member

theorem grantCaptures_count {name : String}
    (bonus : name ∈ [mushroomMultiMoon, darkSideMultiMoon]) (m : Mirror) (l : Locals)
    (rest : List NetworkItem) (caps : List String) :
    (grantCaptures ctx m l rest caps).1.state.receivedItemCount name =
      m.state.receivedItemCount name +
        ((grantCaptures ctx m l rest caps).2.toList.flatMap Handler.sentName).count (some name) := by
  cases caps with
  | nil => exact processItems_count ctx bonus m _ rest
  | cons cap caps => simp [grantCaptures, Handler.sentName, BridgeState.receivedItemCount]

theorem grantCaptures_bonusCaptures (m : Mirror) (l : Locals) (rest : List NetworkItem)
    (caps : List String) :
    (grantCaptures ctx m l rest caps).1.bonusCaptures ++
        (grantCaptures ctx m l rest caps).2.toList.flatMap Handler.owedCaptures =
      m.bonusCaptures ++ caps := by
  cases caps with
  | nil =>
      simp only [grantCaptures]
      rw [processItems_bonusCaptures, processItems_owedCaptures]
  | cons cap caps => simp [grantCaptures, Handler.owedCaptures]

theorem grantCaptures_bonusAbilities (m : Mirror) (l : Locals) (rest : List NetworkItem)
    (caps : List String) :
    (grantCaptures ctx m l rest caps).1.bonusAbilities = m.bonusAbilities := by
  cases caps with
  | nil => exact processItems_bonusAbilities ctx m _ rest
  | cons cap caps => simp [grantCaptures]

instance lawfulSentName : LawfulBEq (Option String) := inferInstance

/-- The bonus captures that a handler chooses when it is resumed. -/
def Handler.chosenCaptures (ctx : Context) (m : Mirror) (h : Handler) : List String :=
  if some mushroomMultiMoon ∈ h.sentName then
    bonusChunk ctx.mmBonusCaptures (m.state.receivedItemCount mushroomMultiMoon)
  else []

def Handler.chosenAbilities (ctx : Context) (h : Handler) : List String :=
  if some darkSideMultiMoon ∈ h.sentName then ctx.mmBonusAbilities else []

theorem resumeReceived_count {name : String}
    (bonus : name ∈ [mushroomMultiMoon, darkSideMultiMoon]) (m : Mirror) (h : Handler) :
    (resumeReceived ctx m h).1.state.receivedItemCount name =
      m.state.receivedItemCount name +
        ((resumeReceived ctx m h).2.toList.flatMap Handler.sentName).count (some name) := by
  obtain ⟨l, waits⟩ := h
  cases waits with
  | sentItem ref rest =>
      simp only [resumeReceived, bonusGrants]
      split_ifs
      · exact grantCaptures_count ctx bonus m l rest _
      · rw [processItems_count ctx bonus]
        simp only [BridgeState.receivedItemCount, grantAbilities_items]
      · exact processItems_count ctx bonus m l rest
  | sentBonus caps rest => exact grantCaptures_count ctx bonus m l rest caps
  | outstanding =>
      have none_sent := flatMap_pushing (fun _ => Handler.Pushing.sentName)
        (pushAbilityState_pushing (l := l))
      simp [resumeReceived, none_sent]
  | abilityState =>
      have none_sent := flatMap_pushing (fun _ => Handler.Pushing.sentName)
        (pushCoinGrant_pushing (l := l))
      simp [resumeReceived, none_sent]
  | coinGrant => simp [resumeReceived]

/-- What is granted and owed after a resumption is what was, and what was chosen. -/
theorem resumeReceived_bonusCaptures (m : Mirror) (h : Handler) :
    (resumeReceived ctx m h).1.bonusCaptures ++
        (resumeReceived ctx m h).2.toList.flatMap Handler.owedCaptures =
      m.bonusCaptures ++ h.owedCaptures ++ h.chosenCaptures ctx m := by
  obtain ⟨l, waits⟩ := h
  cases waits with
  | sentItem ref rest =>
      simp only [resumeReceived, bonusGrants, Handler.owedCaptures, Handler.chosenCaptures,
        Handler.sentName, List.mem_singleton, List.append_nil, eq_comm (b := ref.name)]
      by_cases named : ref.name = some mushroomMultiMoon
      · by_cases stored : ctx.mmBonusCaptures = []
        · have other : ref.name ≠ some darkSideMultiMoon := by
            rw [named]
            decide
          rw [if_neg fun h => h.2 stored, if_neg fun h => other h.1, if_pos named, stored]
          rw [processItems_bonusCaptures, processItems_owedCaptures]
          simp [bonusChunk]
        · rw [if_pos (And.intro named stored), if_pos named]
          exact grantCaptures_bonusCaptures ctx m l rest _
      · rw [if_neg fun h => named h.1, if_neg named, List.append_nil]
        split_ifs
        · rw [processItems_bonusCaptures, processItems_owedCaptures, grantAbilities_bonusCaptures,
            List.append_nil]
        · rw [processItems_bonusCaptures, processItems_owedCaptures, List.append_nil]
  | sentBonus caps rest =>
      simpa [resumeReceived, Handler.owedCaptures, Handler.chosenCaptures, Handler.sentName] using
        grantCaptures_bonusCaptures ctx m l rest caps
  | outstanding =>
      have none_owed := flatMap_pushing (fun _ => Handler.Pushing.owedCaptures)
        (pushAbilityState_pushing (l := l))
      simp [resumeReceived, none_owed, Handler.owedCaptures, Handler.chosenCaptures,
        Handler.sentName]
  | abilityState =>
      have none_owed := flatMap_pushing (fun _ => Handler.Pushing.owedCaptures)
        (pushCoinGrant_pushing (l := l))
      simp [resumeReceived, none_owed, Handler.owedCaptures, Handler.chosenCaptures,
        Handler.sentName]
  | coinGrant =>
      simp [resumeReceived, Handler.owedCaptures, Handler.chosenCaptures, Handler.sentName]

theorem resumeReceived_bonusAbilities (m : Mirror) (h : Handler) :
    (resumeReceived ctx m h).1.bonusAbilities = m.bonusAbilities ++ h.chosenAbilities ctx := by
  obtain ⟨l, waits⟩ := h
  cases waits with
  | sentItem ref rest =>
      simp only [resumeReceived, bonusGrants, Handler.chosenAbilities, Handler.sentName,
        List.mem_singleton, eq_comm (b := ref.name)]
      by_cases named : ref.name = some darkSideMultiMoon
      · have other : ref.name ≠ some mushroomMultiMoon := by
          rw [named]
          decide
        rw [if_neg fun h => other h.1, if_pos named]
        by_cases stored : ctx.mmBonusAbilities = []
        · rw [if_neg fun h => h.2 stored, stored, List.append_nil]
          exact processItems_bonusAbilities ctx m l rest
        · rw [if_pos (And.intro named stored), processItems_bonusAbilities,
            grantAbilities_bonusAbilities]
      · rw [if_neg named, List.append_nil]
        split_ifs with mushroom dark
        · exact grantCaptures_bonusAbilities ctx m l rest _
        · exact absurd dark.1 named
        · exact processItems_bonusAbilities ctx m l rest
  | sentBonus caps rest =>
      simpa [resumeReceived, Handler.chosenAbilities, Handler.sentName] using
        grantCaptures_bonusAbilities ctx m l rest caps
  | outstanding => simp [resumeReceived, Handler.chosenAbilities, Handler.sentName]
  | abilityState => simp [resumeReceived, Handler.chosenAbilities, Handler.sentName]
  | coinGrant => simp [resumeReceived, Handler.chosenAbilities, Handler.sentName]

end Segment

end SmoArchipelago.Bridge
