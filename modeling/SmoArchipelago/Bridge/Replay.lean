import SmoArchipelago.Bridge.EventLoop

/-! # The replay after a HELLO

A save load clears the captures on the Switch and asks for a new HELLO; the replay then
sends the received items again.

## Implementation notes

The messages that carry neither items nor counts (moon balances, labels, gates, palette)
are left out. -/

namespace SmoArchipelago.Bridge

open Library Runs

inductive ToSwitch where
  | checkedReplay (ids : List ItemRef)
  | item (msg : ItemMsg)
  | coinGrant (total : ℕ)
  | abilityState (counts : Dict String ℕ) (enforce : Bool)
  | apState (conn : String)

def itemMsg (evt : ItemEvent) : ItemMsg where
  kind := evt.item.kind
  kingdom := evt.item.kingdom
  shineId := evt.item.shineId
  cap := evt.item.cap
  name := evt.item.name
  sender := evt.cappyFrom
  hackName := evt.item.hackName
  classification := evt.item.classification

/-- With capturesanity off every known capture is unlocked. -/
def pushCapturesanityReplay (ctx : Context) : List ToSwitch :=
  if ctx.capturesanityEnabled then []
  else
    ctx.captureMap.iterAll.map fun p =>
      .item { kind := ItemKind.capture.value, cap := some p.1, hackName := some p.2, sender := "" }

def pushCoinTotal (s : BridgeState) : List ToSwitch :=
  if s.computeTotalCoinGrant = 0 then [] else [.coinGrant s.computeTotalCoinGrant]

def pushAbilityCounts (ctx : Context) (s : BridgeState) : List ToSwitch :=
  if ctx.abilitysanityEnabled ∧ s.getAbilityCounts.size = 0 then []
  else [.abilityState s.getAbilityCounts ctx.abilitysanityEnabled]

/-- `_run_post_hello_replay`: moons are left to the balance message. -/
def postHelloReplay (ctx : Context) (s : BridgeState) : List ToSwitch :=
  [.checkedReplay s.checkedLocations] ++
    (s.receivedItems.filter fun evt => evt.item.kind ≠ ItemKind.moon.value).map
      (fun evt => .item (itemMsg evt)) ++
    pushCapturesanityReplay ctx ++ pushCoinTotal s ++ pushAbilityCounts ctx s ++
    [.apState s.apConn]

/-- The capture that a message unlocks. -/
def ToSwitch.capture : ToSwitch → Option String
  | .item msg => if msg.kind = ItemKind.capture.value then msg.cap else none
  | _ => none

/-- The captures that a Switch without any unlocks from the replay. -/
def replayCaptures (ctx : Context) (s : BridgeState) : Finset String :=
  ((postHelloReplay ctx s).filterMap ToSwitch.capture).toFinset

theorem mem_replayCaptures {ctx : Context} (on : ctx.capturesanityEnabled = true) (s : BridgeState)
    (cap : String) :
    cap ∈ replayCaptures ctx s ↔
      ∃ evt ∈ s.receivedItems, evt.item.kind = ItemKind.capture.value ∧ evt.item.cap = some cap := by
  have coins : (pushCoinTotal s).filterMap ToSwitch.capture = [] := by
    unfold pushCoinTotal
    split_ifs <;> rfl
  have abilities : (pushAbilityCounts ctx s).filterMap ToSwitch.capture = [] := by
    unfold pushAbilityCounts
    split_ifs <;> rfl
  have items (evt : ItemEvent) : ToSwitch.capture (.item (itemMsg evt)) = some cap ↔
      evt.item.kind = ItemKind.capture.value ∧ evt.item.cap = some cap := by
    simp only [ToSwitch.capture, itemMsg]
    split_ifs with kind <;> simp [kind]
  simp only [replayCaptures, postHelloReplay, pushCapturesanityReplay, on, if_true,
    List.filterMap_append, coins, abilities, List.append_nil, List.mem_toFinset, List.mem_append,
    List.mem_filterMap, List.mem_map, List.mem_filter, decide_eq_true_eq]
  constructor
  · rintro ((⟨msg, here, sent⟩ | ⟨msg, ⟨evt, ⟨member, -⟩, rfl⟩, sent⟩) | ⟨msg, here, sent⟩)
    · rw [List.mem_singleton.1 here] at sent
      cases sent
    · exact ⟨evt, member, (items evt).1 sent⟩
    · rw [List.mem_singleton.1 here] at sent
      cases sent
  · rintro ⟨evt, member, kind, named⟩
    refine .inl (.inr ⟨_, ⟨evt, ⟨member, ?_⟩, rfl⟩, (items evt).2 ⟨kind, named⟩⟩)
    rw [kind]
    decide

/-- Either the mirror is cleared or only the connection fields change when the Connected
handler starts. -/
theorem startConnected_unlocked (disk : Disk) (sd : SlotData) (ctx : Context) (m : Mirror)
    (h : m.Unlocked) : (startConnected disk sd ctx m).2.1.Unlocked := by
  unfold startConnected enterSlot
  dsimp only
  split_ifs
  · exact ⟨(Mirror.unlocked_clearReceived m).present, (Mirror.unlocked_clearReceived m).sources⟩
  · exact ⟨h.present, h.sources⟩

/-- In every run the unlocked captures are the received and the granted ones. -/
theorem run_unlocked (ctx : Context) (events : List Event) :
    (run Loop.step { ctx } events).mirror.Unlocked := by
  apply invariant_run (I := fun s : Loop => s.mirror.Unlocked)
  · intro s e h
    apply Loop.step_invariant (I := fun _ m => m.Unlocked)
    · exact fun _ _ _ h => ⟨h.present, h.sources⟩
    · exact fun disk sd ctx m h => startConnected_unlocked disk sd ctx m h
    · exact fun _ _ _ h => h
    · exact fun ctx _ index items h => startReceived_kept ctx Mirror.unlocked_kept h index items
    · exact fun ctx _ r h => resumeReceived_kept ctx Mirror.unlocked_kept h r
    · exact h
  · exact Mirror.unlocked_clearReceived {}

/-- With capturesanity on, the replay unlocks the captures that the bridge counts as
unlocked if and only if every capture granted as a bonus was also received as an item. -/
theorem replay_complete_iff (ctx : Context) (events : List Event)
    (on : (run Loop.step { ctx } events).ctx.capturesanityEnabled = true) :
    replayCaptures (run Loop.step { ctx } events).ctx (run Loop.step { ctx } events).mirror.state =
        (run Loop.step { ctx } events).mirror.state.capturesUnlocked ↔
      ∀ cap ∈ (run Loop.step { ctx } events).mirror.bonusCaptures,
        ∃ evt ∈ (run Loop.step { ctx } events).mirror.state.receivedItems,
          evt.item.kind = ItemKind.capture.value ∧ evt.item.cap = some cap := by
  have sources := (run_unlocked ctx events).sources
  constructor
  · intro same cap granted
    apply (mem_replayCaptures on _ cap).1
    rw [same]
    exact (sources cap).2 (.inr granted)
  · intro received
    ext cap
    rw [mem_replayCaptures on, sources]
    constructor
    · exact .inl
    · rintro (item | granted)
      · exact item
      · exact received cap granted

/-- A Multi-Moon with three bonus captures arrives after the bonus lists are stored. -/
def bonusRun : List Event :=
  [.packet (.connected { mmBonusCaptures := ["Frog", "Goomba", "Bullet Bill"] }), .start {},
    .resume 0, .resume 0, .resume 0, .resume 0, .resume 0,
    .packet (.receivedItems 0 [{ item := some 1 }]), .start {}, .resume 1, .resume 1, .resume 1]

theorem replay_complete_iff_bonusRun :
    replayCaptures (run Loop.step { ctx := { dp := samplePackage } } bonusRun).ctx
          (run Loop.step { ctx := { dp := samplePackage } } bonusRun).mirror.state =
        (run Loop.step { ctx := { dp := samplePackage } } bonusRun).mirror.state.capturesUnlocked ↔
      ∀ cap ∈ (run Loop.step { ctx := { dp := samplePackage } } bonusRun).mirror.bonusCaptures,
        ∃ evt ∈ (run Loop.step { ctx := { dp := samplePackage } } bonusRun).mirror.state.receivedItems,
          evt.item.kind = ItemKind.capture.value ∧ evt.item.cap = some cap :=
  replay_complete_iff { dp := samplePackage } bonusRun (by decide)

/-- The three captures are unlocked on the bridge and the replay carries none. -/
theorem bonus_captures_not_replayed :
    (run Loop.step { ctx := { dp := samplePackage } } bonusRun).ctx.capturesanityEnabled = true ∧
      (run Loop.step { ctx := { dp := samplePackage } } bonusRun).mirror.state.capturesUnlocked =
        {"Frog", "Goomba", "Bullet Bill"} ∧
      replayCaptures (run Loop.step { ctx := { dp := samplePackage } } bonusRun).ctx
        (run Loop.step { ctx := { dp := samplePackage } } bonusRun).mirror.state = ∅ := by
  decide

end SmoArchipelago.Bridge
