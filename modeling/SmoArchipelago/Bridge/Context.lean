import SmoArchipelago.Bridge.DataPackage
import SmoArchipelago.Bridge.Maps
import SmoArchipelago.Bridge.State

/-! # Client context

The fields of the Archipelago context that the received-items handler, the Connected
handler and the check reports read or write, apart from the bridge state. -/

namespace SmoArchipelago.Bridge

structure Context where
  dp : DataPackage
  shineMap : ShineMap := {}
  captureMap : CaptureMap := {}
  /-- The names of the players, this client's own number and slot name. -/
  playerNames : ℤ → Option String := fun _ => none
  slot : Option ℤ := none
  auth : Option String := none
  /-- What the server has recorded as checked, and what this process has sent. -/
  checkedLocations : Finset ℤ := ∅
  locationsChecked : Finset ℤ := ∅
  switchReportedLocIds : Finset ℤ := ∅
  goalReported : Bool := false
  goalLocationName : Option String := none
  mmBonusCaptures : List String := []
  mmBonusAbilities : List String := []
  capturesanityEnabled : Bool := true
  abilitysanityEnabled : Bool := true
  mapsSentinelMtime : Option ℕ := none

namespace Context

def senderName (ctx : Context) : Option ℤ → String
  | none => "self"
  | some player => (ctx.playerNames player).getD (toString player)

/-- `classify_item(name).to_ref()`, stamped with the hack name and the class. -/
def receivedRef (ctx : Context) (item : ℤ) (flags : ℕ) : ItemRef :=
  let ref := (ctx.dp.classifyItem (ctx.dp.itemName item)).toRef
  { ref with
    hackName :=
      if ref.kind = ItemKind.capture.value ∧ Present ref.cap then ctx.captureMap.capToHack ref.cap
      else ref.hackName
    classification := some (classificationFromFlags flags).value }

/-- A find of our own that the Switch reported stays silent; one sent by hand speaks
without a sender. -/
def cappyFrom (ctx : Context) (ni : NetworkItem) : String :=
  if ni.player.isSome ∧ ni.player = ctx.slot then
    match ni.location with
    | some loc => if loc ∈ ctx.switchReportedLocIds then "" else "(self)"
    | none => "(self)"
  else ctx.senderName ni.player

/-- `_parse_received_item`: nothing for an entry without an item id. -/
def parseReceivedItem (ctx : Context) (ni : NetworkItem) : Option ItemEvent :=
  ni.item.map fun item =>
    { item := ctx.receivedRef item ni.flags
      sender := ctx.senderName ni.player
      cappyFrom := ctx.cappyFrom ni }

/-- Whether a reload has something to look at: it is forced, or the wizard ran since
the last one. -/
def reloadDue (ctx : Context) (disk : Disk) (force : Bool) : Bool :=
  force ||
    match disk.sentinel, ctx.mapsSentinelMtime with
    | none, none => false
    | some now, some last => last < now
    | _, _ => true

/-- `reload_maps`, with whether each map changed its size. -/
def reloadMaps (ctx : Context) (disk : Disk) (force : Bool) : Context × Bool × Bool :=
  if ctx.reloadDue disk force then
    let shine := reloadOne ShineMap.size ShineMap.load disk.shineFile ctx.shineMap
    let capture := reloadOne CaptureMap.size CaptureMap.load disk.captureFile ctx.captureMap
    ({ ctx with
        shineMap := shine.1
        captureMap := capture.1
        mapsSentinelMtime := disk.sentinel.orElse fun _ => ctx.mapsSentinelMtime },
      shine.2, capture.2)
  else (ctx, false, false)

variable {ctx : Context}

theorem parse_isSome {ni : NetworkItem} (h : ni.item.isSome) :
    ∃ evt, ctx.parseReceivedItem ni = some evt := by
  obtain ⟨item, hitem⟩ := Option.isSome_iff_exists.1 h
  exact ⟨_, by rw [parseReceivedItem, hitem, Option.map_some]⟩

/-- The item's name goes into the record unchanged. -/
theorem parse_name {ni : NetworkItem} {evt : ItemEvent} (h : ctx.parseReceivedItem ni = some evt) :
    ∃ item, ni.item = some item ∧ evt.item.name = some (ctx.dp.itemName item) ∧
      evt.item.kind = (ctx.dp.classifyItem (ctx.dp.itemName item)).kind.value := by
  obtain ⟨item, hitem, rfl⟩ := Option.map_eq_some_iff.1 h
  refine ⟨item, hitem, ?_, rfl⟩
  simp [receivedRef, ClassifiedItem.toRef]

/-- A received capture names a capture: its cap is there and not empty. -/
theorem parse_capture_present {ni : NetworkItem} {evt : ItemEvent}
    (h : ctx.parseReceivedItem ni = some evt) (kind : evt.item.kind = ItemKind.capture.value) :
    Present evt.item.cap := by
  obtain ⟨item, -, rfl⟩ := Option.map_eq_some_iff.1 h
  have capture : (ctx.dp.classifyItem (ctx.dp.itemName item)).kind = .capture :=
    ItemKind.value_inj.1 kind
  have named : (ctx.receivedRef item ni.flags).cap = some (ctx.dp.itemName item) :=
    ctx.dp.classifyItem_cap capture
  refine ⟨ctx.dp.itemName item, named, ?_⟩
  intro empty
  rw [empty, ctx.dp.classifyItem_unnamed] at capture
  cases capture

/-- A Multi-Moon that brings a bonus is not classed as an ability. -/
theorem parse_multiMoon {ni : NetworkItem} {evt : ItemEvent} {name : String}
    (h : ctx.parseReceivedItem ni = some evt) (hname : evt.item.name = some name)
    (bonus : name ∈ [mushroomMultiMoon, darkSideMultiMoon]) :
    evt.item.kind ≠ ItemKind.ability.value := by
  obtain ⟨item, -, names, kinds⟩ := parse_name h
  have same : ctx.dp.itemName item = name := Option.some.inj (names.symm.trans hname)
  have class_ne := ctx.dp.classifyItem_multiMoon bonus
  intro ability
  rw [kinds, same] at ability
  exact class_ne (ItemKind.value_inj.1 ability)

end Context

end SmoArchipelago.Bridge
