import SmoArchipelago.Bridge.Checks
import SmoArchipelago.Library.Dict

/-! # Names and ids of the own game

The client copies the names of every game that it knows into one pair of dictionaries, in
the order in which it meets the games. A name or an id that two games share then stands
for whatever the later of them has.

## Implementation notes

`location_id_to_name` and `item_name_to_id` are filled alongside and read by nothing here. -/

namespace SmoArchipelago.Bridge

open Library

/-- The ids of one game and what they name: one name an id, one id a name. -/
structure NameTable where
  names : Dict ℤ String
  apart : names.values.Nodup
  positive : ∀ id ∈ names.keys, 0 < id

namespace NameTable

variable (t : NameTable)

def nameOf (id : ℤ) : Option String := t.names.get? id

def idOf (name : String) : Option ℤ :=
  lastOf (fun e => if e.2 = name then some e.1 else none) t.names.entries

theorem idOf_eq_some {name : String} {id : ℤ} :
    t.idOf name = some id ↔ (id, name) ∈ t.names.entries := by
  constructor
  · intro found
    obtain ⟨e, member, tells⟩ := exists_of_lastOf found
    obtain ⟨rfl, ⟨⟩⟩ := Option.ite_none_right_eq_some.1 tells
    exact member
  · intro member
    apply lastOf_eq_some
    · intro e here id' tells
      obtain ⟨named, ⟨⟩⟩ := Option.ite_none_right_eq_some.1 tells
      have same : e = (id, name) := List.inj_on_of_nodup_map t.apart here member named
      rw [same]
    · exact ⟨_, member, if_pos rfl⟩

theorem nameOf_eq_some {name : String} {id : ℤ} :
    t.nameOf id = some name ↔ (id, name) ∈ t.names.entries :=
  Dict.get?_eq_some

end NameTable

/-- The games that `CommonContext` knows, the client's own among them, with the order in
which the set of their titles is gone through. -/
structure KnownGames where
  itemNames : Dict String NameTable
  locationNames : Dict String NameTable
  gameName : String
  ownItems : NameTable
  ownLocations : NameTable
  own_items : itemNames.get? gameName = some ownItems
  own_locations : locationNames.get? gameName = some ownLocations
  games : List String
  each_once : games.Nodup
  mem_games : ∀ game, game ∈ games ↔ game ∈ itemNames.keys ∨ game ∈ locationNames.keys

namespace DataPackage

/-- An id of a location goes in where it is positive. -/
def addLocation (dp : DataPackage) (e : ℤ × String) : DataPackage :=
  if 0 < e.1 then
    { dp with locationNameToId := Function.update dp.locationNameToId e.2 (some e.1) }
  else dp

def addItem (dp : DataPackage) (e : ℤ × String) : DataPackage :=
  if 0 < e.1 then { dp with itemIdToName := Function.update dp.itemIdToName e.1 (some e.2) }
  else dp

/-- One round of the loop: a game that lacks either table is left out. -/
def addGame (known : KnownGames) (dp : DataPackage) (game : String) : DataPackage :=
  match known.locationNames.get? game, known.itemNames.get? game with
  | some locMap, some itemMap =>
      itemMap.names.entries.foldl addItem (locMap.names.entries.foldl addLocation dp)
  | _, _ => dp

/-- `_populate_datapackage_from_self`. -/
def populateFromSelf (known : KnownGames) (dp : DataPackage) : DataPackage :=
  known.games.foldl (addGame known) dp

/-- `update_from_ap`: the names of one game, whatever their ids. -/
def updateFromAp (itemMap locMap : Dict String ℤ) (dp : DataPackage) : DataPackage :=
  { dp with
    itemIdToName := itemMap.entries.foldl
      (fun names e => Function.update names e.2 (some e.1)) dp.itemIdToName
    locationNameToId := locMap.entries.foldl
      (fun ids e => Function.update ids e.1 (some e.2)) dp.locationNameToId }

/-- The item table of the world, with no name of any game yet. -/
def unloaded (dp : DataPackage) : DataPackage :=
  { dp with itemIdToName := fun _ => none, locationNameToId := fun _ => none }

end DataPackage

namespace KnownGames

variable (known : KnownGames)

/-- The id that a game has for a location, where the client knows both of its tables. -/
def locationId (name game : String) : Option ℤ :=
  match known.locationNames.get? game, known.itemNames.get? game with
  | some locMap, some _ => locMap.idOf name
  | _, _ => none

def itemName (id : ℤ) (game : String) : Option String :=
  match known.locationNames.get? game, known.itemNames.get? game with
  | some _, some itemMap => itemMap.nameOf id
  | _, _ => none

theorem gameName_mem : known.gameName ∈ known.games :=
  (known.mem_games _).2 (.inl (Dict.mem_keys_iff.2 ⟨_, known.own_items⟩))

theorem locationId_own (name : String) :
    known.locationId name known.gameName = known.ownLocations.idOf name := by
  unfold locationId
  rw [known.own_locations, known.own_items]

theorem itemName_own (id : ℤ) : known.itemName id known.gameName = known.ownItems.nameOf id := by
  unfold itemName
  rw [known.own_locations, known.own_items]

end KnownGames

namespace DataPackage

variable (known : KnownGames) (dp : DataPackage)

theorem addLocation_frame (e : ℤ × String) :
    (dp.addLocation e).itemIdToName = dp.itemIdToName ∧
      (dp.addLocation e).itemCategories = dp.itemCategories := by
  unfold addLocation
  split_ifs <;> exact ⟨rfl, rfl⟩

theorem addItem_frame (e : ℤ × String) :
    (dp.addItem e).locationNameToId = dp.locationNameToId ∧
      (dp.addItem e).itemCategories = dp.itemCategories := by
  unfold addItem
  split_ifs <;> exact ⟨rfl, rfl⟩

theorem foldl_addItem_frame (es : List (ℤ × String)) :
    (es.foldl addItem dp).locationNameToId = dp.locationNameToId ∧
      (es.foldl addItem dp).itemCategories = dp.itemCategories := by
  induction es generalizing dp with
  | nil => exact ⟨rfl, rfl⟩
  | cons e es ih =>
      obtain ⟨locations, categories⟩ := ih (dp.addItem e)
      obtain ⟨here, here'⟩ := dp.addItem_frame e
      exact ⟨locations.trans here, categories.trans here'⟩

theorem foldl_addLocation_frame (es : List (ℤ × String)) :
    (es.foldl addLocation dp).itemIdToName = dp.itemIdToName ∧
      (es.foldl addLocation dp).itemCategories = dp.itemCategories := by
  induction es generalizing dp with
  | nil => exact ⟨rfl, rfl⟩
  | cons e es ih =>
      obtain ⟨items, categories⟩ := ih (dp.addLocation e)
      obtain ⟨here, here'⟩ := dp.addLocation_frame e
      exact ⟨items.trans here, categories.trans here'⟩

/-- A table of locations overrides what its names stood for. -/
theorem locations_of_table (t : NameTable) (name : String) :
    (t.names.entries.foldl addLocation dp).locationNameToId name =
      (t.idOf name).or (dp.locationNameToId name) := by
  have writes : ∀ (dp : DataPackage) (e : ℤ × String),
      (dp.addLocation e).locationNameToId name =
        (if e.2 = name ∧ 0 < e.1 then some e.1 else none).or (dp.locationNameToId name) := by
    intro dp e
    unfold addLocation
    by_cases positive : 0 < e.1
    · by_cases here : e.2 = name
      · simp [positive, here]
      · simp [positive, here, Function.update_of_ne (Ne.symm here)]
    · simp [positive]
  rw [read_foldl (fun dp : DataPackage => dp.locationNameToId name) writes]
  congr 1
  apply lastOf_congr
  intro e member
  have positive : 0 < e.1 := t.positive e.1 (List.mem_map_of_mem member)
  simp [positive]

theorem items_of_table (t : NameTable) (id : ℤ) :
    (t.names.entries.foldl addItem dp).itemIdToName id =
      (t.nameOf id).or (dp.itemIdToName id) := by
  have writes : ∀ (dp : DataPackage) (e : ℤ × String),
      (dp.addItem e).itemIdToName id =
        (if e.1 = id ∧ 0 < e.1 then some e.2 else none).or (dp.itemIdToName id) := by
    intro dp e
    unfold addItem
    by_cases positive : 0 < e.1
    · by_cases here : e.1 = id
      · subst here
        simp [positive]
      · simp [positive, here, Function.update_of_ne (Ne.symm here)]
    · simp [positive]
  rw [read_foldl (fun dp : DataPackage => dp.itemIdToName id) writes]
  congr 1
  apply Option.ext
  intro name
  constructor
  · intro last
    obtain ⟨e, member, tells⟩ := exists_of_lastOf last
    obtain ⟨⟨rfl, -⟩, ⟨⟩⟩ := Option.ite_none_right_eq_some.1 tells
    exact t.nameOf_eq_some.2 member
  · intro named
    have member := t.nameOf_eq_some.1 named
    apply lastOf_eq_some
    · intro e here name' tells
      obtain ⟨⟨same, -⟩, ⟨⟩⟩ := Option.ite_none_right_eq_some.1 tells
      have both : e = (id, name) := List.inj_on_of_nodup_map t.names.distinct here member same
      rw [both]
    · exact ⟨_, member, if_pos ⟨rfl, t.positive id (List.mem_map_of_mem member)⟩⟩

theorem locations_addGame (name game : String) :
    (addGame known dp game).locationNameToId name =
      (known.locationId name game).or (dp.locationNameToId name) := by
  unfold addGame KnownGames.locationId
  cases known.locationNames.get? game with
  | none => rfl
  | some locMap =>
      cases known.itemNames.get? game with
      | none => rfl
      | some itemMap =>
          dsimp only
          rw [(foldl_addItem_frame _ _).1, locations_of_table]

theorem items_addGame (id : ℤ) (game : String) :
    (addGame known dp game).itemIdToName id =
      (known.itemName id game).or (dp.itemIdToName id) := by
  unfold addGame KnownGames.itemName
  cases known.locationNames.get? game with
  | none => rfl
  | some locMap =>
      cases known.itemNames.get? game with
      | none => rfl
      | some itemMap =>
          dsimp only
          rw [items_of_table, (foldl_addLocation_frame _ _).1]

/-- A location resolves to what it is in the last game that has it. -/
theorem locations_populate (name : String) :
    (dp.populateFromSelf known).locationNameToId name =
      (lastOf (known.locationId name) known.games).or (dp.locationNameToId name) :=
  read_foldl (fun dp : DataPackage => dp.locationNameToId name)
    (fun dp game => locations_addGame known dp name game) known.games dp

theorem items_populate (id : ℤ) :
    (dp.populateFromSelf known).itemIdToName id =
      (lastOf (known.itemName id) known.games).or (dp.itemIdToName id) :=
  read_foldl (fun dp : DataPackage => dp.itemIdToName id)
    (fun dp game => items_addGame known dp id game) known.games dp

theorem categories_addGame (game : String) :
    (addGame known dp game).itemCategories = dp.itemCategories := by
  unfold addGame
  cases known.locationNames.get? game with
  | none => rfl
  | some locMap =>
      cases known.itemNames.get? game with
      | none => rfl
      | some itemMap => exact (foldl_addItem_frame _ _).2.trans (foldl_addLocation_frame _ _).2

@[simp] theorem categories_populate :
    (dp.populateFromSelf known).itemCategories = dp.itemCategories := by
  unfold populateFromSelf
  generalize known.games = games
  induction games generalizing dp with
  | nil => rfl
  | cons game games ih => rw [List.foldl_cons, ih, categories_addGame]

theorem classifyItem_congr {dp dp' : DataPackage} (categories : dp.itemCategories = dp'.itemCategories)
    (name : String) : dp.classifyItem name = dp'.classifyItem name := by
  unfold classifyItem
  rw [categories]

end DataPackage

/-- Some check that the Switch can send is resolved to the name. -/
def Stands (name : String) : Prop :=
  ∃ kind kingdom shineId cap, reconstructLocationName kind kingdom shineId cap = name

/-- With this data package the client reads every name and id as its own game's: a location
has its own id, an item is classified under its own name, a report sends an own location. -/
structure ResolvesOwn (known : KnownGames) (dp : DataPackage) : Prop where
  locations : ∀ e ∈ known.ownLocations.names.entries, dp.locationNameToId e.2 = some e.1
  items : ∀ e ∈ known.ownItems.names.entries, ∀ (ctx : Context) (ni : NetworkItem),
    ctx.dp = dp → ni.item = some e.1 → ∃ evt, ctx.parseReceivedItem ni = some evt ∧
      evt.item = { (dp.classifyItem e.2).toRef with
        hackName := evt.item.hackName, classification := evt.item.classification }
  reports : ∀ (ctx : Context) (disk : Disk) (c : Check) (name : String) (id : ℤ),
    ctx.dp = dp → (ctx.beginReport disk c).2 = .sending name id →
      (id, name) ∈ known.ownLocations.names.entries

/-- No game has the last word on what the own game has otherwise, and no game but the own
one on a name that a check can stand for. -/
structure Undisputed (known : KnownGames) (dp : DataPackage) : Prop where
  items : ∀ e ∈ known.ownItems.names.entries,
    ∀ name ∈ lastOf (known.itemName e.1) known.games, name = e.2
  locations : ∀ e ∈ known.ownLocations.names.entries,
    ∀ id ∈ lastOf (known.locationId e.2) known.games, id = e.1
  others : ∀ name, Stands name → ∀ id ∈ lastOf (known.locationId name) known.games,
    (id, name) ∈ known.ownLocations.names.entries
  /-- No name is left over from games that the client does not know any more. -/
  before : ∀ name, Stands name → lastOf (known.locationId name) known.games = none →
    dp.locationNameToId name = none

section Resolution

variable (known : KnownGames) (dp : DataPackage)

/-- The own game is among the games, so some game has each of its names. -/
theorem lastOf_own_location {e : ℤ × String}
    (own : e ∈ known.ownLocations.names.entries) :
    ∃ id, lastOf (known.locationId e.2) known.games = some id := by
  cases last : lastOf (known.locationId e.2) known.games with
  | some id => exact ⟨id, rfl⟩
  | none =>
      have silent := lastOf_eq_none.1 last _ known.gameName_mem
      rw [known.locationId_own, known.ownLocations.idOf_eq_some.2 own] at silent
      cases silent

theorem lastOf_own_item {e : ℤ × String} (own : e ∈ known.ownItems.names.entries) :
    ∃ name, lastOf (known.itemName e.1) known.games = some name := by
  cases last : lastOf (known.itemName e.1) known.games with
  | some name => exact ⟨name, rfl⟩
  | none =>
      have silent := lastOf_eq_none.1 last _ known.gameName_mem
      rw [known.itemName_own, known.ownItems.nameOf_eq_some.2 own] at silent
      cases silent

/-- A check with canonical fields and nothing else is resolved by them. -/
theorem beginReport_canonical (ctx : Context) (disk : Disk) (kind : String)
    (kingdom shineId cap : Option String) (id : ℤ)
    (resolved : ctx.dp.locationNameToId (reconstructLocationName kind kingdom shineId cap) =
      some id) (unsent : id ∉ ctx.locationsChecked) :
    (ctx.beginReport disk { kind := some kind, kingdom, shineId, cap }).2 =
      .sending (reconstructLocationName kind kingdom shineId cap) id := by
  have named : ctx.checkLocationName disk { kind := some kind, kingdom, shineId, cap } =
      (ctx, some (reconstructLocationName kind kingdom shineId cap)) := by
    unfold Context.checkLocationName
    simp
  unfold Context.beginReport
  dsimp only
  rw [named]
  simp [resolved, unsent]

variable {known dp}

/-- Undisputed names and ids resolve in the own game. -/
theorem resolvesOwn_of_undisputed (clear : Undisputed known dp) :
    ResolvesOwn known (dp.populateFromSelf known) where
  locations := by
    intro e own
    obtain ⟨id, last⟩ := lastOf_own_location known own
    rw [dp.locations_populate, last, clear.locations e own id last]
    rfl
  items := by
    intro e own ctx ni filled item
    obtain ⟨name, last⟩ := lastOf_own_item known own
    have named : (dp.populateFromSelf known).itemName e.1 = e.2 := by
      unfold DataPackage.itemName
      rw [dp.items_populate, last, clear.items e own name last]
      rfl
    refine ⟨_, by rw [Context.parseReceivedItem, item, Option.map_some], ?_⟩
    simp only [Context.receivedRef, filled, named]
  reports := by
    intro ctx disk c name id filled sent
    obtain ⟨resolution, resolved, -⟩ := Context.beginReport_sending sent
    obtain ⟨kind, kingdom, shineId, cap, rfl⟩ :=
      (ctx.checkLocationName_spec disk c).2.2 name resolution
    have stands : Stands (reconstructLocationName kind kingdom shineId cap) := ⟨_, _, _, _, rfl⟩
    rw [filled, dp.locations_populate] at resolved
    rcases Option.or_eq_some_iff.1 resolved with last | ⟨silent, held⟩
    · exact clear.others _ stands id last
    · rw [clear.before _ stands silent] at held
      cases held

/-- A name that checks stand for resolves in the own game or not at all. -/
theorem ResolvesOwn.own_of_stands (right : ResolvesOwn known (dp.populateFromSelf known))
    {name : String} (stands : Stands name) {id : ℤ}
    (resolved : (dp.populateFromSelf known).locationNameToId name = some id) :
    (id, name) ∈ known.ownLocations.names.entries := by
  obtain ⟨kind, kingdom, shineId, cap, rfl⟩ := stands
  have sent := beginReport_canonical { dp := dp.populateFromSelf known } {} kind kingdom shineId
    cap id resolved (Finset.notMem_empty id)
  exact right.reports _ _ _ _ _ rfl sent

theorem undisputed_of_resolvesOwn (right : ResolvesOwn known (dp.populateFromSelf known)) :
    Undisputed known dp where
  items := by
    intro e own name last
    obtain ⟨evt, parsed, evt_eq⟩ :=
      right.items e own { dp := dp.populateFromSelf known } { item := some e.1 } rfl rfl
    obtain ⟨item, ⟨⟩, named, -⟩ := Context.parse_name parsed
    have filled : (dp.populateFromSelf known).itemName e.1 = name := by
      unfold DataPackage.itemName
      rw [dp.items_populate, last]
      rfl
    have own_name : evt.item.name = some e.2 := by
      rw [evt_eq]
      exact congrArg some (DataPackage.classifyItem_name _ _)
    calc name = (dp.populateFromSelf known).itemName e.1 := filled.symm
      _ = e.2 := Option.some.inj (named.symm.trans own_name)
  locations := by
    intro e own id last
    have resolved := right.locations e own
    rw [dp.locations_populate, last] at resolved
    exact Option.some.inj resolved
  others := by
    intro name stands id last
    apply right.own_of_stands stands
    rw [dp.locations_populate, last]
    rfl
  before := by
    intro name stands silent
    cases held : dp.locationNameToId name with
    | none => rfl
    | some id =>
        have own : (id, name) ∈ known.ownLocations.names.entries := by
          apply right.own_of_stands stands
          rw [dp.locations_populate, silent, held]
          rfl
        obtain ⟨id', last⟩ := lastOf_own_location known own
        rw [silent] at last
        cases last

end Resolution

/-- The client reads the own game's names and ids as its own exactly where no other game
has the last word on them, and none a word on a name that checks stand for. -/
theorem resolvesOwn_iff (known : KnownGames) (dp : DataPackage) :
    ResolvesOwn known (dp.populateFromSelf known) ↔ Undisputed known dp :=
  ⟨undisputed_of_resolvesOwn, resolvesOwn_of_undisputed⟩

/-- A room of two games whose first item has the same id: the other game comes second. -/
def sharedIds : KnownGames where
  itemNames := ⟨[("Spicy Meatball Overdrive", ⟨⟨[(1, "Frog")], by decide⟩, by decide, by decide⟩),
    ("Clique", ⟨⟨[(1, "Sword")], by decide⟩, by decide, by decide⟩)], by decide⟩
  locationNames := ⟨[("Spicy Meatball Overdrive", ⟨.empty, by decide, by decide⟩),
    ("Clique", ⟨.empty, by decide, by decide⟩)], by decide⟩
  gameName := "Spicy Meatball Overdrive"
  ownItems := ⟨⟨[(1, "Frog")], by decide⟩, by decide, by decide⟩
  ownLocations := ⟨.empty, by decide, by decide⟩
  own_items := rfl
  own_locations := rfl
  games := ["Spicy Meatball Overdrive", "Clique"]
  each_once := by decide
  mem_games := by
    intro game
    simp [Dict.keys]

/-- The received Frog is read as the Sword of the other game. -/
theorem sharedIds_misread : ¬ ResolvesOwn sharedIds (samplePackage.populateFromSelf sharedIds) := by
  intro right
  have undisputed := (undisputed_of_resolvesOwn right).items (1, "Frog") (by decide) "Sword"
    (by decide)
  exact absurd undisputed (by decide)

/-- The names of the sample package, as a room of one game knows them. -/
def sampleGame : KnownGames where
  itemNames := ⟨[("Spicy Meatball Overdrive", ⟨⟨[(1, mushroomMultiMoon), (2, darkSideMultiMoon),
    (3, "Cap Kingdom Power Moon"), (4, "Frog")], by decide⟩, by decide, by decide⟩)], by decide⟩
  locationNames := ⟨[("Spicy Meatball Overdrive", ⟨⟨[(11, "Cap: Frog-Jumping Above the Fog"),
    (12, "Capture: Frog")], by decide⟩, by decide, by decide⟩)], by decide⟩
  gameName := "Spicy Meatball Overdrive"
  ownItems := ⟨⟨[(1, mushroomMultiMoon), (2, darkSideMultiMoon),
    (3, "Cap Kingdom Power Moon"), (4, "Frog")], by decide⟩, by decide, by decide⟩
  ownLocations := ⟨⟨[(11, "Cap: Frog-Jumping Above the Fog"), (12, "Capture: Frog")], by decide⟩,
    by decide, by decide⟩
  own_items := rfl
  own_locations := rfl
  games := ["Spicy Meatball Overdrive"]
  each_once := by decide
  mem_games := by
    intro game
    simp [Dict.keys]

end SmoArchipelago.Bridge
