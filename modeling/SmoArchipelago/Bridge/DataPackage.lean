import SmoArchipelago.Bridge.Protocol

/-! # Item classification

The server's data package gives names to ids; the item table of the world gives
categories to names. An item is classified by its categories, and a moon item's
kingdom is read off its name. -/

namespace SmoArchipelago.Bridge

structure ClassifiedItem where
  kind : ItemKind
  name : String
  kingdom : Option String := none
  shineId : Option String := none
  cap : Option String := none

def ClassifiedItem.toRef (ci : ClassifiedItem) : ItemRef where
  kind := ci.kind.value
  kingdom := ci.kingdom
  shineId := ci.shineId
  cap := ci.cap
  name := some ci.name

/-- The white space that `str.strip` removes. -/
def isSpace (c : Char) : Bool :=
  let n := c.toNat
  (9 ≤ n && n ≤ 13) || (28 ≤ n && n ≤ 32) || n = 0x85 || n = 0xa0 || n = 0x1680 ||
    (0x2000 ≤ n && n ≤ 0x200a) || n = 0x2028 || n = 0x2029 || n = 0x202f || n = 0x205f ||
    n = 0x3000

def strip (drop : Char → Bool) (s : String) : String :=
  String.ofList ((s.toList.dropWhile drop).reverse.dropWhile drop).reverse

/-- ` (Power Moon|Multi-Moon)$`, where `$` also matches before a final line feed. -/
def moonTail (cs : List Char) : Option String :=
  ["Power Moon", "Multi-Moon"].find? fun tail =>
    cs = ' ' :: tail.toList || cs = ' ' :: tail.toList ++ ['\n']

/-- `(?: Kingdom)?` before the tail, taken where that lets the tail match. -/
def moonRest (cs : List Char) : Option String :=
  if " Kingdom".toList.isPrefixOf cs then
    (moonTail (cs.drop " Kingdom".length)).orElse fun _ => moonTail cs
  else moonTail cs

/-- `_ITEM_MOON_KINGDOM_RE`: the shortest head, of at least one character and no
line feed, after which the rest matches. -/
def itemMoonKingdom (head : List Char) : List Char → Option (String × String)
  | [] => none
  | c :: cs =>
      if c = '\n' then none
      else
        match moonRest cs with
        | some tail => some (String.ofList (head ++ [c]), tail)
        | none => itemMoonKingdom (head ++ [c]) cs

def lower (s : String) : String := String.ofList (s.toList.map Char.toLower)

def mushroomMultiMoon : String := "Mushroom Kingdom Multi-Moon"

def darkSideMultiMoon : String := "Dark Side Multi-Moon"

/-- The server's names and the world's item table. The table skips entries without a
name and lists both bonus Multi-Moons as moons, never as abilities. -/
structure DataPackage where
  itemIdToName : ℤ → Option String
  locationNameToId : String → Option ℤ
  itemCategories : String → List String
  unnamed : itemCategories "" = []
  multiMoons : ∀ name ∈ [mushroomMultiMoon, darkSideMultiMoon],
    "ability" ∉ (itemCategories name).map lower

namespace DataPackage

variable (dp : DataPackage)

/-- `item_id_to_name`, with a placeholder for an id that has no name. -/
def itemName (item : ℤ) : String :=
  (dp.itemIdToName item).getD ("<unknown:" ++ toString item ++ ">")

def classifyItem (name : String) : ClassifiedItem :=
  let cats := (dp.itemCategories name).map lower
  if "capture" ∈ cats then { kind := .capture, name, cap := some name }
  else if "ability" ∈ cats then { kind := .ability, name }
  else if "moon" ∈ cats then
    match itemMoonKingdom [] name.toList with
    | some (kingdom, shineId) =>
        { kind := .moon, name, kingdom := some (strip isSpace kingdom), shineId := some shineId }
    | none => { kind := .other, name }
  else { kind := .other, name }

/-- The four shapes a classified item can have. -/
theorem classifyItem_cases (name : String) :
    dp.classifyItem name = { kind := .capture, name, cap := some name } ∨
      (dp.classifyItem name = { kind := .ability, name } ∧
        "ability" ∈ (dp.itemCategories name).map lower) ∨
      (∃ kingdom shineId, dp.classifyItem name = { kind := .moon, name, kingdom, shineId }) ∨
      dp.classifyItem name = { kind := .other, name } := by
  unfold classifyItem
  dsimp only
  split_ifs with capture ability moon
  · exact .inl rfl
  · exact .inr (.inl ⟨rfl, ability⟩)
  · cases itemMoonKingdom [] name.toList with
    | some found => exact .inr (.inr (.inl ⟨_, _, rfl⟩))
    | none => exact .inr (.inr (.inr rfl))
  · exact .inr (.inr (.inr rfl))

@[simp] theorem classifyItem_name (name : String) : (dp.classifyItem name).name = name := by
  rcases dp.classifyItem_cases name with h | ⟨h, -⟩ | ⟨_, _, h⟩ | h <;> rw [h]

/-- A capture item carries its name as its cap. -/
theorem classifyItem_cap {name : String} (h : (dp.classifyItem name).kind = .capture) :
    (dp.classifyItem name).cap = some name := by
  rcases dp.classifyItem_cases name with c | ⟨c, -⟩ | ⟨_, _, c⟩ | c <;> rw [c] at h ⊢ <;> cases h

theorem classifyItem_unnamed : (dp.classifyItem "").kind = .other := by
  unfold classifyItem
  rw [dp.unnamed]
  rfl

theorem classifyItem_multiMoon {name : String}
    (h : name ∈ [mushroomMultiMoon, darkSideMultiMoon]) :
    (dp.classifyItem name).kind ≠ .ability := by
  rcases dp.classifyItem_cases name with c | ⟨-, listed⟩ | ⟨_, _, c⟩ | c
  · rw [c]
    nofun
  · exact absurd listed (dp.multiMoons name h)
  · rw [c]
    nofun
  · rw [c]
    nofun

end DataPackage

/-- A package with the two Multi-Moons, a moon and a capture. -/
def samplePackage : DataPackage where
  itemIdToName id :=
    if id = 1 then some mushroomMultiMoon
    else if id = 2 then some darkSideMultiMoon
    else if id = 3 then some "Cap Kingdom Power Moon"
    else if id = 4 then some "Frog"
    else none
  locationNameToId name :=
    if name = "Cap: Frog-Jumping Above the Fog" then some 11
    else if name = "Capture: Frog" then some 12
    else none
  itemCategories name :=
    if name = "Frog" then ["Capture"]
    else if name = "" then []
    else ["Moon"]
  unnamed := by decide
  multiMoons := by decide

example : itemMoonKingdom [] mushroomMultiMoon.toList = some ("Mushroom", "Multi-Moon") := by
  decide

example : itemMoonKingdom [] darkSideMultiMoon.toList = some ("Dark Side", "Multi-Moon") := by
  decide

end SmoArchipelago.Bridge
