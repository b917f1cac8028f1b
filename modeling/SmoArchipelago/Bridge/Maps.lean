import SmoArchipelago.Library.Dict
import SmoArchipelago.Bridge.Protocol

/-! # Resolution maps

The tables that translate the Switch's raw identifiers to the names of the data
package, and their reload from disk. -/

namespace SmoArchipelago.Bridge

open Library

structure MoonResolution where
  kingdom : String
  shineId : String
  deriving DecidableEq

/-- An object of `shine_map.json`. -/
structure ShineEntry where
  stageName : Option String := none
  objectId : Option String := none
  kingdom : Option String := none
  shineId : Option String := none
  shineUid : Option ℤ := none

structure ShineMap where
  byPair : Dict (String × String) MoonResolution := .empty
  byUid : Dict ℤ MoonResolution := .empty
  uidByLocation : Dict (String × String) ℤ := .empty

namespace ShineMap

def size (m : ShineMap) : ℕ := m.byPair.size

/-- Add one entry; an entry with a missing or empty name is skipped. -/
def loadEntry (m : ShineMap) (e : ShineEntry) : ShineMap :=
  if Present e.stageName ∧ Present e.objectId ∧ Present e.kingdom ∧ Present e.shineId then
    let res : MoonResolution := ⟨e.kingdom.getD "", e.shineId.getD ""⟩
    { byPair := m.byPair.set (e.stageName.getD "", e.objectId.getD "") res
      byUid := match e.shineUid with
        | some uid => m.byUid.set uid res
        | none => m.byUid
      uidByLocation := match e.shineUid with
        | some uid => m.uidByLocation.set (res.kingdom, res.shineId) uid
        | none => m.uidByLocation }
  else m

def load (es : List ShineEntry) : ShineMap := es.foldl loadEntry {}

def byUid? (m : ShineMap) : Option ℤ → Option MoonResolution
  | some uid => if 0 ≤ uid then m.byUid.get? uid else none
  | none => none

/-- By stage and object where both are there, else by a non-negative uid. -/
def resolve (m : ShineMap) (stageName objectId : Option String) (shineUid : Option ℤ) :
    Option MoonResolution :=
  if Present stageName ∧ Present objectId then
    match m.byPair.get? (stageName.getD "", objectId.getD "") with
    | some res => some res
    | none => m.byUid? shineUid
  else m.byUid? shineUid

/-- The uid of a location. -/
def resolveUidByLocation (m : ShineMap) (kingdom shineId : Option String) : Option ℤ :=
  if Present kingdom ∧ Present shineId then
    m.uidByLocation.get? (kingdom.getD "", shineId.getD "")
  else none

end ShineMap

/-- An object of `capture_map.json`. -/
structure CaptureEntry where
  hackName : Option String := none
  cap : Option String := none

structure CaptureMap where
  table : Dict String String := .empty
  reverse : Dict String String := .empty

/-- The hack names of the variant items that share one journal name. -/
def variantCapHackOverride : List (String × String) :=
  [("Puzzle Part (Lake Kingdom)", "GotogotonLake"),
    ("Puzzle Part (Metro Kingdom)", "GotogotonCity"),
    ("Picture Match Part (Goomba)", "FukuwaraiFacePartsKuribo"),
    ("Picture Match Part (Mario)", "FukuwaraiFacePartsMario")]

namespace CaptureMap

def size (m : CaptureMap) : ℕ := m.table.size

/-- Add one entry. The first hack name of a capture stays its reverse image. -/
def loadEntry (m : CaptureMap) (e : CaptureEntry) : CaptureMap :=
  if Present e.hackName ∧ Present e.cap then
    let hack := e.hackName.getD ""
    let cap := e.cap.getD ""
    { table := m.table.set hack cap
      reverse := if (m.reverse.get? cap).isSome then m.reverse else m.reverse.set cap hack }
  else m

def load (es : List CaptureEntry) : CaptureMap := es.foldl loadEntry {}

def resolve (m : CaptureMap) (hackName : Option String) : Option String :=
  if Present hackName then some (m.table.getD (hackName.getD "") (hackName.getD "")) else none

/-- The hack name of a capture; a capture without an entry stands for itself. -/
def capToHack (m : CaptureMap) (cap : Option String) : Option String :=
  if Present cap then
    match variantCapHackOverride.find? fun p => p.1 = cap.getD "" with
    | some p => some p.2
    | none => some (m.reverse.getD (cap.getD "") (cap.getD ""))
  else none

/-- Every capture with its hack name, in the order of the names. -/
def iterAll (m : CaptureMap) : List (String × String) :=
  m.reverse.entries.mergeSort fun p q => p.1 < q.1 || (p.1 = q.1 && p.2 ≤ q.2)

end CaptureMap

/-- A map file that is there: it parses to a list of objects, or it does not. -/
inductive MapFile (ε : Type) where
  | malformed
  | entries (es : List ε)

/-- Replace a table by the file's content and tell whether the number of its entries
changed. A missing or malformed file, and an empty file where the table is not, leave
the table as it is. -/
def reloadOne {α ε : Type} (size : α → ℕ) (load : List ε → α) (file : Option (MapFile ε))
    (target : α) : α × Bool :=
  match file with
  | some (.entries es) =>
      if 0 < size target ∧ es.length = 0 then (target, false)
      else (load es, size (load es) ≠ size target ∨ (size target = 0 ∧ 0 < size (load es)))
  | _ => (target, false)

/-- A second reload of the same file changes nothing. -/
theorem reloadOne_again {α ε : Type} (size : α → ℕ) (load : List ε → α)
    (file : Option (MapFile ε)) (target : α) :
    (reloadOne size load file (reloadOne size load file target).1).1 =
      (reloadOne size load file target).1 := by
  cases file with
  | none => rfl
  | some content =>
      cases content with
      | malformed => rfl
      | entries es =>
          by_cases keep : 0 < size target ∧ es.length = 0
          · have kept : reloadOne size load (some (.entries es)) target = (target, false) :=
              if_pos keep
            rw [kept]
            exact congrArg Prod.fst kept
          · have loaded : (reloadOne size load (some (.entries es)) target).1 = load es :=
              congrArg Prod.fst (if_neg keep)
            rw [loaded]
            simp only [reloadOne]
            split_ifs <;> rfl

/-- The map files and the time the setup wizard last wrote them. -/
structure Disk where
  sentinel : Option ℕ := none
  shineFile : Option (MapFile ShineEntry) := none
  captureFile : Option (MapFile CaptureEntry) := none

end SmoArchipelago.Bridge
