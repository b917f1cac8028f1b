import SmoArchipelago.Bridge.Checks

/-! # Reloading the maps

A reload tells a change by the number of entries and guards a map by the length of the raw
list. It keeps its promises where a file of as many entries has the same content, and where
no list is made of invalid entries alone. -/

namespace SmoArchipelago.Bridge

open Library

/-- What a reload uses of a kind of map, and the content by which maps are compared. -/
structure Reloading (α ε : Type) where
  size : α → ℕ
  load : List ε → α
  Same : α → α → Prop
  refl : ∀ m, Same m m
  size_eq : ∀ {m m'}, Same m m' → size m = size m'
  size_nil : size (load []) = 0

/-- The three tables hold the same. -/
structure ShineMap.Same (m m' : ShineMap) : Prop where
  byPair : m.byPair.Same m'.byPair
  byUid : m.byUid.Same m'.byUid
  uidByLocation : m.uidByLocation.Same m'.uidByLocation

structure CaptureMap.Same (m m' : CaptureMap) : Prop where
  table : m.table.Same m'.table
  reverse : m.reverse.Same m'.reverse

def shineReloading : Reloading ShineMap ShineEntry where
  size := ShineMap.size
  load := ShineMap.load
  Same := ShineMap.Same
  refl := fun _ => ⟨fun _ => rfl, fun _ => rfl, fun _ => rfl⟩
  size_eq := fun same => same.byPair.size_eq
  size_nil := rfl

def captureReloading : Reloading CaptureMap CaptureEntry where
  size := CaptureMap.size
  load := CaptureMap.load
  Same := CaptureMap.Same
  refl := fun _ => ⟨fun _ => rfl, fun _ => rfl⟩
  size_eq := fun same => same.table.size_eq
  size_nil := rfl

/-- Maps of the same content resolve alike. -/
theorem ShineMap.Same.resolve {m m' : ShineMap} (same : m.Same m')
    (stageName objectId : Option String) (shineUid : Option ℤ) :
    m.resolve stageName objectId shineUid = m'.resolve stageName objectId shineUid := by
  have byUid : m.byUid? shineUid = m'.byUid? shineUid := by
    cases shineUid with
    | none => rfl
    | some uid => rw [ShineMap.byUid?, ShineMap.byUid?, same.byUid uid]
  rw [ShineMap.resolve, ShineMap.resolve, same.byPair, byUid]

section Laws

variable {α ε : Type} (k : Reloading α ε) (file : Option (MapFile ε)) (target : α)

/-- The file is missing or malformed, or would empty a map that is not empty. -/
def Refused : Prop :=
  ∀ es, file = some (.entries es) → 0 < k.size target ∧ k.size (k.load es) = 0

/-- What a reload of one map is to do. -/
structure ReloadLaws : Prop where
  kept : Refused k file target → (reloadOne k.size k.load file target).1 = target
  loaded : ∀ es, file = some (.entries es) → ¬ Refused k file target →
    (reloadOne k.size k.load file target).1 = k.load es
  told : (reloadOne k.size k.load file target).2 = true ↔
    ¬ k.Same (reloadOne k.size k.load file target).1 target

/-- A list of entries that empties the map is empty, and as many entries are the same ones. -/
def Countable : Prop :=
  ∀ es, file = some (.entries es) →
    (0 < k.size target → k.size (k.load es) = 0 → es = []) ∧
      (k.size (k.load es) = k.size target → k.Same (k.load es) target)

variable {k file target}

/-- The two ways of a reload of a list of entries. -/
theorem reloadOne_entries (k : Reloading α ε) (target : α) (es : List ε) :
    ((0 < k.size target ∧ es = []) ∧
        reloadOne k.size k.load (some (.entries es)) target = (target, false)) ∨
      (¬ (0 < k.size target ∧ es = []) ∧
        reloadOne k.size k.load (some (.entries es)) target =
          (k.load es, decide (k.size (k.load es) ≠ k.size target))) := by
  by_cases guarded : 0 < k.size target ∧ es = []
  · refine .inl ⟨guarded, if_pos ?_⟩
    rw [List.length_eq_zero_iff]
    exact guarded
  · refine .inr ⟨guarded, (if_neg ?_).trans ?_⟩
    · rw [List.length_eq_zero_iff]
      exact guarded
    · rw [Prod.mk.injEq]
      refine ⟨rfl, decide_eq_decide.2 (or_iff_left_of_imp ?_)⟩
      rintro ⟨empty, some_entry⟩
      omega

/-- A reload without a list of entries leaves the map and tells no change. -/
theorem reloadOne_refused (no_entries : ∀ es, file ≠ some (.entries es)) :
    reloadOne k.size k.load file target = (target, false) := by
  cases file with
  | none => rfl
  | some content =>
      cases content with
      | malformed => rfl
      | entries es => exact absurd rfl (no_entries es)

theorem reloadLaws_iff : ReloadLaws k file target ↔ Countable k file target := by
  constructor
  · rintro ⟨kept, loaded, told⟩ es rfl
    rcases reloadOne_entries k target es with
      ⟨⟨populated, rfl⟩, -⟩ | ⟨unguarded, reloaded⟩
    · refine ⟨fun _ _ => rfl, fun same_size => ?_⟩
      rw [k.size_nil] at same_size
      omega
    · rw [reloaded] at kept told
      constructor
      · intro populated emptied
        by_contra some_entry
        have same := kept fun es' here => by
          cases here
          exact ⟨populated, emptied⟩
        dsimp only at same
        rw [← same, emptied] at populated
        exact absurd populated (lt_irrefl 0)
      · intro same_size
        by_contra different
        have changed := told.2 different
        simp [same_size] at changed
  · intro countable
    by_cases entries : ∃ es, file = some (.entries es)
    · obtain ⟨es, rfl⟩ := entries
      obtain ⟨guard, same_count⟩ := countable es rfl
      rcases reloadOne_entries k target es with
        ⟨⟨populated, rfl⟩, kept⟩ | ⟨unguarded, reloaded⟩
      · have refused : Refused k (some (.entries [])) target := fun es' here => by
          cases here
          exact ⟨populated, k.size_nil⟩
        constructor
        · exact fun _ => congrArg Prod.fst kept
        · exact fun es' _ allowed => absurd refused allowed
        · rw [kept]
          exact iff_of_false Bool.false_ne_true (not_not.2 (k.refl target))
      · constructor
        · intro refused
          obtain ⟨populated, emptied⟩ := refused es rfl
          exact absurd ⟨populated, guard populated emptied⟩ unguarded
        · intro es' here _
          cases here
          exact congrArg Prod.fst reloaded
        · rw [reloaded, decide_eq_true_eq]
          constructor
          · exact fun more same => more (k.size_eq same)
          · exact fun different same_size => different (same_count same_size)
    · have untouched : reloadOne k.size k.load file target = (target, false) :=
        reloadOne_refused fun es here => entries ⟨es, here⟩
      constructor
      · exact fun _ => congrArg Prod.fst untouched
      · exact fun es here => absurd ⟨es, here⟩ entries
      · rw [untouched]
        exact iff_of_false Bool.false_ne_true (not_not.2 (k.refl target))

end Laws

/-! ## Both maps, and the check that looked for a moon -/

/-- What the reload of both maps is to do, for a missed check too. -/
structure MapsReload (ctx : Context) (disk : Disk) : Prop where
  shine : ReloadLaws shineReloading disk.shineFile ctx.shineMap
  capture : ReloadLaws captureReloading disk.captureFile ctx.captureMap
  retried : ∀ (c : Check) (es : List ShineEntry) (res : MoonResolution),
    c.kind.getD ItemKind.moon.value = ItemKind.moon.value →
    Present c.stageName ∨ Present c.objectId →
    ctx.shineMap.resolve c.stageName c.objectId c.shineUid = none →
    disk.shineFile = some (.entries es) →
    (ShineMap.load es).resolve c.stageName c.objectId c.shineUid = some res →
    (ctx.checkLocationName disk c).2 = some (reconstructLocationName
      (c.kind.getD ItemKind.moon.value) (some res.kingdom) (some res.shineId) c.cap)

/-- A missed moon that the file knows is found in the same call. -/
theorem retried_of_countable {ctx : Context} {disk : Disk}
    (countable : Countable shineReloading disk.shineFile ctx.shineMap) {c : Check}
    {es : List ShineEntry} {res : MoonResolution}
    (moon : c.kind.getD ItemKind.moon.value = ItemKind.moon.value)
    (raw : Present c.stageName ∨ Present c.objectId)
    (missed : ctx.shineMap.resolve c.stageName c.objectId c.shineUid = none)
    (on_disk : disk.shineFile = some (.entries es))
    (known : (ShineMap.load es).resolve c.stageName c.objectId c.shineUid = some res) :
    (ctx.checkLocationName disk c).2 = some (reconstructLocationName
      (c.kind.getD ItemKind.moon.value) (some res.kingdom) (some res.shineId) c.cap) := by
  have grown : (ShineMap.load es).size ≠ ctx.shineMap.size := by
    intro same_size
    have same : (ShineMap.load es).Same ctx.shineMap := (countable es on_disk).2 same_size
    rw [same.resolve, missed] at known
    cases known
  have reloaded : reloadOne ShineMap.size ShineMap.load disk.shineFile ctx.shineMap =
      (ShineMap.load es, true) := by
    rw [on_disk]
    rcases reloadOne_entries shineReloading ctx.shineMap es with
      ⟨⟨-, rfl⟩, -⟩ | ⟨-, reloaded⟩
    · have unknown : (ShineMap.load []).resolve c.stageName c.objectId c.shineUid = none := by
        rcases uid : c.shineUid with _ | uid <;> simp [ShineMap.load, ShineMap.resolve, ShineMap.byUid?]
      rw [unknown] at known
      cases known
    · refine reloaded.trans (congrArg (Prod.mk _) (decide_eq_true ?_))
      exact grown
  have due : ctx.reloadDue disk true = true := rfl
  simp only [Context.checkLocationName, Context.reloadMaps, due, if_true, reloaded, missed, known,
    if_pos (And.intro moon raw), Option.map_some]

/-- A reload does what it is to do exactly where, for either map, a list of entries that would
empty it is empty, and one of as many entries has the same content. -/
theorem mapsReload_iff (ctx : Context) (disk : Disk) :
    MapsReload ctx disk ↔ Countable shineReloading disk.shineFile ctx.shineMap ∧
      Countable captureReloading disk.captureFile ctx.captureMap := by
  constructor
  · rintro ⟨shine, capture, -⟩
    exact ⟨reloadLaws_iff.1 shine, reloadLaws_iff.1 capture⟩
  · rintro ⟨shine, capture⟩
    constructor
    · exact reloadLaws_iff.2 shine
    · exact reloadLaws_iff.2 capture
    · exact fun c es res => retried_of_countable shine

/-- A moon of a stage, and the map that has it alone. -/
def oneMoon (object : String) (uid : ℤ) : ShineEntry where
  stageName := some "CapWorldHomeStage"
  objectId := some object
  kingdom := some "Cap"
  shineId := some object
  shineUid := some uid

def swappedDisk : Disk where
  shineFile := some (.entries [oneMoon "MoonFrog" 2])

def swappedContext : Context where
  dp := samplePackage
  shineMap := ShineMap.load [oneMoon "MoonFirst" 1]

/-- A file with another moon in the place of the one in memory changes the map, and the check of
the new moon is lost. -/
theorem swapped_moon_lost : ¬ MapsReload swappedContext swappedDisk := by
  intro reload
  have retried := reload.retried
    { kind := some "moon", stageName := some "CapWorldHomeStage", objectId := some "MoonFrog" }
    [oneMoon "MoonFrog" 2] ⟨"Cap", "MoonFrog"⟩ rfl (.inl (by decide)) (by decide) rfl (by decide)
  exact absurd retried (by decide)

end SmoArchipelago.Bridge
