import SmoArchipelago.Library.Runs
import SmoArchipelago.Bridge.Replay

/-! # The maps read backwards

A map is filled by loads on top of one another and by reloads that start afresh. Its reverse
tables are written apart from the forward ones: the uid of a moon stays when the uid goes to
another, and a capture keeps the first hack name it had. -/

namespace SmoArchipelago.Bridge

open Library Runs

/-! ## Calls -/

/-- A call that fills a map. A load that raises on the way has loaded what stood before. -/
inductive MapCall (ε : Type) where
  | load (es : List ε)
  | reload (file : MapFile ε)

namespace MapCall

variable {α ε : Type}

/-- A call on a map that is filled entry by entry. -/
def call (loadEntry : α → ε → α) (empty : α) (m : α) : MapCall ε → α
  | load es => es.foldl loadEntry m
  | reload .malformed => m
  | reload (.entries es) => es.foldl loadEntry empty

/-- The entries that a map is filled with after a call. -/
def layer (es : List ε) : MapCall ε → List ε
  | load es' => es ++ es'
  | reload .malformed => es
  | reload (.entries es') => es'

/-- The entries that a map has been filled with since it was last started afresh. -/
def layered (calls : List (MapCall ε)) : List ε := calls.foldl layer []

theorem run_call (loadEntry : α → ε → α) (empty : α) (calls : List (MapCall ε)) :
    run (call loadEntry empty) empty calls = (layered calls).foldl loadEntry empty := by
  induction calls using List.reverseRecOn with
  | nil => rfl
  | append_singleton calls c ih =>
      have layers : layered (calls ++ [c]) = layer (layered calls) c := by
        rw [layered, List.foldl_append]
        rfl
      rw [run_append, ih, layers]
      cases c with
      | load es => exact (List.foldl_append ..).symm
      | reload file => cases file <;> rfl

end MapCall

open MapCall (layered)

def ShineMap.call : ShineMap → MapCall ShineEntry → ShineMap := MapCall.call ShineMap.loadEntry {}

def CaptureMap.call : CaptureMap → MapCall CaptureEntry → CaptureMap :=
  MapCall.call CaptureMap.loadEntry {}

/-! ## Moons and their uids -/

/-- The moon that a valid entry is about, with its uid. -/
def ShineEntry.moon (e : ShineEntry) : Option MoonResolution :=
  if Present e.stageName ∧ Present e.objectId ∧ Present e.kingdom ∧ Present e.shineId then
    some ⟨e.kingdom.getD "", e.shineId.getD ""⟩
  else none

def ShineEntry.assigns (e : ShineEntry) : Option (MoonResolution × ℤ) :=
  e.moon.bind fun res => e.shineUid.map fun uid => (res, uid)

/-- The uid that the entry gives the moon, and the moon that it gives the uid. -/
def ShineEntry.uidFor (moon : MoonResolution) (e : ShineEntry) : Option ℤ :=
  e.assigns.bind fun a => if a.1 = moon then some a.2 else none

def ShineEntry.moonFor (uid : ℤ) (e : ShineEntry) : Option MoonResolution :=
  e.assigns.bind fun a => if a.2 = uid then some a.1 else none

theorem ShineEntry.uidFor_eq_some {moon : MoonResolution} {e : ShineEntry} {uid : ℤ} :
    e.uidFor moon = some uid ↔ e.assigns = some (moon, uid) := by
  unfold uidFor
  cases e.assigns with
  | none => simp
  | some a =>
      obtain ⟨moon', uid'⟩ := a
      by_cases same : moon' = moon <;> simp [same]

theorem ShineEntry.moonFor_eq_some {moon : MoonResolution} {e : ShineEntry} {uid : ℤ} :
    e.moonFor uid = some moon ↔ e.assigns = some (moon, uid) := by
  unfold moonFor
  cases e.assigns with
  | none => simp
  | some a =>
      obtain ⟨moon', uid'⟩ := a
      by_cases same : uid' = uid <;> simp [same]

namespace ShineMap

/-- One entry writes the two tables of uids, where it has a uid. -/
theorem loadEntry_uids (m : ShineMap) (e : ShineEntry) :
    (∀ moon : MoonResolution, (m.loadEntry e).uidByLocation.get? (moon.kingdom, moon.shineId) =
        (e.uidFor moon).or (m.uidByLocation.get? (moon.kingdom, moon.shineId))) ∧
      ∀ uid, (m.loadEntry e).byUid.get? uid = (e.moonFor uid).or (m.byUid.get? uid) := by
  unfold loadEntry ShineEntry.uidFor ShineEntry.moonFor ShineEntry.assigns ShineEntry.moon
  split_ifs with valid
  · cases e.shineUid with
    | none => exact ⟨fun _ => rfl, fun _ => rfl⟩
    | some uid =>
        constructor
        · intro moon
          simp only [Dict.get?_set, Option.bind_some, Option.map_some, Prod.mk.injEq]
          by_cases same : moon = ⟨e.kingdom.getD "", e.shineId.getD ""⟩
          · simp [same]
          · have other : ¬ (moon.kingdom = e.kingdom.getD "" ∧ moon.shineId = e.shineId.getD "") := by
              rintro ⟨kingdom, shineId⟩
              apply same
              rw [← kingdom, ← shineId]
            rw [if_neg other, if_neg fun h => same h.symm]
            rfl
        · intro uid'
          simp only [Dict.get?_set, Option.bind_some, Option.map_some]
          by_cases same : uid' = uid
          · simp [same]
          · rw [if_neg same, if_neg fun h => same h.symm]
            rfl
  · exact ⟨fun _ => rfl, fun _ => rfl⟩

theorem get?_uids (es : List ShineEntry) :
    (∀ moon : MoonResolution,
        (es.foldl loadEntry {}).uidByLocation.get? (moon.kingdom, moon.shineId) =
          lastOf (ShineEntry.uidFor moon) es) ∧
      ∀ uid, (es.foldl loadEntry {}).byUid.get? uid = lastOf (ShineEntry.moonFor uid) es := by
  constructor
  · intro moon
    rw [read_foldl (fun m : ShineMap => m.uidByLocation.get? (moon.kingdom, moon.shineId))
      fun m e => (loadEntry_uids m e).1 moon]
    exact Option.or_none
  · intro uid
    rw [read_foldl (fun m : ShineMap => m.byUid.get? uid) fun m e => (loadEntry_uids m e).2 uid]
    exact Option.or_none

/-- The uid of a location, read alone, is that of the location. -/
def UidsInverse (m : ShineMap) : Prop :=
  ∀ kingdom shineId uid, m.resolveUidByLocation (some kingdom) (some shineId) = some uid →
    m.resolve none none (some uid) = some ⟨kingdom, shineId⟩

/-- The uid that a moon has last is not negative, and no other moon was given it since. -/
def UidsSettled (es : List ShineEntry) : Prop :=
  ∀ es₁ e es₂ moon uid, es = es₁ ++ e :: es₂ → e.assigns = some (moon, uid) →
    (∀ e' ∈ es₂, e'.uidFor moon = none) → 0 ≤ uid ∧ ∀ e' ∈ es₂, e'.moonFor uid = none

theorem present_of_assigns {e : ShineEntry} {moon : MoonResolution} {uid : ℤ}
    (assigns : e.assigns = some (moon, uid)) : moon.kingdom ≠ "" ∧ moon.shineId ≠ "" := by
  obtain ⟨res, valid, given⟩ := Option.bind_eq_some_iff.1 assigns
  obtain ⟨uid', -, same⟩ := Option.map_eq_some_iff.1 given
  cases same
  unfold ShineEntry.moon at valid
  split_ifs at valid with named
  cases valid
  obtain ⟨-, -, ⟨kingdom, here, kingdom_ne⟩, ⟨shineId, here', shineId_ne⟩⟩ := named
  rw [here, here']
  exact ⟨kingdom_ne, shineId_ne⟩

theorem uidsInverse_iff (calls : List (MapCall ShineEntry)) :
    UidsInverse (run call {} calls) ↔ UidsSettled (layered calls) := by
  have filled : run call {} calls = (layered calls).foldl loadEntry {} := MapCall.run_call _ _ calls
  obtain ⟨uidByLocation, byUid⟩ := get?_uids (layered calls)
  rw [filled]
  constructor
  · intro inverse es₁ e es₂ moon uid split assigns last
    obtain ⟨kingdom, shineId⟩ := moon
    obtain ⟨kingdom_ne, shineId_ne⟩ := present_of_assigns assigns
    have given : lastOf (ShineEntry.uidFor ⟨kingdom, shineId⟩) (layered calls) = some uid :=
      lastOf_split.2 ⟨es₁, e, es₂, split, ShineEntry.uidFor_eq_some.2 assigns, last⟩
    have read := inverse kingdom shineId uid (by
      rw [resolveUidByLocation, if_pos ⟨(present_some kingdom).2 kingdom_ne,
        (present_some shineId).2 shineId_ne⟩]
      exact (uidByLocation ⟨kingdom, shineId⟩).trans given)
    rw [resolve, if_neg (by simp), byUid?] at read
    split_ifs at read with positive
    rw [byUid] at read
    refine ⟨positive, fun e' member => ?_⟩
    -- a later moon with this uid would be the answer
    by_contra taken
    obtain ⟨moon', given'⟩ := Option.ne_none_iff_exists'.1 taken
    rw [split, lastOf_append, lastOf] at read
    cases later : lastOf (ShineEntry.moonFor uid) es₂ with
    | none =>
        rw [lastOf_eq_none.1 later e' member] at given'
        cases given'
    | some moon'' =>
        rw [later] at read
        cases read
        obtain ⟨e'', member'', given''⟩ := exists_of_lastOf later
        have again := ShineEntry.uidFor_eq_some.2 (ShineEntry.moonFor_eq_some.1 given'')
        rw [last e'' member''] at again
        cases again
  · intro settled kingdom shineId uid found
    unfold resolveUidByLocation at found
    split_ifs at found with named
    have given := (uidByLocation ⟨kingdom, shineId⟩).symm.trans found
    obtain ⟨es₁, e, es₂, split, assigns, last⟩ := lastOf_split.1 given
    have assigns := ShineEntry.uidFor_eq_some.1 assigns
    obtain ⟨positive, free⟩ := settled es₁ e es₂ ⟨kingdom, shineId⟩ uid split assigns last
    rw [resolve, if_neg (by simp), byUid?, if_pos positive, byUid]
    exact lastOf_split.2 ⟨es₁, e, es₂, split, ShineEntry.moonFor_eq_some.2 assigns, free⟩

/-- A moon of the Cap Kingdom. -/
def capMoon (shineId : String) (uid : ℤ) : ShineEntry where
  stageName := some "CapWorldHomeStage"
  objectId := some shineId
  kingdom := some "Cap"
  shineId := some shineId
  shineUid := some uid

/-- A file that gives the uid of a packaged moon to another one. -/
theorem reused_uid_misread :
    ¬ UidsInverse (run call {} [.load [capMoon "First" 5], .load [capMoon "Second" 5]]) := by
  intro inverse
  exact absurd (inverse "Cap" "First" 5 (by decide)) (by decide)

end ShineMap

/-! ## Captures and their hack names -/

/-- The hack name and the capture of a valid entry. -/
def CaptureEntry.pair (e : CaptureEntry) : Option (String × String) :=
  if Present e.hackName ∧ Present e.cap then some (e.hackName.getD "", e.cap.getD "") else none

def CaptureEntry.capFor (hack : String) (e : CaptureEntry) : Option String :=
  e.pair.bind fun p => if p.1 = hack then some p.2 else none

def CaptureEntry.hackFor (cap : String) (e : CaptureEntry) : Option String :=
  e.pair.bind fun p => if p.2 = cap then some p.1 else none

theorem CaptureEntry.capFor_eq_some {hack cap : String} {e : CaptureEntry} :
    e.capFor hack = some cap ↔ e.pair = some (hack, cap) := by
  unfold capFor
  cases e.pair with
  | none => simp
  | some p =>
      obtain ⟨hack', cap'⟩ := p
      by_cases same : hack' = hack <;> simp [same]

theorem CaptureEntry.hackFor_eq_some {hack cap : String} {e : CaptureEntry} :
    e.hackFor cap = some hack ↔ e.pair = some (hack, cap) := by
  unfold hackFor
  cases e.pair with
  | none => simp
  | some p =>
      obtain ⟨hack', cap'⟩ := p
      by_cases same : cap' = cap <;> simp [same]

theorem CaptureEntry.pair_ne {e : CaptureEntry} {hack cap : String} (here : e.pair = some (hack, cap)) :
    hack ≠ "" ∧ cap ≠ "" := by
  unfold pair at here
  split_ifs at here with valid
  cases here
  obtain ⟨⟨hack, hackName, hack_ne⟩, cap, capName, cap_ne⟩ := valid
  rw [hackName, capName]
  exact ⟨hack_ne, cap_ne⟩

namespace CaptureMap

/-- One entry writes its hack name, and its capture where that has no hack name yet. -/
theorem loadEntry_pairs (m : CaptureMap) (e : CaptureEntry) :
    (∀ hack, (m.loadEntry e).table.get? hack = (e.capFor hack).or (m.table.get? hack)) ∧
      ∀ cap, (m.loadEntry e).reverse.get? cap = (m.reverse.get? cap).or (e.hackFor cap) := by
  unfold loadEntry CaptureEntry.capFor CaptureEntry.hackFor CaptureEntry.pair
  by_cases valid : Present e.hackName ∧ Present e.cap
  · rw [if_pos valid, if_pos valid]
    constructor
    · intro hack
      simp only [Dict.get?_set, Option.bind_some]
      by_cases same : hack = e.hackName.getD ""
      · simp [same]
      · rw [if_neg same, if_neg fun h => same h.symm]
        rfl
    · intro cap
      simp only [Option.bind_some]
      cases known : m.reverse.get? (e.cap.getD "") with
      | some hack =>
          rw [Option.isSome_some, if_pos rfl]
          by_cases same : cap = e.cap.getD ""
          · rw [same, known]
            rfl
          · rw [if_neg fun h => same h.symm, Option.or_none]
      | none =>
          rw [Option.isSome_none, if_neg Bool.false_ne_true, Dict.get?_set]
          by_cases same : cap = e.cap.getD ""
          · rw [if_pos same, if_pos same.symm, same, known]
            rfl
          · rw [if_neg same, if_neg fun h => same h.symm, Option.or_none]
  · rw [if_neg valid, if_neg valid]
    exact ⟨fun _ => rfl, fun _ => Option.or_none.symm⟩

theorem get?_pairs (es : List CaptureEntry) :
    (∀ hack, (es.foldl loadEntry {}).table.get? hack = lastOf (CaptureEntry.capFor hack) es) ∧
      ∀ cap, (es.foldl loadEntry {}).reverse.get? cap =
        es.findSome? (CaptureEntry.hackFor cap) := by
  constructor
  · intro hack
    rw [read_foldl (fun m : CaptureMap => m.table.get? hack) fun m e => (loadEntry_pairs m e).1 hack]
    exact Option.or_none
  · intro cap
    rw [read_foldl_first (fun m : CaptureMap => m.reverse.get? cap)
      fun m e => (loadEntry_pairs m e).2 cap]
    rfl

theorem mem_iterAll {m : CaptureMap} {cap hack : String} :
    (cap, hack) ∈ m.iterAll ↔ m.reverse.get? cap = some hack := by
  rw [iterAll, List.mem_mergeSort, Dict.get?_eq_some]

/-- Every hack name is listed and unlocked by the replay without capturesanity, and a capture
leads back to itself through its hack name. -/
structure Covers (m : CaptureMap) : Prop where
  listed : ∀ hack cap, m.table.get? hack = some cap → ∃ cap', (cap', hack) ∈ m.iterAll ∧
    ∀ ctx : Context,
      ToSwitch.item
          { kind := ItemKind.capture.value, cap := some cap', hackName := some hack, sender := "" } ∈
        pushCapturesanityReplay { ctx with captureMap := m, capturesanityEnabled := false }
  inverse : ∀ hack cap, m.table.get? hack = some cap →
    (∀ p ∈ variantCapHackOverride, p.1 ≠ cap) → m.resolve (m.capToHack (some cap)) = some cap

/-- Each hack name was the first of some capture, and the first hack name of a capture that a
hack name stands for still stands for it. -/
structure FirstsStand (es : List CaptureEntry) : Prop where
  first : ∀ e ∈ es, ∀ hack cap, e.pair = some (hack, cap) →
    ∃ cap', es.findSome? (CaptureEntry.hackFor cap') = some hack
  stands : ∀ hack cap first, lastOf (CaptureEntry.capFor hack) es = some cap →
    (∀ p ∈ variantCapHackOverride, p.1 ≠ cap) →
    es.findSome? (CaptureEntry.hackFor cap) = some first →
    lastOf (CaptureEntry.capFor first) es = some cap

theorem covers_iff (calls : List (MapCall CaptureEntry)) :
    Covers (run call {} calls) ↔ FirstsStand (layered calls) := by
  have filled : run call {} calls = (layered calls).foldl loadEntry {} := MapCall.run_call _ _ calls
  obtain ⟨table, reverse⟩ := get?_pairs (layered calls)
  rw [filled]
  generalize (layered calls).foldl loadEntry {} = m at table reverse
  -- the way from a capture to its first hack name and back
  have back {cap first : String} (plain : ∀ p ∈ variantCapHackOverride, p.1 ≠ cap)
      (here : (layered calls).findSome? (CaptureEntry.hackFor cap) = some first) :
      m.resolve (m.capToHack (some cap)) =
        some ((lastOf (CaptureEntry.capFor first) (layered calls)).getD first) := by
    obtain ⟨e, -, pair⟩ := List.exists_of_findSome?_eq_some here
    obtain ⟨first_ne, cap_ne⟩ := CaptureEntry.pair_ne (CaptureEntry.hackFor_eq_some.1 pair)
    have no_override : (variantCapHackOverride.find? fun p => p.1 = cap) = none := by
      rw [List.find?_eq_none]
      intro p member
      simpa using plain p member
    rw [capToHack, if_pos ((present_some cap).2 cap_ne), Option.getD_some, no_override]
    dsimp only
    rw [Dict.getD, reverse, here, Option.getD_some, resolve, if_pos ((present_some first).2 first_ne),
      Option.getD_some, Dict.getD, table]
  constructor
  · rintro ⟨listed, inverse⟩
    constructor
    · intro e member hack cap pair
      have known : lastOf (CaptureEntry.capFor hack) (layered calls) ≠ none := by
        intro unknown
        have silent := lastOf_eq_none.1 unknown e member
        rw [CaptureEntry.capFor_eq_some.2 pair] at silent
        cases silent
      obtain ⟨cap', last⟩ := Option.ne_none_iff_exists'.1 known
      obtain ⟨cap'', listed, -⟩ := listed hack cap' ((table hack).trans last)
      exact ⟨cap'', (reverse cap'').symm.trans (mem_iterAll.1 listed)⟩
    · intro hack cap first last plain here
      have same := inverse hack cap ((table hack).trans last) plain
      rw [back plain here] at same
      obtain ⟨e, member, pair⟩ := List.exists_of_findSome?_eq_some here
      cases stands : lastOf (CaptureEntry.capFor first) (layered calls) with
      | some cap' =>
          rw [stands] at same
          exact same
      | none =>
          have silent := lastOf_eq_none.1 stands e member
          rw [CaptureEntry.capFor_eq_some.2 (CaptureEntry.hackFor_eq_some.1 pair)] at silent
          cases silent
  · rintro ⟨first, stands⟩
    constructor
    · intro hack cap here
      obtain ⟨e, member, tells⟩ := exists_of_lastOf ((table hack).symm.trans here)
      obtain ⟨cap', found⟩ := first e member hack cap (CaptureEntry.capFor_eq_some.1 tells)
      have listed : (cap', hack) ∈ m.iterAll := mem_iterAll.2 ((reverse cap').trans found)
      refine ⟨cap', listed, fun ctx => ?_⟩
      rw [pushCapturesanityReplay, if_neg Bool.false_ne_true]
      exact List.mem_map_of_mem (f := fun p : String × String => ToSwitch.item
        { kind := ItemKind.capture.value, cap := some p.1, hackName := some p.2, sender := "" }) listed
    · intro hack cap here plain
      have last := (table hack).symm.trans here
      obtain ⟨e, member, tells⟩ := exists_of_lastOf last
      have some_first : (layered calls).findSome? (CaptureEntry.hackFor cap) ≠ none := by
        intro none_found
        have silent := List.findSome?_eq_none_iff.1 none_found e member
        rw [CaptureEntry.hackFor_eq_some.2 (CaptureEntry.capFor_eq_some.1 tells)] at silent
        cases silent
      obtain ⟨found, here⟩ := Option.ne_none_iff_exists'.1 some_first
      rw [back plain here, stands hack cap found last plain here, Option.getD_some]

/-- The two captures that the journal calls Puzzle Part. -/
def puzzleParts : List CaptureEntry :=
  [{ hackName := some "GotogotonLake", cap := some "Puzzle Part" },
    { hackName := some "GotogotonCity", cap := some "Puzzle Part" }]

/-- The second of them is not unlocked. -/
theorem puzzle_part_not_listed : ¬ Covers (run call {} [.load puzzleParts]) := by
  intro covers
  obtain ⟨cap, listed, -⟩ := covers.listed "GotogotonCity" "Puzzle Part" (by decide)
  have only : (run call {} [.load puzzleParts]).reverse.entries = [("Puzzle Part", "GotogotonLake")] := by
    decide
  rw [mem_iterAll, Dict.get?_eq_some, only, List.mem_singleton] at listed
  have same : "GotogotonCity" = "GotogotonLake" := congrArg Prod.snd listed
  exact absurd same (by decide)

end CaptureMap

end SmoArchipelago.Bridge
