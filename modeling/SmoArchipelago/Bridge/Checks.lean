import SmoArchipelago.Bridge.Context

/-! # Check and goal reports

The way of a check from the Switch to the server, cut at the await of the send, and the
resolution that the snapshot gate uses instead.

## Implementation notes

The two resolutions share no code in the source and share none here. -/

namespace SmoArchipelago.Bridge

/-- `a or b` of the source, for optional strings. -/
def orText (a : Option String) (b : String) : String := if Present a then a.getD "" else b

/-- The location name that canonical fields stand for. -/
def reconstructLocationName (kind : String) (kingdom shineId cap : Option String) : String :=
  if kind = ItemKind.moon.value ∧ Present kingdom ∧ Present shineId then
    kingdom.getD "" ++ ": " ++ shineId.getD ""
  else if kind = ItemKind.capture.value ∧ Present cap then "Capture: " ++ cap.getD ""
  else
    strip (fun c => c = ':' || c = ' ')
      (orText kingdom "" ++ ": " ++ orText shineId (orText cap ""))

namespace Context

/-- `capture_map.resolve(hack_name) or hack_name`. -/
def resolveHack (ctx : Context) (hackName : Option String) : Option String :=
  if Present (ctx.captureMap.resolve hackName) then ctx.captureMap.resolve hackName else hackName

/-- The resolution of a snapshot entry for the gate: no reload, no change of state. -/
def resolveEntryToLocId (ctx : Context) (entry : Check) : Option ℤ :=
  let kind := orText entry.kind ItemKind.moon.value
  if kind = ItemKind.moon.value ∧ (Present entry.stageName ∨ Present entry.objectId) then
    match ctx.shineMap.resolve entry.stageName entry.objectId entry.shineUid with
    | none => none
    | some res =>
        ctx.dp.locationNameToId
          (reconstructLocationName kind (some res.kingdom) (some res.shineId) entry.cap)
  else
    let cap :=
      if kind = ItemKind.capture.value ∧ Present entry.hackName then ctx.resolveHack entry.hackName
      else entry.cap
    ctx.dp.locationNameToId (reconstructLocationName kind entry.kingdom entry.shineId cap)

/-- The location name of a check; a moon that the map misses is tried again where a
forced reload changed the size of the map. -/
def checkLocationName (ctx : Context) (disk : Disk) (c : Check) : Context × Option String :=
  let kind := c.kind.getD ItemKind.moon.value
  let moonName (res : MoonResolution) :=
    reconstructLocationName kind (some res.kingdom) (some res.shineId) c.cap
  if kind = ItemKind.moon.value ∧ (Present c.stageName ∨ Present c.objectId) then
    match ctx.shineMap.resolve c.stageName c.objectId c.shineUid with
    | some res => (ctx, some (moonName res))
    | none =>
        let reloaded := ctx.reloadMaps disk true
        if reloaded.2.1 then
          (reloaded.1,
            (reloaded.1.shineMap.resolve c.stageName c.objectId c.shineUid).map moonName)
        else (reloaded.1, none)
  else
    let cap :=
      if kind = ItemKind.capture.value ∧ Present c.hackName then ctx.resolveHack c.hackName
      else c.cap
    (ctx, some (reconstructLocationName kind c.kingdom c.shineId cap))

end Context

/-- What `report_check` does with a check up to its await. -/
inductive Report where
  | unresolved
  | known (locId : ℤ)
  /-- The `LocationChecks` message of a location is under way. -/
  | sending (locName : String) (locId : ℤ)
  deriving DecidableEq

namespace Context

def beginReport (ctx : Context) (disk : Disk) (c : Check) : Context × Report :=
  let named := ctx.checkLocationName disk c
  match named.2.bind fun name => (named.1.dp.locationNameToId name).map fun id => (name, id) with
  | none => (named.1, .unresolved)
  | some (name, id) =>
      let ctx := { named.1 with switchReportedLocIds := insert id named.1.switchReportedLocIds }
      if id ∈ ctx.locationsChecked then (ctx, .known id) else (ctx, .sending name id)

/-- `report_goal`, with whether the `StatusUpdate` is sent. -/
def reportGoal (ctx : Context) : Context × Bool :=
  if ctx.goalReported then (ctx, false) else ({ ctx with goalReported := true }, true)

/-- The rest of `report_check` after its await: the location counts as sent, and where it
is the goal's the goal is reported. -/
def finishReport (ctx : Context) (locName : String) (locId : ℤ) : Context × Bool :=
  let ctx := { ctx with locationsChecked := insert locId ctx.locationsChecked }
  if ctx.goalLocationName = some locName then ctx.reportGoal else (ctx, false)

/-- What the gate takes for already credited. -/
def alreadyCheckedLocIds (ctx : Context) : Finset ℤ := ctx.checkedLocations ∪ ctx.locationsChecked

/-- The ids that some check resolves to. -/
def reportable (dp : DataPackage) : Set ℤ :=
  {id | ∃ kind kingdom shineId cap,
    dp.locationNameToId (reconstructLocationName kind kingdom shineId cap) = some id}

/-- The ids for which `report_check` sends a `LocationChecks` message. -/
def wouldSend (ctx : Context) (disk : Disk) : Set ℤ :=
  {id | ∃ c name, (ctx.beginReport disk c).2 = .sending name id}

@[simp] theorem reloadMaps_dp (ctx : Context) (disk : Disk) (force : Bool) :
    (ctx.reloadMaps disk force).1.dp = ctx.dp := by
  unfold reloadMaps
  split_ifs <;> rfl

@[simp] theorem reloadMaps_locationsChecked (ctx : Context) (disk : Disk) (force : Bool) :
    (ctx.reloadMaps disk force).1.locationsChecked = ctx.locationsChecked := by
  unfold reloadMaps
  split_ifs <;> rfl

/-- A reload touches the maps and the time of the last reload. -/
theorem reloadMaps_frame (ctx : Context) (disk : Disk) (force : Bool) :
    ∃ shineMap captureMap mapsSentinelMtime, (ctx.reloadMaps disk force).1 =
      { ctx with shineMap, captureMap, mapsSentinelMtime } := by
  unfold reloadMaps
  split_ifs
  · exact ⟨_, _, _, rfl⟩
  · exact ⟨_, _, _, rfl⟩

/-- The three ways of a check to its name: by the map in memory, by the map of the disk, or
by its canonical fields. -/
theorem checkLocationName_cases (ctx : Context) (disk : Disk) (c : Check) :
    (∃ res, (c.kind.getD ItemKind.moon.value = ItemKind.moon.value ∧
          (Present c.stageName ∨ Present c.objectId)) ∧
        ctx.shineMap.resolve c.stageName c.objectId c.shineUid = some res ∧
        ctx.checkLocationName disk c = (ctx, some (reconstructLocationName
          (c.kind.getD ItemKind.moon.value) (some res.kingdom) (some res.shineId) c.cap))) ∨
      ((c.kind.getD ItemKind.moon.value = ItemKind.moon.value ∧
          (Present c.stageName ∨ Present c.objectId)) ∧
        (ctx.checkLocationName disk c).1 = (ctx.reloadMaps disk true).1 ∧
        ∀ name ∈ (ctx.checkLocationName disk c).2, ∃ res,
          (ctx.reloadMaps disk true).1.shineMap.resolve c.stageName c.objectId c.shineUid =
              some res ∧
            name = reconstructLocationName (c.kind.getD ItemKind.moon.value) (some res.kingdom)
              (some res.shineId) c.cap) ∨
      (¬ (c.kind.getD ItemKind.moon.value = ItemKind.moon.value ∧
          (Present c.stageName ∨ Present c.objectId)) ∧
        ctx.checkLocationName disk c = (ctx, some (reconstructLocationName
          (c.kind.getD ItemKind.moon.value) c.kingdom c.shineId
          (if c.kind.getD ItemKind.moon.value = ItemKind.capture.value ∧ Present c.hackName then
            ctx.resolveHack c.hackName else c.cap)))) := by
  by_cases raw : c.kind.getD ItemKind.moon.value = ItemKind.moon.value ∧
      (Present c.stageName ∨ Present c.objectId)
  · cases found : ctx.shineMap.resolve c.stageName c.objectId c.shineUid with
    | some res =>
        refine .inl ⟨res, raw, rfl, ?_⟩
        simp only [checkLocationName, if_pos raw, found]
    | none =>
        refine .inr (.inl ⟨raw, ?_⟩)
        simp only [checkLocationName, if_pos raw, found]
        by_cases changed : (ctx.reloadMaps disk true).2.1
        · rw [if_pos changed]
          refine ⟨rfl, ?_⟩
          intro name member
          obtain ⟨res, again, rfl⟩ := Option.map_eq_some_iff.1 member
          exact ⟨res, again, rfl⟩
        · rw [if_neg changed]
          exact ⟨rfl, nofun⟩
  · refine .inr (.inr ⟨raw, ?_⟩)
    simp only [checkLocationName, if_neg raw]

/-- The resolution of a check keeps the context but for its maps, and a name it gives is
made of some canonical fields. -/
theorem checkLocationName_spec (ctx : Context) (disk : Disk) (c : Check) :
    (ctx.checkLocationName disk c).1.dp = ctx.dp ∧
      (ctx.checkLocationName disk c).1.locationsChecked = ctx.locationsChecked ∧
      ∀ name ∈ (ctx.checkLocationName disk c).2, ∃ kind kingdom shineId cap,
        name = reconstructLocationName kind kingdom shineId cap := by
  rcases ctx.checkLocationName_cases disk c with
    ⟨res, -, -, found⟩ | ⟨-, reloaded, names⟩ | ⟨-, canonical⟩
  · rw [found]
    refine ⟨rfl, rfl, ?_⟩
    rintro name ⟨⟩
    exact ⟨_, _, _, _, rfl⟩
  · rw [reloaded]
    refine ⟨reloadMaps_dp _ _ _, reloadMaps_locationsChecked _ _ _, ?_⟩
    intro name member
    obtain ⟨res, -, rfl⟩ := names name member
    exact ⟨_, _, _, _, rfl⟩
  · rw [canonical]
    refine ⟨rfl, rfl, ?_⟩
    rintro name ⟨⟩
    exact ⟨_, _, _, _, rfl⟩

/-- A report notes the location for the Switch and reloads the maps where it misses. -/
theorem beginReport_context (ctx : Context) (disk : Disk) (c : Check) :
    ∃ reported, (ctx.beginReport disk c).1 =
      { (ctx.checkLocationName disk c).1 with switchReportedLocIds := reported } := by
  simp only [beginReport]
  split
  · exact ⟨_, rfl⟩
  · split_ifs
    · exact ⟨_, rfl⟩
    · exact ⟨_, rfl⟩

/-- What a report sends is resolvable and was not sent before. -/
theorem beginReport_sending {ctx : Context} {disk : Disk} {c : Check} {name : String} {id : ℤ}
    (h : (ctx.beginReport disk c).2 = .sending name id) :
    (ctx.checkLocationName disk c).2 = some name ∧ ctx.dp.locationNameToId name = some id ∧
      id ∉ ctx.locationsChecked := by
  obtain ⟨dp, checked, -⟩ := ctx.checkLocationName_spec disk c
  unfold beginReport at h
  dsimp only at h
  split at h
  · cases h
  · next found hfound =>
      obtain ⟨found', hname, hid⟩ := Option.bind_eq_some_iff.1 hfound
      obtain ⟨id', hid', pair⟩ := Option.map_eq_some_iff.1 hid
      cases pair
      split_ifs at h with known
      cases h
      rw [dp] at hid'
      rw [checked] at known
      exact ⟨hname, hid', known⟩

/-- The ids that would be sent are the reportable ones that were not sent yet. -/
theorem wouldSend_eq (ctx : Context) (disk : Disk) :
    ctx.wouldSend disk = {id | id ∈ reportable ctx.dp ∧ id ∉ ctx.locationsChecked} := by
  ext id
  constructor
  · rintro ⟨c, name, sends⟩
    obtain ⟨named, found, unsent⟩ := beginReport_sending sends
    obtain ⟨kind, kingdom, shineId, cap, rfl⟩ :=
      (ctx.checkLocationName_spec disk c).2.2 name named
    exact ⟨⟨kind, kingdom, shineId, cap, found⟩, unsent⟩
  · rintro ⟨⟨kind, kingdom, shineId, cap, found⟩, unsent⟩
    refine ⟨{ kind := some kind, kingdom, shineId, cap },
      reconstructLocationName kind kingdom shineId cap, ?_⟩
    simp [beginReport, checkLocationName, found, unsent]

end Context

end SmoArchipelago.Bridge
