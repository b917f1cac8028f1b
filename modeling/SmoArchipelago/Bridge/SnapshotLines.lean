import SmoArchipelago.Bridge.Snapshot
import SmoArchipelago.Bridge.SwitchLines
import SmoArchipelago.Switch.SnapshotBuilder

/-! # Snapshots on the wire

The lines of a snapshot, as the module sends them, are read as dictionaries, and those drive the
collector of the bridge up to the gate.

## Implementation notes

A field of another type than the module sends counts as absent. -/

namespace SmoArchipelago.Bridge

open Library JsonReader Utf8 Switch ApProtocol Bridge.LineReader

/-! ## The dispatch of a dictionary -/

/-- A null is `None`. -/
def orNone : JsonValue → Option JsonValue
  | .null => none
  | v => some v

/-- `msg.get(name)`. -/
def getField (name : String) : JsonValue → Option JsonValue
  | .dict fields => ((fields.find? fun f => f.1 = name.toList).map Prod.snd).bind orNone
  | _ => none

def getString (name : String) (msg : JsonValue) : Option String :=
  match getField name msg with
  | some (.str s) => some (String.ofList s)
  | _ => none

def getInt (name : String) (msg : JsonValue) : Option ℤ :=
  match getField name msg with
  | some (.int z) => some z
  | _ => none

def getBool (name : String) (msg : JsonValue) : Option Bool :=
  match getField name msg with
  | some (.bool b) => some b
  | _ => none

/-- A list; one that is absent is empty. -/
def getList (name : String) (msg : JsonValue) : List JsonValue :=
  match getField name msg with
  | some (.list vs) => vs
  | _ => []

def isDict : JsonValue → Bool
  | .dict _ => true
  | _ => false

def stringOf : JsonValue → Option String
  | .str s => some (String.ofList s)
  | _ => none

/-- What `_dispatch_from` makes of the messages of a snapshot. -/
def snapshotEvent (disk : Disk) (msg : JsonValue) : Option Gate.Event :=
  let t := getString "t" msg
  if t = some "state_begin" then some .stateBegin
  else if t = some "state_chunk" then
    let stage := (getString "stage_name" msg).getD ""
    if stage = "_meta" then
      some (.stateMeta ((getList "captures" msg).filterMap stringOf) (getBool "goal_reached" msg))
    else
      some (.stateChunk stage (((getList "shines" msg).filter isDict).map fun s =>
        ⟨getString "object_id" s, getInt "shine_uid" s⟩))
  else if t = some "state_end" then some (.stateEnd disk)
  else none

/-- The gate after the lines of a stream; a line that is refused changes nothing. -/
def readSnapshot (disk : Disk) (lines : List (List UInt8)) (s : Gate) : Gate :=
  (lines.filterMap fun line => (decodeLine line).bind (snapshotEvent disk)).foldl Gate.step s

/-! ## What arrives -/

/-- A text as the bridge has it. -/
def textOf (bs : List UInt8) : String := String.ofList (decodeReplacing bs)

/-- The entry of a shine: its texts as far as the fields of the module hold them. -/
def entryOf (sh : OwnedShine) : Entry :=
  .moon (textOf (stageOf sh).bytes)
    (if (ApProtocol.ShineEntry.of sh).objectId.isEmpty then none
      else some (textOf (ApProtocol.ShineEntry.of sh).objectId.bytes))
    (if sh.uid ≥ 0 then some sh.uid else none)

/-- The reported shines that have a stage. -/
def staged (shines : List OwnedShine) : List OwnedShine := shines.filter fun x => ¬ x.stage.bytes.isEmpty

/-- The stage of a shine has the name that stands for what is no stage. -/
def isMeta (sh : OwnedShine) : Bool := textOf (stageOf sh).bytes = "_meta"

def captureOf (cap : CStr kCheckFieldCap) : Entry := .capture (textOf cap.bytes)

/-- The entries of a snapshot that arrive. -/
def arrivedEntries (shines : List OwnedShine) (captures : List MsgFontSafe.CString) : List Entry :=
  ((keptShines (staged shines)).filter fun sh => ! isMeta sh).map entryOf ++
    (keptCaptures captures).map captureOf

/-- An entry for each shine that has a stage and for each capture that has a name. -/
def allEntries (shines : List OwnedShine) (captures : List MsgFontSafe.CString) : List Entry :=
  (staged shines).map entryOf ++ (namedCaptures captures).map captureOf

/-! The fields of a dictionary that was written. -/

theorem getField_present {fields : List (String × Option Piece)} (name : String) {p : Option Piece}
    (apart : (fields.map Prod.fst).Nodup) (member : (name, p) ∈ fields)
    (no_null : ∀ q ∈ p, orNone q.value = some q.value) :
    getField name (Piece.dict (setFields fields)).value = p.map Piece.value := by
  have found : (((setFields fields).map fun f => (f.1.toList, f.2.value)).find?
      fun f => f.1 = name.toList).map Prod.snd = p.map Piece.value := by
    induction fields with
    | nil => cases member
    | cons f fields ih =>
        obtain ⟨label, value⟩ := f
        rw [List.map_cons, List.nodup_cons] at apart
        rcases List.mem_cons.1 member with here | later
        · obtain ⟨rfl, rfl⟩ := Prod.mk.inj here
          cases p with
          | some q =>
              change (List.find? _ ((name.toList, q.value) :: _)).map Prod.snd = _
              rw [List.find?_cons_of_pos (by exact decide_eq_true rfl)]
              rfl
          | none =>
              change (List.find? _ ((setFields fields).map _)).map Prod.snd = none
              rw [List.find?_eq_none.2]
              · rfl
              · intro g among
                obtain ⟨h, inside, rfl⟩ := List.mem_map.1 among
                obtain ⟨e, here, set⟩ := List.mem_filterMap.1 inside
                obtain ⟨q, -, rfl⟩ := Option.map_eq_some_iff.1 set
                intro same
                have label : e.1 = name := String.toList_injective (of_decide_eq_true same)
                have among : e.1 ∈ fields.map Prod.fst := List.mem_map_of_mem here
                exact apart.1 (label ▸ among)
        · have among : name ∈ fields.map Prod.fst := List.mem_map_of_mem later
          have differs : label ≠ name := fun same => apart.1 (same ▸ among)
          cases value with
          | none => exact ih apart.2 later
          | some q =>
              change (List.find? _ ((label.toList, q.value) :: _)).map Prod.snd = _
              rw [List.find?_cons_of_neg]
              · exact ih apart.2 later
              · intro same
                exact differs (String.toList_injective (of_decide_eq_true same))
  change ((List.find? _ _).map Prod.snd).bind orNone = _
  rw [found]
  cases p with
  | none => rfl
  | some q => exact no_null q rfl

theorem getField_piece {m : Outgoing} (name : String) {p : Option Piece} (member : (name, p) ∈ m.fields)
    (no_null : ∀ q ∈ p, orNone q.value = some q.value) :
    getField name m.piece.value = p.map Piece.value := by
  have fine := namesFine_fields m
  simp only [Piece.namesFine, Bool.and_eq_true, decide_eq_true_eq] at fine
  exact getField_present name fine.2 member no_null

theorem getString_str {m : Outgoing} (name : String) {s : List UInt8}
    (member : (name, some (.str s)) ∈ m.fields) : getString name m.piece.value = some (textOf s) := by
  have field := getField_piece name member (by
    intro q here
    cases Option.some.inj here
    rfl)
  rw [getString, field]
  rfl

/-- A list that is left out when it is empty. -/
theorem getList_given {m : Outgoing} (name : String) {α : Type} {xs : List α} {piece : α → Piece}
    (member : (name, given (xs.length > 0) (.list (xs.map piece))) ∈ m.fields) :
    getList name m.piece.value = xs.map fun x => (piece x).value := by
  have field := getField_piece name member (by
    intro q here
    unfold given at here
    split_ifs at here
    · cases Option.some.inj here
      rfl
    · cases here)
  rw [getList, field]
  cases xs with
  | nil => rfl
  | cons x xs =>
      have some_entry : (x :: xs).length > 0 := Nat.succ_pos _
      rw [given, if_pos some_entry]
      change ((x :: xs).map piece).map Piece.value = _
      rw [List.map_map]
      rfl

/-- A shine of a chunk, as the bridge reads it. -/
def rawShine (sh : ApProtocol.ShineEntry) : RawShine where
  objectId := if sh.objectId.isEmpty then none else some (textOf sh.objectId.bytes)
  shineUid := if sh.shineUid ≥ 0 then some sh.shineUid else none

theorem raw_of_shine (sh : ApProtocol.ShineEntry) :
    (⟨getString "object_id" (Piece.dict (setFields sh.fields)).value,
      getInt "shine_uid" (Piece.dict (setFields sh.fields)).value⟩ : RawShine) = rawShine sh := by
  have apart : (sh.fields.map Prod.fst).Nodup := by
    simp only [ApProtocol.ShineEntry.fields, List.map_cons, List.map_nil]
    decide
  have object_id := getField_present "object_id"
    (p := given (¬ sh.objectId.isEmpty) (.str sh.objectId.bytes)) apart List.mem_cons_self (by
      intro q here
      unfold given at here
      split_ifs at here
      · cases here
      · cases Option.some.inj here
        rfl)
  have shine_uid := getField_present "shine_uid"
    (p := given (sh.shineUid ≥ 0) (.int sh.shineUid)) apart
    (List.mem_cons_of_mem _ List.mem_cons_self) (by
      intro q here
      unfold given at here
      split_ifs at here
      · cases Option.some.inj here
        rfl
      · cases here)
  rw [getString, getInt, object_id, shine_uid, rawShine, given, given]
  by_cases empty : sh.objectId.isEmpty = true
  · by_cases known : sh.shineUid ≥ 0
    · simp only [empty, known, not_true, if_false, if_true, Option.map_none, Option.map_some]
      rfl
    · simp only [empty, known, not_true, if_false, if_true, Option.map_none]
  · by_cases known : sh.shineUid ≥ 0
    · simp only [empty, known, not_false_eq_true, if_false, if_true, Option.map_some,
        Bool.false_eq_true]
      rfl
    · simp only [empty, known, not_false_eq_true, if_false, if_true, Option.map_none, Option.map_some,
        Bool.false_eq_true]
      rfl

theorem textOf_state : textOf (Json.ascii "state_begin") = "state_begin" ∧
    textOf (Json.ascii "state_chunk") = "state_chunk" ∧
    textOf (Json.ascii "state_end") = "state_end" := by decide +kernel

theorem textOf_meta : textOf (CStr.ofBytes (Json.ascii "_meta") : CStr kCheckFieldCap).bytes =
    "_meta" := by decide +kernel

theorem event_stateBegin (disk : Disk) (b : StateBegin) :
    snapshotEvent disk (Outgoing.stateBegin b).piece.value = some .stateBegin := by
  have t := getString_str (m := .stateBegin b) "t" List.mem_cons_self
  rw [textOf_state.1] at t
  rw [snapshotEvent, t]
  exact if_pos rfl

theorem event_stateEnd (disk : Disk) :
    snapshotEvent disk Outgoing.stateEnd.piece.value = some (.stateEnd disk) := by
  have t := getString_str (m := .stateEnd) "t" List.mem_cons_self
  rw [textOf_state.2.2] at t
  rw [snapshotEvent, t]
  rfl

/-- The event of a chunk. -/
theorem event_stateChunk (disk : Disk) (c : StateChunk) :
    snapshotEvent disk (Outgoing.stateChunk c).piece.value =
      if textOf c.stageName.bytes = "_meta" then
        some (.stateMeta (c.captures.map fun cap => textOf cap.bytes)
          (if c.includeGoalReached then some c.goalReached else none))
      else some (.stateChunk (textOf c.stageName.bytes) (c.shines.map rawShine)) := by
  have t := getString_str (m := .stateChunk c) "t" List.mem_cons_self
  have stage := getString_str (m := .stateChunk c) "stage_name"
    (List.mem_cons_of_mem _ List.mem_cons_self)
  have shines := getList_given (m := .stateChunk c) "shines"
    (List.mem_cons_of_mem _ (List.mem_cons_of_mem _ List.mem_cons_self))
  have captures := getList_given (m := .stateChunk c) "captures"
    (List.mem_cons_of_mem _ (List.mem_cons_of_mem _ (List.mem_cons_of_mem _ List.mem_cons_self)))
  have goal : getBool "goal_reached" (Outgoing.stateChunk c).piece.value =
      if c.includeGoalReached then some c.goalReached else none := by
    have field := getField_piece (m := .stateChunk c) "goal_reached"
      (p := given c.includeGoalReached (.bool c.goalReached))
      (List.mem_cons_of_mem _ (List.mem_cons_of_mem _ (List.mem_cons_of_mem _
        (List.mem_cons_of_mem _ List.mem_cons_self)))) (by
        intro q here
        unfold given at here
        split_ifs at here
        · cases Option.some.inj here
          rfl
        · cases here)
    rw [getBool, field, given]
    split_ifs <;> rfl
  have dicts : (c.shines.map fun sh => (Piece.dict (setFields sh.fields)).value).filter isDict =
      c.shines.map fun sh => (Piece.dict (setFields sh.fields)).value := by
    apply List.filter_eq_self.2
    intro v member
    obtain ⟨sh, -, rfl⟩ := List.mem_map.1 member
    rfl
  have texts : (c.captures.map fun cap => (Piece.str cap.bytes).value).filterMap stringOf =
      c.captures.map fun cap => textOf cap.bytes := by
    rw [List.filterMap_map]
    exact List.filterMap_eq_map ▸ rfl
  rw [textOf_state.2.1] at t
  rw [snapshotEvent, t]
  dsimp only
  rw [if_neg (by decide), if_pos rfl, stage, Option.getD_some, shines, captures, goal, dicts, texts,
    List.map_map]
  have raw : ((fun s => (⟨getString "object_id" s, getInt "shine_uid" s⟩ : RawShine)) ∘
      fun sh : ApProtocol.ShineEntry => (Piece.dict (setFields sh.fields)).value) = rawShine :=
    funext raw_of_shine
  rw [raw]

/-! ## The collector -/

/-- The gate while entries are collected for its slot: the goal flag may be an old one. -/
def gathering (s : Gate) (entries : List Entry) (goal flagged : Bool) : Gate :=
  { s with collecting := ⟨true, entries, goal⟩, source := ⟨{s.slot}, flagged⟩ }

/-- The gate with these entries collected. -/
def collected (s : Gate) (entries : List Entry) (goal : Bool) : Gate :=
  gathering s entries goal goal

/-- One message more for the slot adds no slot. -/
theorem add_same (slot : Option SlotId) (flagged : Bool) :
    (Source.mk {slot} flagged).add slot = ⟨{slot}, flagged⟩ := by
  rw [Source.add, Finset.insert_eq_of_mem (Finset.mem_singleton_self slot)]

/-- The entries of a run that arrive. -/
def runEntries (run : List OwnedShine) : List Entry :=
  ((run.take kSnapshotMaxShinesPerStage).filter fun sh => ! isMeta sh).map entryOf

theorem entry_of_rawShine {x y : OwnedShine} (same : stageOf y = stageOf x) :
    Entry.moon (textOf (stageOf x).bytes) (rawShine (.of y)).objectId (rawShine (.of y)).shineUid =
      entryOf y := by
  rw [entryOf, same]
  rfl

/-- A chunk of shines adds the entries of its run. -/
theorem step_runChunk (disk : Disk) {shines run : List OwnedShine} (member : run ∈ runs shines)
    (s : Gate) (entries : List Entry) (goal flagged : Bool) :
    ∃ e, snapshotEvent disk (Outgoing.stateChunk (runChunk run)).piece.value = some e ∧
      (gathering s entries goal flagged).step e =
        gathering s (entries ++ runEntries run) goal flagged := by
  cases run with
  | nil => exact absurd rfl (ne_nil_of_mem_runs member)
  | cons x run =>
      have names := stageOf_of_mem_runs member
      have event := event_stateChunk disk (runChunk (x :: run))
      have stage : (runChunk (x :: run)).stageName = stageOf x := rfl
      have captures : (runChunk (x :: run)).captures = [] := rfl
      rw [stage, captures] at event
      by_cases no_stage : textOf (stageOf x).bytes = "_meta"
      · rw [if_pos no_stage] at event
        refine ⟨_, event, ?_⟩
        have none_left : runEntries (x :: run) = [] := by
          rw [runEntries, List.map_eq_nil_iff, List.filter_eq_nil_iff]
          intro y here
          have same := names y (List.mem_of_mem_take here)
          rw [isMeta, same, decide_eq_true no_stage]
          exact Bool.false_ne_true
        rw [none_left, List.append_nil]
        change Gate.mk .. = _
        rw [gathering]
        simp only [Collecting.addChunkMeta, if_true, List.map_nil, List.filter_nil, List.append_nil,
          add_same]
        rfl
      · rw [if_neg no_stage] at event
        refine ⟨_, event, ?_⟩
        have all_left : (textOf (stageOf x).bytes, (runChunk (x :: run)).shines.map rawShine) =
            (textOf (stageOf x).bytes, ((x :: run).take kSnapshotMaxShinesPerStage).map
              fun y => rawShine (.of y)) := by
          rw [show (runChunk (x :: run)).shines =
            ((x :: run).map ApProtocol.ShineEntry.of).take kSnapshotMaxShinesPerStage from rfl,
            ← List.map_take, List.map_map]
          rfl
        have entries_eq : ((runChunk (x :: run)).shines.map rawShine).map
            (fun r => Entry.moon (textOf (stageOf x).bytes) r.objectId r.shineUid) =
              runEntries (x :: run) := by
          rw [(Prod.mk.inj all_left).2, List.map_map, runEntries, List.filter_eq_self.2]
          · apply List.map_congr_left
            intro y here
            exact entry_of_rawShine (names y (List.mem_of_mem_take here))
          · intro y here
            rw [isMeta, names y (List.mem_of_mem_take here), decide_eq_false no_stage]
            rfl
        change Gate.mk .. = _
        rw [gathering, ← entries_eq]
        simp only [Collecting.addChunkShines, if_true, add_same]
        rfl

theorem textOf_ne_empty {s : List UInt8} (some_byte : s ≠ []) : textOf s ≠ "" := by
  have longer (p : Option Started) (s : List UInt8) (h : p ≠ none ∨ s ≠ []) : decodeFrom p s ≠ [] := by
    induction s generalizing p with
    | nil =>
        cases p with
        | none => exact absurd rfl (h.resolve_right fun h => h rfl)
        | some p => exact List.cons_ne_nil _ _
    | cons b s ih =>
        cases p with
        | none =>
            rw [decodeFrom]
            cases firstByte b with
            | inl c => exact List.cons_ne_nil _ _
            | inr p => exact ih (some p) (.inl (Option.some_ne_none p))
        | some p =>
            rw [decodeFrom]
            cases nextByte p b with
            | none => cases firstByte b <;> exact List.cons_ne_nil _ _
            | some more =>
                cases more with
                | inl c => exact List.cons_ne_nil _ _
                | inr p => exact ih (some p) (.inl (Option.some_ne_none p))
  intro empty
  apply longer none s (.inr some_byte)
  have chars := congrArg String.toList empty
  rwa [textOf, String.toList_ofList] at chars

/-- The `_meta` chunk adds the captures and sets the flag. -/
theorem step_metaChunk (disk : Disk) (captures : List MsgFontSafe.CString) (goalSent : Bool)
    (s : Gate) (entries : List Entry) (goal flagged : Bool) :
    ∃ e, snapshotEvent disk (Outgoing.stateChunk (metaChunk captures goalSent)).piece.value = some e ∧
      (gathering s entries goal flagged).step e =
        collected s (entries ++ (keptCaptures captures).map captureOf) goalSent := by
  have event := event_stateChunk disk (metaChunk captures goalSent)
  have stage : (metaChunk captures goalSent).stageName = .ofBytes (Json.ascii "_meta") :=
    (foldl_addCapture captures _).2.1
  rw [stage, if_pos textOf_meta, metaChunk_captures] at event
  refine ⟨_, event, ?_⟩
  have named : ((keptCaptures captures).map fun cap => textOf cap.bytes).filter (· ≠ "") =
      (keptCaptures captures).map fun cap => textOf cap.bytes := by
    apply List.filter_eq_self.2
    intro text member
    obtain ⟨cap, kept, rfl⟩ := List.mem_map.1 member
    obtain ⟨hack, here, rfl⟩ := List.mem_map.1 (List.mem_of_mem_take kept)
    have some_byte := (List.mem_filter.1 here).2
    simp only [decide_eq_true_eq, List.isEmpty_iff] at some_byte
    apply decide_eq_true
    apply textOf_ne_empty
    intro none_left
    cases bytes : hack.bytes with
    | nil => exact some_byte bytes
    | cons b bs =>
        have first : b ≠ 0 := by
          rintro rfl
          exact hack.noNul (bytes ▸ List.mem_cons_self)
        have start : (CStr.ofBytes hack.bytes : CStr kCheckFieldCap).bytes =
            b :: (bs.take 62).takeWhile (· != 0) := by
          rw [bytes]
          change (b :: bs.take 62).takeWhile (· != 0) = _
          exact List.takeWhile_cons_of_pos (p := (· != 0)) (bne_iff_ne.2 first)
        rw [start] at none_left
        cases none_left
  change Gate.mk .. = _
  rw [collected, gathering]
  simp only [Collecting.addChunkMeta, if_true, named, List.map_map, add_same]
  rfl

/-- The lines of messages whose events are known. -/
theorem readSnapshot_cons (disk : Disk) {m : Outgoing} (clean : m.piece.clean = true) {e : Gate.Event}
    (event : snapshotEvent disk m.piece.value = some e) (lines : List (List UInt8)) (s : Gate) :
    readSnapshot disk (m.piece.bytes :: lines) s = readSnapshot disk lines (s.step e) := by
  have here : (decodeLine m.piece.bytes).bind (snapshotEvent disk) = some e := by
    rw [decodeLine_piece, if_pos clean]
    exact event
  have events : (m.piece.bytes :: lines).filterMap
      (fun line => (decodeLine line).bind (snapshotEvent disk)) =
        e :: lines.filterMap fun line => (decodeLine line).bind (snapshotEvent disk) :=
    List.filterMap_cons_some here
  rw [readSnapshot, events, List.foldl_cons, readSnapshot]

theorem readSnapshot_runs (disk : Disk) {shines : List OwnedShine} {rs : List (List OwnedShine)}
    (among : ∀ run ∈ rs, run ∈ runs shines)
    (clean : ∀ run ∈ rs, (Outgoing.stateChunk (runChunk run)).piece.clean = true)
    (lines : List (List UInt8)) (s : Gate) (entries : List Entry) (goal flagged : Bool) :
    readSnapshot disk ((rs.map fun run => (Outgoing.stateChunk (runChunk run)).piece.bytes) ++ lines)
        (gathering s entries goal flagged) =
      readSnapshot disk lines
        (gathering s (entries ++ rs.flatMap runEntries) goal flagged) := by
  induction rs generalizing entries with
  | nil =>
      rw [List.flatMap_nil, List.append_nil]
      rfl
  | cons run rs ih =>
      obtain ⟨e, event, step⟩ := step_runChunk disk (among run List.mem_cons_self) s entries goal
        flagged
      rw [List.map_cons, List.cons_append, readSnapshot_cons disk (clean run List.mem_cons_self) event,
        step, ih (fun r member => among r (List.mem_cons_of_mem run member))
          (fun r member => clean r (List.mem_cons_of_mem run member)), List.flatMap_cons,
        List.append_assoc]

theorem flatMap_runEntries (rs : List (List OwnedShine)) :
    rs.flatMap runEntries =
      ((rs.flatMap fun run => run.take kSnapshotMaxShinesPerStage).filter fun sh =>
        ! isMeta sh).map entryOf := by
  induction rs with
  | nil => rfl
  | cons run rs ih =>
      rw [List.flatMap_cons, ih, List.flatMap_cons, List.filter_append, List.map_append]
      rfl

/-- A snapshot that is sent arrives at the gate with the entries that its chunks have kept. -/
theorem readSnapshot_sent (disk : Disk) (s : Gate) (modVer : List UInt8) (shines : List OwnedShine)
    (captures : List MsgFontSafe.CString) (goalSent : Bool) {chunks : List (List UInt8)}
    (stream : chunks.flatten = sent (sendSnapshot modVer shines captures goalSent))
    (fine : ∀ m ∈ sendSnapshot modVer shines captures goalSent, Fits m ∧ m.piece.clean = true) :
    readSnapshot disk (handleClient [] chunks) s =
      (collected s (arrivedEntries shines captures) goalSent).step (.stateEnd disk) := by
  rw [handleClient_sent stream fun m member => (fine m member).1]
  have clean := fun m member => (fine m member).2
  rw [sendSnapshot, shineChunks_eq] at *
  have begun := event_stateBegin disk ⟨modVer, -1⟩
  have opened : s.step .stateBegin = gathering s [] s.collecting.goal false := rfl
  obtain ⟨e, event, step⟩ := step_metaChunk disk captures goalSent s
    ((runs (staged shines)).flatMap runEntries) s.collecting.goal false
  have chunk_clean : ∀ run ∈ runs (staged shines),
      (Outgoing.stateChunk (runChunk run)).piece.clean = true := fun run member =>
    clean _ (List.mem_cons_of_mem _ (List.mem_append_left _
      (List.mem_map_of_mem (List.mem_map_of_mem member))))
  have meta_clean : (Outgoing.stateChunk (metaChunk captures goalSent)).piece.clean = true :=
    clean _ (List.mem_cons_of_mem _ (List.mem_append_right _ List.mem_cons_self))
  have end_clean : Outgoing.stateEnd.piece.clean = true :=
    clean _ (List.mem_cons_of_mem _ (List.mem_append_right _
      (List.mem_cons_of_mem _ List.mem_cons_self)))
  rw [List.map_cons, readSnapshot_cons disk (clean _ List.mem_cons_self) begun, opened,
    List.map_append, List.map_map, List.map_map]
  change readSnapshot disk (((runs (staged shines)).map fun run =>
    (Outgoing.stateChunk (runChunk run)).piece.bytes) ++ _) _ = _
  rw [readSnapshot_runs disk (fun run member => member) chunk_clean, List.nil_append, List.map_cons,
    readSnapshot_cons disk meta_clean event, step, List.map_cons, List.map_nil,
    readSnapshot_cons disk end_clean (event_stateEnd disk), flatMap_runEntries]
  rfl

/-- All arrives exactly when no chunk is full before its stage ends, no stage is named as what is
none, and there are not too many captures. -/
theorem arrivedEntries_eq_all_iff (shines : List OwnedShine) (captures : List MsgFontSafe.CString) :
    arrivedEntries shines captures = allEntries shines captures ↔
      (∀ run ∈ runs (staged shines), run.length ≤ kSnapshotMaxShinesPerStage) ∧
        (∀ sh ∈ staged shines, isMeta sh = false) ∧
          (namedCaptures captures).length ≤ kSnapshotMaxCaptures := by
  have flat := flatten_runs (staged shines)
  have kept_le (rs : List (List OwnedShine)) :
      (rs.flatMap fun run => run.take kSnapshotMaxShinesPerStage).length ≤ rs.flatten.length := by
    induction rs with
    | nil => exact le_rfl
    | cons run rs ih =>
        rw [List.flatMap_cons, List.length_append, List.flatten_cons, List.length_append]
        exact Nat.add_le_add (List.length_take_le' _ _) ih
  have kept_all (rs : List (List OwnedShine))
      (same : (rs.flatMap fun run => run.take kSnapshotMaxShinesPerStage).length = rs.flatten.length) :
      ∀ run ∈ rs, run.length ≤ kSnapshotMaxShinesPerStage := by
    induction rs with
    | nil => exact fun run member => absurd member List.not_mem_nil
    | cons run rs ih =>
        have fewer := kept_le rs
        rw [List.flatMap_cons, List.length_append, List.flatten_cons, List.length_append,
          List.length_take] at same
        intro r member
        rcases List.mem_cons.1 member with rfl | later
        · omega
        · exact ih (by omega) r later
  constructor
  · intro same
    have lengths := congrArg List.length same
    have first := kept_le (runs (staged shines))
    have second : ((keptShines (staged shines)).filter fun sh => ! isMeta sh).length ≤
        (keptShines (staged shines)).length := List.length_filter_le _ _
    have third : (keptCaptures captures).length ≤ (namedCaptures captures).length :=
      List.length_take_le' _ _
    rw [flat] at first
    simp only [arrivedEntries, allEntries, List.length_append, List.length_map] at lengths
    change (keptShines (staged shines)).length ≤ _ at first
    have whole : (keptShines (staged shines)).length = (staged shines).length := by omega
    have short : ∀ run ∈ runs (staged shines), run.length ≤ kSnapshotMaxShinesPerStage := by
      apply kept_all
      rw [flat]
      exact whole
    refine ⟨short, ?_, ?_⟩
    · have all_kept : keptShines (staged shines) = staged shines := by
        have takes : keptShines (staged shines) = (runs (staged shines)).flatMap id :=
          List.flatMap_congr fun run member => List.take_of_length_le (short run member)
        rw [takes, List.flatMap_id, flat]
      have test : ∀ sh ∈ keptShines (staged shines), (! isMeta sh) = true := by
        apply List.length_filter_eq_length_iff.1
        omega
      rw [all_kept] at test
      intro sh member
      exact Bool.not_eq_true' _ ▸ test sh member
    · have named : (keptCaptures captures).length = (namedCaptures captures).length := by omega
      rw [keptCaptures, List.length_take] at named
      omega
  · rintro ⟨short, stages, named⟩
    have all_kept : keptShines (staged shines) = staged shines := by
      have takes : keptShines (staged shines) = (runs (staged shines)).flatMap id :=
        List.flatMap_congr fun run member => List.take_of_length_le (short run member)
      rw [takes, List.flatMap_id, flat]
    have all_stages : (staged shines).filter (fun sh => ! isMeta sh) = staged shines :=
      List.filter_eq_self.2 fun sh member => by rw [stages sh member]; rfl
    have all_captures : keptCaptures captures = namedCaptures captures := List.take_of_length_le named
    rw [arrivedEntries, all_kept, all_stages, all_captures, allEntries]

/-- A snapshot whose lines fit and are clean arrives at the gate with what its chunks have kept and
with its goal flag, and that is all of it exactly when no run of one stage is longer than a chunk, no
stage is named as what is none, and there are not too many captures. -/
theorem snapshot_arrives (disk : Disk) (s : Gate) (modVer : List UInt8) (shines : List OwnedShine)
    (captures : List MsgFontSafe.CString) (goalSent : Bool) (chunks : List (List UInt8))
    (stream : chunks.flatten = sent (sendSnapshot modVer shines captures goalSent))
    (fine : ∀ m ∈ sendSnapshot modVer shines captures goalSent, Fits m ∧ m.piece.clean = true) :
    readSnapshot disk (handleClient [] chunks) s =
        (collected s (arrivedEntries shines captures) goalSent).step (.stateEnd disk) ∧
      (arrivedEntries shines captures = allEntries shines captures ↔
        (∀ run ∈ runs (staged shines), run.length ≤ kSnapshotMaxShinesPerStage) ∧
          (∀ sh ∈ staged shines, isMeta sh = false) ∧
            (namedCaptures captures).length ≤ kSnapshotMaxCaptures) :=
  ⟨readSnapshot_sent disk s modVer shines captures goalSent stream fine,
    arrivedEntries_eq_all_iff shines captures⟩

/-- A shine of the Cap Kingdom. -/
def capShine : OwnedShine :=
  ⟨⟨Json.ascii "CapWorldHomeStage", by decide⟩, ⟨Json.ascii "obj1", by decide⟩, 7⟩

/-- A save with one shine and a frog, whose lines come in two pieces. -/
theorem snapshot_arrives_capShine :
    readSnapshot {} (handleClient []
        [(sent (sendSnapshot [] [capShine] [⟨Json.ascii "Frog", by decide⟩] true)).take 50,
          (sent (sendSnapshot [] [capShine] [⟨Json.ascii "Frog", by decide⟩] true)).drop 50])
        { ctx := { dp := samplePackage } } =
      (collected { ctx := { dp := samplePackage } }
        (arrivedEntries [capShine] [⟨Json.ascii "Frog", by decide⟩]) true).step (.stateEnd {}) :=
  (snapshot_arrives {} { ctx := { dp := samplePackage } } [] [capShine]
    [⟨Json.ascii "Frog", by decide⟩] true _ (by rw [List.flatten_cons, List.flatten_singleton,
      List.take_append_drop]) (by decide +kernel)).1

end SmoArchipelago.Bridge
