import SmoArchipelago.Bridge.ReplayFits
import SmoArchipelago.Bridge.WireRoundTrip
import SmoArchipelago.Switch.EntranceMap
import SmoArchipelago.Switch.LineReader

/-! # Entrance shuffle from the slot data to the Switch

A permutation of subareas becomes two rows a moved pair, the rows are sent in chunks, and the
Switch rewrites transitions by the table it builds from them.

## Implementation notes

The lines are decoded into messages that may hold anything, since other lines may have come
before, and the read buffer holds no part of a line where a push starts. A chunk that is too long
raises, and nothing of the push follows it; one that fills the read buffer is sent and lost. -/

namespace SmoArchipelago.Bridge

open Library JsonText Framing Switch ApProtocol Switch.Json
open Switch.Outbound (kInboundLineCap)
open Switch.LineReader (kept kept_of_short)

/-- A name as the fields of the Switch can hold it. -/
structure GameName where
  text : String
  nonempty : text ≠ ""
  short : (utf8Bytes text).length < kCheckFieldCap
  noNul : Char.ofNat 0 ∉ text.toList

namespace GameName

def bytes (n : GameName) : List UInt8 := utf8Bytes n.text

theorem bytes_wireField (n : GameName) : (wireField n.text : CStr kCheckFieldCap).bytes = n.bytes := by
  rw [BridgeMsg.wireField_bytes n.noNul]
  exact List.take_of_length_le (Nat.le_sub_one_of_lt n.short)

theorem bytes_ne_nil (n : GameName) : n.bytes ≠ [] := by
  intro none_left
  exact n.nonempty (utf8Bytes_injective (none_left.trans (by decide : [] = utf8Bytes "")))

theorem bytes_inj {n n' : GameName} : n.bytes = n'.bytes ↔ n.text = n'.text :=
  utf8Bytes_injective.eq_iff

theorem present (n : GameName) : Present (some n.text) := ⟨n.text, rfl, n.nonempty⟩

end GameName

/-- A subarea with its stage, its primary entry and its primary exit. -/
structure Subarea where
  stage : GameName
  entryId : GameName
  exitDest : GameName
  exitId : GameName

def Subarea.record (a : Subarea) : StageRecord :=
  ⟨some a.stage.text, some a.entryId.text, some a.exitDest.text, some a.exitId.text⟩

/-- A permutation of subareas with their records in the table of stages. -/
structure Shuffle where
  sigma : Dict String String
  stages : String → Option StageRecord
  subarea : String → Subarea
  permutes : sigma.values.Perm sigma.keys
  recorded : ∀ D ∈ sigma.keys, stages D = some (subarea D).record
  apart : ∀ D ∈ sigma.keys, ∀ D' ∈ sigma.keys,
    (subarea D).stage.text = (subarea D').stage.text → D = D'
  outside : ∀ D ∈ sigma.keys, ∀ D' ∈ sigma.keys,
    (subarea D).exitDest.text ≠ (subarea D').stage.text
  few : (compileStageRemaps sigma stages).length ≤ kEntranceRemapMax

namespace Shuffle

variable (s : Shuffle)

def stage (D : String) : List UInt8 := (s.subarea D).stage.bytes

def entryId (D : String) : List UInt8 := (s.subarea D).entryId.bytes

def exitDest (D : String) : List UInt8 := (s.subarea D).exitDest.bytes

def exitId (D : String) : List UInt8 := (s.subarea D).exitId.bytes

def rows : List StageRemap := compileStageRemaps s.sigma s.stages

/-- The pairs that are not the identity. -/
def moved : List (String × String) := s.sigma.entries.filter fun e => e.1 ≠ e.2

def entryKeys : List (List UInt8) := s.moved.map fun e => s.stage e.1

/-- The shuffled interiors. -/
def interiors : List (List UInt8) := s.moved.map fun e => s.stage e.2

/-! ## The rows -/

def entryRow (e : String × String) : StageRemap :=
  ⟨"entry", (s.subarea e.1).stage.text, (s.subarea e.2).stage.text, (s.subarea e.2).entryId.text⟩

def exitRow (e : String × String) : StageRemap :=
  ⟨"exit", (s.subarea e.2).stage.text, (s.subarea e.1).exitDest.text, (s.subarea e.1).exitId.text⟩

/-- The row of the table of the Switch for a row of the message. -/
def tableRow (r : StageRemap) : RemapKey × RemapTarget := (remapKey r.read, remapTarget r.read)

variable {s}

theorem mem_moved {e : String × String} : e ∈ s.moved ↔ e ∈ s.sigma.entries ∧ e.1 ≠ e.2 := by
  rw [moved, List.mem_filter, decide_eq_true_eq]

theorem door_mem {e : String × String} (member : e ∈ s.sigma.entries) : e.1 ∈ s.sigma.keys :=
  List.mem_map_of_mem member

theorem interior_mem {e : String × String} (member : e ∈ s.sigma.entries) : e.2 ∈ s.sigma.keys :=
  s.permutes.subset (List.mem_map_of_mem member)

theorem stage_ne_nil (D : String) : s.stage D ≠ [] := GameName.bytes_ne_nil _

theorem stage_inj {D D' : String} (listed : D ∈ s.sigma.keys) (listed' : D' ∈ s.sigma.keys) :
    s.stage D = s.stage D' ↔ D = D' := by
  constructor
  · intro same
    exact s.apart D listed D' listed' (GameName.bytes_inj.1 same)
  · rintro rfl
    rfl

/-- A door leads to one interior, and one door leads to an interior. -/
theorem entry_eq {e e' : String × String} (member : e ∈ s.sigma.entries)
    (member' : e' ∈ s.sigma.entries) (same : e.1 = e'.1 ∨ e.2 = e'.2) : e = e' := by
  rcases same with first | second
  · exact List.inj_on_of_nodup_map s.sigma.distinct member member' first
  · have distinct : (s.sigma.entries.map Prod.snd).Nodup :=
      s.permutes.nodup_iff.2 s.sigma.distinct
    exact List.inj_on_of_nodup_map distinct member member' second

theorem stageRemaps_record (e : String × String) :
    stageRemaps (s.subarea e.1).record (s.subarea e.2).record = [s.entryRow e, s.exitRow e] := by
  rw [stageRemaps, if_pos ⟨GameName.present _, GameName.present _, GameName.present _⟩,
    if_pos ⟨GameName.present _, GameName.present _, GameName.present _⟩]
  rfl

/-- Two rows a moved pair. -/
theorem rows_eq : s.rows = s.moved.flatMap fun e => [s.entryRow e, s.exitRow e] := by
  have rows_of (es : List (String × String)) :
      (es.flatMap fun e => if e.1 = e.2 then [] else [s.entryRow e, s.exitRow e]) =
        (es.filter fun e => e.1 ≠ e.2).flatMap fun e => [s.entryRow e, s.exitRow e] := by
    induction es with
    | nil => rfl
    | cons e es ih =>
        by_cases same : e.1 = e.2
        · simp [same, ih]
        · simp [same, ih]
  calc
    s.rows = s.sigma.entries.flatMap fun e =>
        if e.1 = e.2 then [] else [s.entryRow e, s.exitRow e] := by
      unfold rows compileStageRemaps
      refine List.flatMap_congr fun e member => ?_
      rw [s.recorded e.1 (door_mem member), s.recorded e.2 (interior_mem member)]
      dsimp only
      rw [stageRemaps_record]
    _ = s.moved.flatMap fun e => [s.entryRow e, s.exitRow e] := rows_of s.sigma.entries

theorem tableRow_entryRow (e : String × String) :
    tableRow (s.entryRow e) =
      ((s.stage e.1, false), (wireField (s.subarea e.2).stage.text, wireField (s.subarea e.2).entryId.text)) := by
  have entry : decide ((wireField "entry" : CStr kCheckFieldCap).bytes = ascii "exit") = false := by
    decide
  rw [tableRow, remapKey, remapTarget, entryRow, StageRemap.read]
  dsimp only
  rw [entry, GameName.bytes_wireField]
  rfl

theorem tableRow_exitRow (e : String × String) :
    tableRow (s.exitRow e) =
      ((s.stage e.2, true), (wireField (s.subarea e.1).exitDest.text, wireField (s.subarea e.1).exitId.text)) := by
  have exit : decide ((wireField "exit" : CStr kCheckFieldCap).bytes = ascii "exit") = true := by
    decide
  rw [tableRow, remapKey, remapTarget, exitRow, StageRemap.read]
  dsimp only
  rw [exit, GameName.bytes_wireField]
  rfl

/-- The keys of the rows tell them apart. -/
theorem nodup_keys : (s.rows.map fun r => (tableRow r).1).Nodup := by
  have keys : (s.rows.map fun r => (tableRow r).1) =
      s.moved.flatMap fun e => [(s.stage e.1, false), (s.stage e.2, true)] := by
    rw [rows_eq, List.map_flatMap]
    apply List.flatMap_congr
    intro e _
    rw [List.map_cons, List.map_singleton, tableRow_entryRow, tableRow_exitRow]
  have distinct : s.moved.Nodup := (List.Nodup.of_map Prod.fst s.sigma.distinct).filter _
  rw [keys, List.nodup_flatMap]
  refine ⟨fun e _ => by simp, distinct.imp_of_mem fun {e e'} member member' other => ?_⟩
  have listed := (mem_moved.1 member).1
  have listed' := (mem_moved.1 member').1
  simp only [Function.onFun, List.disjoint_cons_left, List.mem_cons, Prod.mk.injEq, Bool.false_eq_true,
    Bool.true_eq_false, and_true, and_false, or_false, false_or, List.not_mem_nil,
    List.disjoint_nil_left]
  refine ⟨fun same => other ?_, fun same => other ?_⟩
  · exact entry_eq listed listed' (.inl ((stage_inj (door_mem listed) (door_mem listed')).1 same))
  · exact entry_eq listed listed' (.inr ((stage_inj (interior_mem listed) (interior_mem listed')).1 same))

/-! ## The table of some of the rows -/

/-- Rows merged into a cleared table. -/
def table (rows : List StageRemap) : RemapTable :=
  (rows.map StageRemap.read).foldl RemapTable.merge RemapTable.empty

theorem entries_table {rows : List StageRemap} (some_of : rows.Sublist s.rows) :
    (table rows).rows.entries = rows.map tableRow := by
  have keys : (rows.map StageRemap.read).map remapKey = rows.map fun r => (tableRow r).1 :=
    List.map_map
  have named (e : EntranceRemapEntry) (member : e ∈ rows.map StageRemap.read) :
      e.from.isEmpty = false := by
    obtain ⟨r, here, rfl⟩ := List.mem_map.1 member
    have listed := some_of.subset here
    rw [rows_eq, List.mem_flatMap] at listed
    obtain ⟨p, -, row⟩ := listed
    have nonempty (n : GameName) : (wireField n.text : CStr kCheckFieldCap).isEmpty = false := by
      rw [CStr.isEmpty, n.bytes_wireField, List.isEmpty_eq_false_iff]
      exact n.bytes_ne_nil
    rcases List.mem_cons.1 row with rfl | later
    · exact nonempty _
    · rw [List.mem_singleton.1 later]
      exact nonempty _
  have few : RemapTable.empty.rows.size + (rows.map StageRemap.read).length ≤ kEntranceRemapMax := by
    rw [List.length_map]
    exact (Nat.zero_add _).trans_le (some_of.length_le.trans s.few)
  rw [table, RemapTable.entries_foldl_merge _ _ named _ few, List.map_map]
  · rfl
  · rw [keys]
    exact nodup_keys.sublist (some_of.map _)

theorem get?_table {rows : List StageRemap} (some_of : rows.Sublist s.rows) {key : RemapKey}
    {target : RemapTarget} :
    (table rows).rows.get? key = some target ↔ ∃ r ∈ rows, tableRow r = (key, target) := by
  rw [Dict.get?_eq_some, entries_table some_of, List.mem_map]

/-- The rows of a moved pair are looked up in the table of all rows. -/
theorem get?_entry {D I : String} (member : (D, I) ∈ s.moved) :
    (table s.rows).rows.get? (s.stage D, false) =
      some (wireField (s.subarea I).stage.text, wireField (s.subarea I).entryId.text) := by
  apply (get?_table (List.Sublist.refl _)).2
  refine ⟨s.entryRow (D, I), ?_, tableRow_entryRow (D, I)⟩
  rw [rows_eq]
  exact List.mem_flatMap.2 ⟨(D, I), member, List.mem_cons_self⟩

theorem get?_exit {D I : String} (member : (D, I) ∈ s.moved) :
    (table s.rows).rows.get? (s.stage I, true) =
      some (wireField (s.subarea D).exitDest.text, wireField (s.subarea D).exitId.text) := by
  apply (get?_table (List.Sublist.refl _)).2
  refine ⟨s.exitRow (D, I), ?_, tableRow_exitRow (D, I)⟩
  rw [rows_eq]
  exact List.mem_flatMap.2 ⟨(D, I), member, List.mem_cons_of_mem _ List.mem_cons_self⟩

/-- A key of the table of some of the rows is that of a moved pair. -/
theorem key_of_get? {rows : List StageRemap} (some_of : rows.Sublist s.rows) {name : List UInt8}
    {isExit : Bool} {target : RemapTarget} (found : (table rows).rows.get? (name, isExit) = some target) :
    name ∈ if isExit then s.interiors else s.entryKeys := by
  obtain ⟨r, member, row⟩ := (get?_table some_of).1 found
  have listed := some_of.subset member
  rw [rows_eq, List.mem_flatMap] at listed
  obtain ⟨e, moved, pair⟩ := listed
  rcases List.mem_cons.1 pair with rfl | later
  · rw [tableRow_entryRow, Prod.mk.injEq, Prod.mk.injEq] at row
    rw [← row.1.1, ← row.1.2]
    exact List.mem_map_of_mem moved
  · rw [List.mem_singleton.1 later, tableRow_exitRow, Prod.mk.injEq, Prod.mk.injEq] at row
    rw [← row.1.1, ← row.1.2]
    exact List.mem_map_of_mem moved

theorem get?_entry_eq_none {rows : List StageRemap} (some_of : rows.Sublist s.rows)
    {name : List UInt8} (other : name ∉ s.entryKeys) : (table rows).rows.get? (name, false) = none := by
  cases found : (table rows).rows.get? (name, false) with
  | none => rfl
  | some target => exact absurd (key_of_get? some_of found) other

theorem get?_exit_eq_none {rows : List StageRemap} (some_of : rows.Sublist s.rows)
    {name : List UInt8} (other : name ∉ s.interiors) : (table rows).rows.get? (name, true) = none := by
  cases found : (table rows).rows.get? (name, true) with
  | none => rfl
  | some target => exact absurd (key_of_get? some_of found) other

/-! ## What the player is promised -/

variable (s)

/-- Transitions are rewritten as the permutation says. A text that stands for a missing name
is the destination of a transition only where a record has it for a name. -/
structure Rewrites (t : RemapTable) : Prop where
  enters : ∀ D I, (D, I) ∈ s.sigma.entries → D ≠ I → ∀ cur id, cur ≠ s.stage D →
    processEntranceRemap t cur ⟨some (s.stage D), some id⟩ =
      some ⟨some (s.stage I), some (s.entryId I)⟩
  stays : ∀ D, (D, D) ∈ s.sigma.entries → ∀ cur id, cur ≠ s.stage D → cur ∉ s.interiors →
    processEntranceRemap t cur ⟨some (s.stage D), some id⟩ = none
  leaves : ∀ D I, (D, I) ∈ s.sigma.entries → D ≠ I → ∀ dest id, dest ≠ [] →
    (dest = nullName → dest = s.exitDest I) → dest ∉ s.entryKeys →
      processEntranceRemap t (s.stage I) ⟨some dest, some id⟩ =
        some ⟨some (s.exitDest D), some (s.exitId D)⟩
  leavesHome : ∀ D, (D, D) ∈ s.sigma.entries → ∀ dest id, dest ∉ s.entryKeys →
    processEntranceRemap t (s.stage D) ⟨some dest, some id⟩ = none

/-- The transition that the game makes. -/
def transition (t : RemapTable) (cur : List UInt8) (info : ChangeStageInfo) : ChangeStageInfo :=
  (processEntranceRemap t cur info).getD info

/-- Through a door and out again leads back to the door. -/
def RoundTrip (t : RemapTable) : Prop :=
  ∀ D I, (D, I) ∈ s.sigma.entries → ∀ cur id, cur ≠ s.stage D → (D = I → cur ∉ s.interiors) →
    (transition t cur ⟨some (s.stage D), some id⟩).changeStageName = some (s.stage I) ∧
      transition t (s.stage I) ⟨some (s.exitDest I), some (s.exitId I)⟩ =
        ⟨some (s.exitDest D), some (s.exitId D)⟩

structure Works (t : RemapTable) : Prop extends Rewrites s t where
  roundTrip : s.RoundTrip t

/-- No name of a moved pair reads like a missing one. -/
def Named : Prop := ∀ e ∈ s.moved, s.stage e.1 ≠ nullName ∧ s.exitDest e.2 ≠ nullName

/-- Every chunk is shorter than the read buffer. -/
def Fits : Prop :=
  ∀ i chunk, (chunks entranceMapChunk s.rows)[i]? = some chunk →
    40 + listSize (chunk.map fun e => e.entrySize) + boolSize (i = 0) < kInboundLineCap

variable {s}

/-- An exit of the subareas is no door. -/
theorem exitDest_not_mem {I : String} (listed : I ∈ s.sigma.keys) : s.exitDest I ∉ s.entryKeys := by
  intro door
  obtain ⟨e, moved, same⟩ := List.mem_map.1 door
  exact s.outside I listed e.1 (door_mem (mem_moved.1 moved).1) (GameName.bytes_inj.1 same.symm)

theorem Rewrites.roundTrip {t : RemapTable} (h : s.Rewrites t) : s.RoundTrip t := by
  intro D I member cur id away outside
  have door : s.exitDest I ∉ s.entryKeys := exitDest_not_mem (interior_mem member)
  by_cases same : D = I
  · subst same
    rw [transition, transition, h.stays D member cur id away (outside rfl),
      h.leavesHome D member _ _ door]
    exact ⟨rfl, rfl⟩
  · have out := h.leaves D I member same (s.exitDest I) (s.exitId I) (GameName.bytes_ne_nil _)
      (fun _ => rfl) door
    rw [transition, transition, h.enters D I member same cur id away, out]
    exact ⟨rfl, rfl⟩

/-- The table of all rows rewrites as promised. -/
theorem rewrites_table (named : s.Named) : s.Rewrites (table s.rows) := by
  have all : s.rows.Sublist s.rows := List.Sublist.refl _
  constructor
  · intro D I member other cur id away
    have moved : (D, I) ∈ s.moved := mem_moved.2 ⟨member, other⟩
    have goes : ¬ (s.stage D = [] ∨ s.stage D = nullName ∨ s.stage D = cur) := by
      rintro (none_left | missing | here)
      · exact stage_ne_nil D none_left
      · exact (named _ moved).1 missing
      · exact away here.symm
    rw [processEntranceRemap_eq, if_neg goes, RemapTable.lookup_entry (stage_ne_nil D) (get?_entry moved)]
    exact congrArg₂ (fun a b => some (ChangeStageInfo.mk (some a) (some b)))
      (GameName.bytes_wireField _) (GameName.bytes_wireField _)
  · intro D member cur id _ outside
    have door : s.stage D ∉ s.entryKeys := by
      intro door
      obtain ⟨e, moved, same⟩ := List.mem_map.1 door
      obtain ⟨listed, other⟩ := mem_moved.1 moved
      have first := (stage_inj (door_mem listed) (door_mem member)).1 same
      exact other (by rw [entry_eq listed member (.inl first)])
    exact processEntranceRemap_none
      (RemapTable.lookup_none (get?_entry_eq_none all door) (get?_exit_eq_none all outside)) id
  · intro D I member other dest id given missing door
    have moved : (D, I) ∈ s.moved := mem_moved.2 ⟨member, other⟩
    have inside : s.stage I ∈ s.entryKeys := by
      obtain ⟨e, listed, first⟩ := List.mem_map.1 (interior_mem member)
      refine List.mem_map.2 ⟨e, mem_moved.2 ⟨listed, fun still => other ?_⟩, congrArg s.stage first⟩
      exact (congrArg Prod.fst (entry_eq member listed (.inr (first.symm.trans still)))).trans first
    have goes : ¬ (dest = [] ∨ dest = nullName ∨ dest = s.stage I) := by
      rintro (none_left | null | here)
      · exact given none_left
      · exact (named _ moved).2 ((missing null).symm.trans null)
      · exact door (here ▸ inside)
    rw [processEntranceRemap_eq, if_neg goes,
      RemapTable.lookup_exit (stage_ne_nil I) (get?_entry_eq_none all door), get?_exit moved]
    exact congrArg₂ (fun a b => some (ChangeStageInfo.mk (some a) (some b)))
      (GameName.bytes_wireField _) (GameName.bytes_wireField _)
  · intro D member dest id door
    have home : s.stage D ∉ s.interiors := by
      intro inside
      obtain ⟨e, moved, same⟩ := List.mem_map.1 inside
      obtain ⟨listed, other⟩ := mem_moved.1 moved
      have second := (stage_inj (interior_mem listed) (door_mem member)).1 same
      exact other (by rw [entry_eq listed member (.inr second)])
    exact processEntranceRemap_none
      (RemapTable.lookup_none (get?_entry_eq_none all door) (get?_exit_eq_none all home)) id

/-! ## The lines of a push -/

/-- The chunks of a push, the first with the reset. -/
def pushed (rows : List StageRemap) : List (List StageRemap × Bool) :=
  if rows = [] then [([], true)]
  else (chunks entranceMapChunk rows).mapIdx fun i chunk => (chunk, decide (i = 0))

def chunkMsg (c : List StageRemap × Bool) : WireMsg := .entranceMap c.1 c.2

theorem pushEntranceMap_eq (rows : List StageRemap) :
    pushEntranceMap rows = (pushed rows).map chunkMsg := by
  rw [pushEntranceMap, pushed]
  split_ifs
  · rfl
  · rw [List.mapIdx_eq_zipIdx_map, List.mapIdx_eq_zipIdx_map, List.map_map]
    rfl

theorem length_pushed {rows : List StageRemap} {c : List StageRemap × Bool} (member : c ∈ pushed rows) :
    c.1.length ≤ 48 := by
  rw [pushed] at member
  split_ifs at member
  · rw [List.mem_singleton.1 member]
    exact Nat.zero_le _
  · obtain ⟨i, inside, rfl⟩ := List.mem_mapIdx.1 member
    exact length_le_of_mem_chunks (List.getElem_mem inside)

/-- The bytes of messages sent one after the other; the first that is too long ends them. -/
def sentBytes (msgs : List WireMsg) : List UInt8 :=
  (msgs.takeWhile fun msg => (encode msg).isSome).flatMap fun msg => (encode msg).getD []

/-- The chunks that are sent. -/
def sent (rows : List StageRemap) : List (List StageRemap × Bool) :=
  (pushed rows).takeWhile fun c => (encode (chunkMsg c)).isSome

/-- The chunks that come out of the read buffer. -/
def arrived (rows : List StageRemap) : List (List StageRemap × Bool) :=
  (sent rows).filter fun c => (chunkMsg c).lineSize < kInboundLineCap

theorem newline_not_mem_chunk (c : List StageRemap × Bool) :
    (0x0a : UInt8) ∉ bytes (chunkMsg c).toWire := by
  have row (r : StageRemap) : '\n' ∉ r.text := by
    apply newline_not_mem_object
    simp only [List.forall_mem_cons, newline_not_mem_quoted, not_false_eq_true, List.not_mem_nil,
      false_implies, implies_true, and_self]
  have entries : '\n' ∉ array (c.1.map StageRemap.text) :=
    newline_not_mem_array (List.forall_mem_map.2 fun r _ => row r)
  apply newline_not_mem_bytes
  rw [chunkMsg, WireMsg.toWire, tagged]
  apply newline_not_mem_object
  rw [List.forall_mem_cons, List.forall_mem_cons, List.forall_mem_singleton]
  exact ⟨newline_not_mem_quoted _, entries, newline_not_mem_bool _⟩

theorem encode_of_sent {rows : List StageRemap} {c : List StageRemap × Bool} (member : c ∈ sent rows) :
    (encode (chunkMsg c)).isSome = true := by
  rw [sent] at member
  have encodes := List.mem_takeWhile_imp member
  exact encodes

theorem sentBytes_eq (rows : List StageRemap) :
    sentBytes (pushEntranceMap rows) =
      (sent rows).flatMap fun c => bytes (chunkMsg c).toWire ++ [0x0a] := by
  have msgs : ((pushEntranceMap rows).takeWhile fun msg => (encode msg).isSome) =
      (sent rows).map chunkMsg := by
    rw [pushEntranceMap_eq, List.takeWhile_map, sent]
    simp only [Function.comp_def]
  rw [sentBytes, msgs, List.flatMap_map]
  apply List.flatMap_congr
  intro c member
  rw [encode, if_pos ((encode_isSome _).1 (encode_of_sent member)), Option.getD_some]

/-- The lines that the Switch handles of messages which come in in any pieces. -/
def Handled (msgs : List WireMsg) (handled : List (List UInt8)) : Prop :=
  ∃ ready : List ℕ,
    (ready.foldl Switch.LineReader.step { stream := sentBytes msgs }).stream = [] ∧
      (ready.foldl Switch.LineReader.step { stream := sentBytes msgs }).handled = handled

theorem Handled.eq {rows : List StageRemap} {handled : List (List UInt8)}
    (h : Handled (pushEntranceMap rows) handled) :
    handled = (sent rows).map fun c => kept (bytes (chunkMsg c).toWire) := by
  obtain ⟨ready, all, rfl⟩ := h
  rw [Switch.LineReader.handled_eq all, sentBytes_eq]
  calc (lines Switch.LineReader.newline
          ((sent rows).flatMap fun c => bytes (chunkMsg c).toWire ++ [0x0a])).map kept
      = ((sent rows).map fun c => bytes (chunkMsg c).toWire).map kept :=
        congrArg _ (lines_flatMap fun c _ => newline_not_mem_chunk c)
    _ = _ := List.map_map

theorem handled_bytewise (rows : List StageRemap) : Handled (pushEntranceMap rows)
    ((sent rows).map fun c => kept (bytes (chunkMsg c).toWire)) := by
  have all := Switch.LineReader.received_bytewise (sentBytes (pushEntranceMap rows))
  have handled : Handled (pushEntranceMap rows) _ := ⟨_, all, rfl⟩
  exact handled.eq ▸ handled

/-- A chunk as the Switch applies it. -/
def applyChunk (t : RemapTable) (c : List StageRemap × Bool) : RemapTable :=
  t.applyEntranceMap (c.1.map StageRemap.read) c.2

theorem handleEntranceLine_chunk {c : List StageRemap × Bool} (few : c.1.length ≤ 64)
    (t : RemapTable) (m : DecodedMsg) :
    handleEntranceLine t (bytes (chunkMsg c).toWire, m) = applyChunk t c := by
  obtain ⟨out, parsed, reset, live, truncated⟩ := parse_entranceMap c.1 c.2 m.entranceMap
  have parses : DecodedMsg.parse { m with t := wireField (BridgeMsg.tag .entranceMap) }
      (BridgeMsg.entranceMap c.1 c.2).body .entranceMap =
        (true, atEnd, { m with t := wireField (BridgeMsg.tag .entranceMap), entranceMap := out }) :=
    congrArg (putBack fun v => { m with t := wireField (BridgeMsg.tag .entranceMap), entranceMap := v }) parsed
  have decoded := decode_tagged (BridgeMsg.ofTag_tag .entranceMap) parses
  have line : bytes (chunkMsg c).toWire = bytes (BridgeMsg.entranceMap c.1 c.2).toWire :=
    congrArg bytes (WireMsg.toWire_toBridge (chunkMsg c)).symm
  have viewed : ({ m with t := wireField (BridgeMsg.tag .entranceMap), entranceMap := out } : DecodedMsg).view =
      .entranceMap (c.1.map StageRemap.read) c.2 (decide (64 < c.1.length)) := by
    rw [DecodedMsg.view, wireField, BridgeMsg.ofTag_tag]
    rw [List.take_of_length_le (by rwa [List.length_map])] at live
    exact (View.entranceMap.injEq _ _ _ _ _ _).mpr ⟨live, reset, truncated⟩
  rw [handleEntranceLine, line]
  rw [show decode (bytes (BridgeMsg.entranceMap c.1 c.2).toWire) m = _ from decoded]
  rw [if_pos rfl, viewed]
  rfl

/-- What is left of a line that fills the read buffer is no message. -/
theorem handleEntranceLine_nil (t : RemapTable) (m : DecodedMsg) :
    handleEntranceLine t ([], m) = t := by
  have refused : (decode [] m).1 = false := rfl
  rw [handleEntranceLine, refused]
  exact if_neg Bool.false_ne_true

/-- A chunk that was sent has its effect if it came out of the read buffer, and none otherwise. -/
theorem handleEntranceLine_kept {c : List StageRemap × Bool} (few : c.1.length ≤ 64)
    (sent : (encode (chunkMsg c)).isSome = true) (t : RemapTable) (m : DecodedMsg) :
    handleEntranceLine t (kept (bytes (chunkMsg c).toWire), m) =
      if (chunkMsg c).lineSize < kInboundLineCap then applyChunk t c else t := by
  have length : (bytes (chunkMsg c).toWire).length = (chunkMsg c).lineSize := by
    rw [length_bytes, size_toWire]
  split_ifs with short
  · rw [kept_of_short (length ▸ short), handleEntranceLine_chunk few]
  · have most : (chunkMsg c).lineSize ≤ kInboundLineCap := by
      rw [← size_toWire]
      exact (encode_isSome _).1 sent
    have full : (bytes (chunkMsg c).toWire).length = kInboundLineCap := by omega
    have filled : (kept []).length + (bytes (chunkMsg c).toWire).length = kInboundLineCap :=
      (Nat.zero_add _).trans full
    have nothing := Switch.LineReader.kept_full filled
    rw [List.nil_append] at nothing
    rw [nothing, handleEntranceLine_nil]

/-- The lines have their effect whatever the messages held. -/
theorem foldl_history {cs : List (List StageRemap × Bool)} (few : ∀ c ∈ cs, c.1.length ≤ 64)
    (sent : ∀ c ∈ cs, (encode (chunkMsg c)).isSome = true)
    {history : List (List UInt8 × DecodedMsg)}
    (lines : history.map Prod.fst = cs.map fun c => kept (bytes (chunkMsg c).toWire))
    (t : RemapTable) :
    history.foldl handleEntranceLine t =
      (cs.filter fun c => (chunkMsg c).lineSize < kInboundLineCap).foldl applyChunk t := by
  induction cs generalizing history t with
  | nil =>
      rw [List.map_eq_nil_iff.1 lines]
      rfl
  | cons c cs ih =>
      obtain ⟨line, history, rfl, first, rest⟩ := List.map_eq_cons_iff.1 lines
      have handled := handleEntranceLine_kept (few c List.mem_cons_self) (sent c List.mem_cons_self) t
        line.2
      have whole : line = (kept (bytes (chunkMsg c).toWire), line.2) := Prod.ext first rfl
      rw [← whole] at handled
      have later := ih (fun c' member => few c' (List.mem_cons_of_mem c member))
        (fun c' member => sent c' (List.mem_cons_of_mem c member)) rest
      rw [List.foldl_cons, handled, later]
      by_cases short : (chunkMsg c).lineSize < kInboundLineCap
      · rw [if_pos short, List.filter_cons, if_pos (decide_eq_true short), List.foldl_cons]
      · rw [if_neg short, List.filter_cons, if_neg (by rwa [decide_eq_true_eq])]

theorem foldl_later {cs : List (List StageRemap × Bool)} (later : ∀ c ∈ cs, c.2 = false)
    (t : RemapTable) :
    cs.foldl applyChunk t =
      ((cs.map Prod.fst).flatten.map StageRemap.read).foldl RemapTable.merge t := by
  induction cs generalizing t with
  | nil => rfl
  | cons c cs ih =>
      have merged : applyChunk t c = (c.1.map StageRemap.read).foldl RemapTable.merge t := by
        rw [applyChunk, RemapTable.applyEntranceMap, later c List.mem_cons_self,
          if_neg Bool.false_ne_true]
      rw [List.foldl_cons, ih (fun c' member => later c' (List.mem_cons_of_mem c member)), merged,
        List.map_cons, List.flatten_cons, List.map_append, List.foldl_append]

/-- The first chunk clears what the table held. -/
theorem foldl_first (chunk : List StageRemap) {cs : List (List StageRemap × Bool)}
    (later : ∀ c ∈ cs, c.2 = false) (t : RemapTable) :
    ((chunk, true) :: cs).foldl applyChunk t = table (chunk ++ (cs.map Prod.fst).flatten) := by
  rw [List.foldl_cons, foldl_later later, table, List.map_append, List.foldl_append]
  rfl

theorem pushed_eq (rows : List StageRemap) :
    ∃ chunk cs, pushed rows = (chunk, true) :: cs ∧ (∀ c ∈ cs, c.2 = false) ∧
      chunk ++ (cs.map Prod.fst).flatten = rows := by
  have together : (chunks entranceMapChunk rows).flatten = rows :=
    flatten_chunks (by decide : 0 < entranceMapChunk) rows
  rw [pushed]
  split_ifs with nothing
  · exact ⟨[], [], rfl, fun c member => absurd member List.not_mem_nil, nothing.symm⟩
  · cases split : chunks entranceMapChunk rows with
    | nil =>
        rw [split] at together
        exact absurd together.symm nothing
    | cons chunk cs =>
        refine ⟨chunk, _, List.mapIdx_cons, fun c member => ?_, ?_⟩
        · obtain ⟨i, _, rfl⟩ := List.mem_mapIdx.1 member
          exact decide_eq_false (Nat.succ_ne_zero i)
        · have firsts : (cs.mapIdx fun i c => (c, decide (i + 1 = 0))).map Prod.fst = cs := by
            rw [List.mapIdx_eq_zipIdx_map, List.map_map]
            exact List.zipIdx_map_fst 0 cs
          rw [firsts, ← together, split, List.flatten_cons]

/-- A whole push leaves the rows in the table, whatever it held. -/
theorem foldl_pushed (rows : List StageRemap) (t : RemapTable) :
    (pushed rows).foldl applyChunk t = table rows := by
  obtain ⟨chunk, cs, split, later, together⟩ := pushed_eq rows
  rw [split, foldl_first chunk later, together]

theorem foldl_replays (rows : List StageRemap) {replays : ℕ} (some_replay : replays ≠ 0)
    (t : RemapTable) :
    (List.replicate replays (pushed rows)).flatten.foldl applyChunk t = table rows := by
  obtain ⟨n, rfl⟩ := Nat.exists_eq_succ_of_ne_zero some_replay
  clear some_replay
  induction n generalizing t with
  | zero =>
      rw [List.replicate_one, List.flatten_singleton]
      exact foldl_pushed rows t
  | succ n ih =>
      rw [List.replicate_succ, List.flatten_cons, List.foldl_append]
      exact ih _

theorem fits_iff : s.Fits ↔ ∀ c ∈ pushed s.rows, (chunkMsg c).lineSize < kInboundLineCap := by
  rw [Fits, pushed]
  split_ifs with nothing
  · rw [nothing, List.forall_mem_singleton]
    refine ⟨fun _ => by decide, fun _ i chunk here => ?_⟩
    cases here
  · constructor
    · intro short c member
      obtain ⟨i, inside, rfl⟩ := List.mem_mapIdx.1 member
      exact short i _ (List.getElem?_eq_getElem inside)
    · intro short i chunk here
      obtain ⟨inside, rfl⟩ := List.getElem?_eq_some_iff.1 here
      exact short _ (List.mem_mapIdx.2 ⟨i, inside, rfl⟩)

theorem arrived_sublist (rows : List StageRemap) : (arrived rows).Sublist (pushed rows) :=
  List.filter_sublist.trans (List.takeWhile_sublist _)

/-- Where all chunks are short, all arrive. -/
theorem arrived_of_fits (fits : s.Fits) : arrived s.rows = pushed s.rows := by
  have short := fits_iff.1 fits
  have all_sent : sent s.rows = pushed s.rows := by
    apply List.takeWhile_eq_self_iff.2
    intro c member
    apply (encode_isSome _).2
    rw [size_toWire]
    exact (short c member).le
  rw [arrived, all_sent, List.filter_eq_self]
  exact fun c member => decide_eq_true (short c member)

/-- Over an empty table the first chunk need not be among those that arrive. -/
theorem foldl_arrived (rows : List StageRemap) :
    (arrived rows).foldl applyChunk RemapTable.empty =
      table ((arrived rows).map Prod.fst).flatten := by
  obtain ⟨chunk, cs, split, later, -⟩ := pushed_eq rows
  have some_of := arrived_sublist rows
  rw [split] at some_of
  generalize arrived rows = came at some_of ⊢
  cases some_of with
  | cons _ rest => exact foldl_later (fun c member => later c (rest.subset member)) RemapTable.empty
  | cons_cons _ rest => exact foldl_first chunk (fun c member => later c (rest.subset member)) _

/-- The rows of a chunk that is too long do not arrive. -/
theorem unsent (long : ¬ s.Fits) : ∃ r ∈ s.rows, r ∉ ((arrived s.rows).map Prod.fst).flatten := by
  rw [fits_iff] at long
  push Not at long
  obtain ⟨c, member, long⟩ := long
  obtain ⟨chunk, cs, split, -, together⟩ := pushed_eq s.rows
  have all : (pushed s.rows).flatMap Prod.fst = s.rows := by
    rw [split, List.flatMap_cons, ← together, List.flatMap_def]
  cases rows : c.1 with
  | nil =>
      have small : (chunkMsg c).lineSize < kInboundLineCap := by
        rw [chunkMsg, rows]
        cases c.2 <;> decide
      exact absurd small (not_lt.2 long)
  | cons r rest =>
      have here : r ∈ c.1 := rows ▸ List.mem_cons_self
      refine ⟨r, all ▸ List.mem_flatMap.2 ⟨c, member, here⟩, fun again => ?_⟩
      rw [← List.flatMap_def] at again
      obtain ⟨c', came, here'⟩ := List.mem_flatMap.1 again
      have other : c' ≠ c := by
        rintro rfl
        have short := of_decide_eq_true (List.mem_filter.1 came).2
        exact absurd short (not_lt.2 long)
      have distinct : ((pushed s.rows).flatMap Prod.fst).Nodup := all.symm ▸ nodup_keys.of_map
      have symm : Std.Symm (Function.onFun List.Disjoint (Prod.fst : List StageRemap × Bool → _)) :=
        ⟨fun _ _ => List.Disjoint.symm⟩
      have apart := (List.nodup_flatMap.1 distinct).2.forall ((arrived_sublist s.rows).subset came)
        member other
      exact apart here' here

/-! ## The promise is kept exactly if the chunks fit and the names are names -/

/-- A row that does not arrive is missed by the player. -/
theorem not_rewrites {rows : List StageRemap} (some_of : rows.Sublist s.rows) {r : StageRemap}
    (listed : r ∈ s.rows) (lost : r ∉ rows) : ¬ s.Rewrites (table rows) := by
  intro h
  have missing : (table rows).rows.get? (tableRow r).1 = none := by
    cases found : (table rows).rows.get? (tableRow r).1 with
    | none => rfl
    | some target =>
        obtain ⟨r', member, row⟩ := (get?_table some_of).1 found
        have keys : (tableRow r').1 = (tableRow r).1 := by rw [row]
        have same : r' = r := List.inj_on_of_nodup_map nodup_keys (some_of.subset member) listed keys
        exact absurd (same ▸ member) lost
  rw [rows_eq, List.mem_flatMap] at listed
  obtain ⟨⟨D, I⟩, moved, pair⟩ := listed
  obtain ⟨member, other⟩ := mem_moved.1 moved
  rcases List.mem_cons.1 pair with rfl | later
  · -- the door is entered where no exit is
    rw [tableRow_entryRow] at missing
    have nowhere : ([] : List UInt8) ∉ s.interiors := by
      intro inside
      obtain ⟨e, _, nameless⟩ := List.mem_map.1 inside
      exact stage_ne_nil _ nameless
    have kept := processEntranceRemap_none
      (RemapTable.lookup_none missing (get?_exit_eq_none some_of nowhere)) []
    have entered := h.enters D I member other [] [] (stage_ne_nil D).symm
    rw [kept] at entered
    cases entered
  · -- the interior is left for a stage whose name is too long for a door
    rw [List.mem_singleton.1 later, tableRow_exitRow] at missing
    have outdoors : List.replicate 64 0x61 ∉ s.entryKeys := by
      intro door
      obtain ⟨e, _, same⟩ := List.mem_map.1 door
      have short : (s.stage e.1).length < 64 := (s.subarea e.1).stage.short
      rw [same, List.length_replicate] at short
      exact lt_irrefl 64 short
    have kept := processEntranceRemap_none
      (RemapTable.lookup_none (get?_entry_eq_none some_of outdoors) missing) []
    have left := h.leaves D I member other _ [] (by decide) (fun null => absurd null (by decide)) outdoors
    rw [kept] at left
    cases left

theorem named_of_rewrites {t : RemapTable} (h : s.Rewrites t) : s.Named := by
  rintro ⟨D, I⟩ moved
  obtain ⟨member, other⟩ := mem_moved.1 moved
  constructor
  · intro missing
    have entered := h.enters D I member other [] [] (stage_ne_nil D).symm
    rw [processEntranceRemap_eq, if_pos (.inr (.inl missing))] at entered
    cases entered
  · intro missing
    have left := h.leaves D I member other (s.exitDest I) [] (GameName.bytes_ne_nil _) (fun _ => rfl)
      (exitDest_not_mem (interior_mem member))
    rw [processEntranceRemap_eq, if_pos (.inr (.inl missing))] at left
    cases left

variable (s)

/-- A history of the entrance lines that are handled where the push is sent some number of times. -/
def Replays (replays : ℕ) (history : List (List UInt8 × DecodedMsg)) : Prop :=
  ∃ pushes : List (List (List UInt8)), pushes.length = replays ∧
    (∀ handled ∈ pushes, Handled (pushEntranceMap s.rows) handled) ∧
      history.map Prod.fst = pushes.flatten

variable {s}

theorem Replays.foldl {replays : ℕ} {history : List (List UInt8 × DecodedMsg)}
    (h : s.Replays replays history) (t : RemapTable) :
    history.foldl handleEntranceLine t =
      (List.replicate replays (arrived s.rows)).flatten.foldl applyChunk t := by
  obtain ⟨pushes, count, handled, all⟩ := h
  have same : pushes = List.replicate replays
      ((sent s.rows).map fun c => kept (bytes (chunkMsg c).toWire)) :=
    List.eq_replicate_iff.2 ⟨count, fun lines member => (handled lines member).eq⟩
  have of_push {c : List StageRemap × Bool}
      (member : c ∈ (List.replicate replays (sent s.rows)).flatten) : c ∈ sent s.rows := by
    obtain ⟨cs, again, here⟩ := List.mem_flatten.1 member
    exact List.eq_of_mem_replicate again ▸ here
  have few : ∀ c ∈ (List.replicate replays (sent s.rows)).flatten, c.1.length ≤ 64 := by
    intro c member
    exact (length_pushed ((List.takeWhile_sublist _).subset (of_push member))).trans
      (by decide : 48 ≤ 64)
  have encoded : ∀ c ∈ (List.replicate replays (sent s.rows)).flatten,
      (encode (chunkMsg c)).isSome = true := fun c member => encode_of_sent (of_push member)
  have lines : history.map Prod.fst = (List.replicate replays (sent s.rows)).flatten.map fun c =>
      kept (bytes (chunkMsg c).toWire) := by
    rw [all, same, List.map_flatten, List.map_replicate]
  rw [foldl_history few encoded lines t, List.filter_flatten, List.map_replicate]
  rfl

variable (s)

/-- The lines of one push, each decoded into a fresh message. -/
def onePush : List (List UInt8 × DecodedMsg) :=
  (sent s.rows).map fun c => (kept (bytes (chunkMsg c).toWire), default)

variable {s}

theorem onePush_replays : s.Replays 1 s.onePush := by
  refine ⟨[s.onePush.map Prod.fst], rfl, ?_, (List.append_nil _).symm⟩
  rw [List.forall_mem_singleton, onePush, List.map_map]
  exact handled_bytewise s.rows

/-- What one push with a long chunk does over an empty table. -/
theorem not_works_of_long (long : ¬ s.Fits) :
    ¬ s.Works (s.onePush.foldl handleEntranceLine RemapTable.empty) := by
  intro works
  obtain ⟨r, listed, lost⟩ := unsent long
  have rewrites := works.toRewrites
  rw [onePush_replays.foldl, List.replicate_one, List.flatten_singleton, foldl_arrived] at rewrites
  refine not_rewrites ?_ listed lost rewrites
  obtain ⟨chunk, cs, split, -, together⟩ := pushed_eq s.rows
  have all : ((pushed s.rows).map Prod.fst).flatten = s.rows := by
    rw [split, List.map_cons, List.flatten_cons, together]
  have some_of := ((arrived_sublist s.rows).map Prod.fst).flatten
  rwa [all] at some_of

/-- From any table, after any number of replays and in whatever pieces they come in, the Switch
rewrites transitions as the permutation says, exactly if every chunk is shorter than the read
buffer and no name of a moved pair reads like a missing one. -/
theorem works_iff (s : Shuffle) :
    (∀ start replays history, replays ≠ 0 → s.Replays replays history →
      s.Works (history.foldl handleEntranceLine start)) ↔ s.Fits ∧ s.Named := by
  constructor
  · intro works
    have pushed_once := works RemapTable.empty 1 s.onePush one_ne_zero onePush_replays
    refine ⟨?_, named_of_rewrites pushed_once.toRewrites⟩
    by_contra long
    exact not_works_of_long long pushed_once
  · rintro ⟨fits, named⟩ start replays history some_replay replayed
    have rewrites := rewrites_table named
    rw [replayed.foldl, arrived_of_fits fits, foldl_replays s.rows some_replay]
    exact ⟨rewrites, rewrites.roundTrip⟩

/-! ## A cycle of twenty-four doors with long names -/

def letter (i : Fin 24) : Char := Char.ofNat (97 + i)

/-- A name of 63 letters. -/
def longText (kind : Char) (i : Fin 24) : String := String.ofList (kind :: letter i :: List.replicate 61 'x')

def kinds : List Char := ['S', 'E', 'D', 'I']

theorem longText_name {kind : Char} (listed : kind ∈ kinds) (i : Fin 24) :
    longText kind i ≠ "" ∧ (utf8Bytes (longText kind i)).length < kCheckFieldCap ∧
      Char.ofNat 0 ∉ (longText kind i).toList := by
  have chars : (longText kind i).toList = kind :: letter i :: List.replicate 61 'x' :=
    String.toList_ofList
  have small : ∀ kind ∈ kinds, kind.utf8Size = 1 ∧ Char.ofNat 0 ≠ kind :=
    List.forall_iff_forall_mem.1 (by decide)
  have letters : ∀ i, (letter i).utf8Size = 1 ∧ Char.ofNat 0 ≠ letter i := by decide
  have rest (n : ℕ) : size (List.replicate n 'x') = n := by
    rw [size, List.map_replicate, List.sum_replicate, smul_eq_mul]
    exact Nat.mul_one n
  refine ⟨fun none_left => ?_, ?_, ?_⟩
  · rw [none_left] at chars
    cases chars
  · rw [utf8Bytes, length_bytes, chars, size_cons, size_cons, (small kind listed).1, (letters i).1,
      rest]
    decide
  · rw [chars, List.mem_cons, List.mem_cons]
    rintro (first | second | later)
    · exact (small kind listed).2 first
    · exact (letters i).2 second
    · exact absurd (List.eq_of_mem_replicate later) (by decide)

def longName (kind : Char) (listed : kind ∈ kinds) (i : Fin 24) : GameName where
  text := longText kind i
  nonempty := (longText_name listed i).1
  short := (longText_name listed i).2.1
  noNul := (longText_name listed i).2.2

def longSubarea (D : String) : Subarea :=
  let i := Fin.ofNat 24 ((D.toList.headD 'a').toNat - 97)
  ⟨longName 'S' (by decide) i, longName 'E' (by decide) i, longName 'D' (by decide) i,
    longName 'I' (by decide) i⟩

def longSigma : Dict String String where
  entries := (List.finRange 24).map fun i => (String.ofList [letter i], String.ofList [letter (i + 1)])
  distinct := by decide +kernel

theorem longSigma_permutes : longSigma.values.Perm longSigma.keys := by decide +kernel

theorem longSigma_apart : ∀ D ∈ longSigma.keys, ∀ D' ∈ longSigma.keys,
    (longSubarea D).stage.text = (longSubarea D').stage.text → D = D' := by decide +kernel

theorem longSigma_outside : ∀ D ∈ longSigma.keys, ∀ D' ∈ longSigma.keys,
    (longSubarea D).exitDest.text ≠ (longSubarea D').stage.text := by decide +kernel

theorem longSigma_few :
    (compileStageRemaps longSigma fun D => some (longSubarea D).record).length ≤ kEntranceRemapMax := by
  decide +kernel

def longDoors : Shuffle where
  sigma := longSigma
  stages D := some (longSubarea D).record
  subarea := longSubarea
  permutes := longSigma_permutes
  recorded _ _ := rfl
  apart := longSigma_apart
  outside := longSigma_outside
  few := longSigma_few

theorem longDoors_rows : longDoors.rows.length = 48 := by decide +kernel

theorem size_longDoors (r : StageRemap) (member : r ∈ longDoors.rows) : 235 ≤ r.entrySize := by
  have long (kind : Char) (i : Fin 24) : 63 ≤ textSize (longText kind i) := by
    have chars : (longText kind i).toList.length = 63 := by
      rw [longText, String.toList_ofList, List.length_cons, List.length_cons, List.length_replicate]
    exact chars.symm.trans_le (length_le_textSize _)
  rw [rows_eq, List.mem_flatMap] at member
  obtain ⟨e, -, pair⟩ := member
  rcases List.mem_cons.1 pair with rfl | later
  · have door := long 'S' (Fin.ofNat 24 ((e.1.toList.headD 'a').toNat - 97))
    have interior := long 'S' (Fin.ofNat 24 ((e.2.toList.headD 'a').toNat - 97))
    have entrance := long 'E' (Fin.ofNat 24 ((e.2.toList.headD 'a').toNat - 97))
    change 235 ≤ 46 + textSize "entry" + textSize (longText 'S' _) + textSize (longText 'S' _) +
      textSize (longText 'E' _)
    omega
  · have interior := long 'S' (Fin.ofNat 24 ((e.2.toList.headD 'a').toNat - 97))
    have exit := long 'D' (Fin.ofNat 24 ((e.1.toList.headD 'a').toNat - 97))
    have entrance := long 'I' (Fin.ofNat 24 ((e.1.toList.headD 'a').toNat - 97))
    rw [List.mem_singleton.1 later]
    change 235 ≤ 46 + textSize "exit" + textSize (longText 'S' _) + textSize (longText 'D' _) +
      textSize (longText 'I' _)
    omega

/-- The rows are one chunk, and it is too long. -/
theorem longDoors_long : ¬ longDoors.Fits := by
  intro fits
  have first : (chunks entranceMapChunk longDoors.rows)[0]? = some longDoors.rows := by
    have whole : longDoors.rows.take entranceMapChunk = longDoors.rows :=
      List.take_of_length_le longDoors_rows.le
    rw [chunks, longDoors_rows]
    exact congrArg some whole
  have sizes : 48 * 235 ≤ (longDoors.rows.map fun e => e.entrySize).sum := by
    have bound := List.card_nsmul_le_sum (longDoors.rows.map fun e => e.entrySize) 235
      (List.forall_mem_map.2 size_longDoors)
    rwa [List.length_map, longDoors_rows, smul_eq_mul] at bound
  have small := fits 0 longDoors.rows first
  rw [listSize, kInboundLineCap] at small
  omega

/-- The one chunk of long names is not sent. -/
theorem longDoors_unsent :
    ¬ longDoors.Works (longDoors.onePush.foldl handleEntranceLine RemapTable.empty) :=
  not_works_of_long longDoors_long

end Shuffle

end SmoArchipelago.Bridge
