import SmoArchipelago.Library.Dict
import SmoArchipelago.Switch.DecodeState

/-! # The entrance map of the Switch

The table tells to which stage and entrance a transition is rewritten. An entry row matches the
stage that is entered, an exit row the one that is left, and entry rows win.

## Implementation notes

A key of the table is a stage with its direction, which is what `applyEntranceMap` compares. A
null pointer in the transition is `none`. The sequence counter around the table is left out:
a lookup sees the table of one moment. -/

namespace SmoArchipelago.Switch

open Library ApProtocol

def kEntranceRemapMax : ℕ := 256

/-- The capacity of the strings of a transition. -/
def kFixedStringCap : ℕ := 0x80

/-- `from` and `is_exit`. -/
abbrev RemapKey := List UInt8 × Bool

/-- `to_stage` and `to_id`. -/
abbrev RemapTarget := CStr kCheckFieldCap × CStr kCheckFieldCap

/-- `entrance_remap` up to its count. -/
structure RemapTable where
  rows : Dict RemapKey RemapTarget
  few : rows.size ≤ kEntranceRemapMax

def remapKey (e : EntranceRemapEntry) : RemapKey := (e.from.bytes, e.isExit)

def remapTarget (e : EntranceRemapEntry) : RemapTarget := (e.toStage, e.toId)

namespace RemapTable

@[ext] theorem ext {t t' : RemapTable} (h : t.rows.entries = t'.rows.entries) : t = t' := by
  cases t
  cases t'
  cases Dict.ext h
  rfl

def empty : RemapTable := ⟨Dict.empty, Nat.zero_le _⟩

/-- One turn of the loop of `applyEntranceMap`. A full table takes no new key. -/
def merge (t : RemapTable) (e : EntranceRemapEntry) : RemapTable :=
  if e.from.isEmpty then t
  else if room : remapKey e ∈ t.rows.keys ∨ t.rows.size < kEntranceRemapMax then
    ⟨t.rows.set (remapKey e) (remapTarget e), t.rows.size_set_le _ _ t.few room⟩
  else t

def applyEntranceMap (t : RemapTable) (entries : List EntranceRemapEntry) (reset : Bool) :
    RemapTable :=
  entries.foldl merge (if reset then empty else t)

def lookupEntranceRemap (t : RemapTable) (dest cur : List UInt8) : Option RemapTarget :=
  match if dest = [] then none else t.rows.get? (dest, false) with
  | some target => some target
  | none => if cur = [] then none else t.rows.get? (cur, true)

/-- An entry row wins. -/
theorem lookup_entry {t : RemapTable} {dest : List UInt8} {target : RemapTarget} (given : dest ≠ [])
    (found : t.rows.get? (dest, false) = some target) (cur : List UInt8) :
    t.lookupEntranceRemap dest cur = some target := by
  rw [lookupEntranceRemap, if_neg given, found]

theorem lookup_exit {t : RemapTable} {dest cur : List UInt8} (given : cur ≠ [])
    (no_entry : t.rows.get? (dest, false) = none) :
    t.lookupEntranceRemap dest cur = t.rows.get? (cur, true) := by
  rw [lookupEntranceRemap, no_entry, ite_self, if_neg given]

theorem lookup_none {t : RemapTable} {dest cur : List UInt8}
    (no_entry : t.rows.get? (dest, false) = none) (no_exit : t.rows.get? (cur, true) = none) :
    t.lookupEntranceRemap dest cur = none := by
  rw [lookupEntranceRemap, no_entry, no_exit, ite_self, ite_self]

/-- Rows with new keys go to the end of the table. -/
theorem entries_foldl_merge (entries : List EntranceRemapEntry) (t : RemapTable)
    (named : ∀ e ∈ entries, e.from.isEmpty = false)
    (apart : (t.rows.keys ++ entries.map remapKey).Nodup)
    (few : t.rows.size + entries.length ≤ kEntranceRemapMax) :
    (entries.foldl merge t).rows.entries =
      t.rows.entries ++ entries.map fun e => (remapKey e, remapTarget e) := by
  induction entries generalizing t with
  | nil => exact (List.append_nil _).symm
  | cons e entries ih =>
      rw [List.length_cons] at few
      rw [List.map_cons] at apart
      have new : remapKey e ∉ t.rows.keys := by
        intro old
        exact (List.nodup_append.1 apart).2.2 _ old _ List.mem_cons_self rfl
      have room : remapKey e ∈ t.rows.keys ∨ t.rows.size < kEntranceRemapMax := .inr (by omega)
      have stored : (t.merge e).rows = t.rows.set (remapKey e) (remapTarget e) := by
        rw [merge, named e List.mem_cons_self, if_neg Bool.false_ne_true, dif_pos room]
      have written : (t.merge e).rows.entries = t.rows.entries ++ [(remapKey e, remapTarget e)] := by
        rw [stored, Dict.entries_set_of_not_mem new]
      have keys : (t.merge e).rows.keys = t.rows.keys ++ [remapKey e] := by
        rw [Dict.keys, written, List.map_append]
        rfl
      have size : (t.merge e).rows.size = t.rows.size + 1 := by
        rw [Dict.size, written, List.length_append]
        rfl
      rw [List.foldl_cons, ih, written, List.map_cons, List.append_assoc, List.singleton_append]
      · exact fun e' member => named e' (List.mem_cons_of_mem e member)
      · rwa [keys, List.append_assoc, List.singleton_append]
      · omega

end RemapTable

/-- `ChangeStageInfo`, as far as it is read and written. -/
structure ChangeStageInfo where
  changeStageName : Option (List UInt8)
  changeStageId : Option (List UInt8)

/-- What stands for a null pointer. -/
def nullName : List UInt8 := Json.ascii "(null)"

def readCstrAt (p : Option (List UInt8)) : List UInt8 := p.getD nullName

/-- The rewritten transition; `none` if it is left as it is. -/
def processEntranceRemap (t : RemapTable) (cur : List UInt8) (info : ChangeStageInfo) :
    Option ChangeStageInfo :=
  let dest := readCstrAt info.changeStageName
  if dest = [] ∨ dest = nullName ∨ dest = cur then none
  else
    match t.lookupEntranceRemap dest cur with
    | none => none
    | some (toStage, toId) =>
        if info.changeStageName = none ∨ info.changeStageId = none ∨
            kFixedStringCap < toStage.bytes.length + 1 ∨ kFixedStringCap < toId.bytes.length + 1 then
          none
        else some ⟨some toStage.bytes, some toId.bytes⟩

/-- A target fits the strings of a transition. -/
theorem processEntranceRemap_eq (t : RemapTable) (cur dest id : List UInt8) :
    processEntranceRemap t cur ⟨some dest, some id⟩ =
      if dest = [] ∨ dest = nullName ∨ dest = cur then none
      else (t.lookupEntranceRemap dest cur).map fun target =>
        ⟨some target.1.bytes, some target.2.bytes⟩ := by
  by_cases skipped : dest = [] ∨ dest = nullName ∨ dest = cur
  · rw [if_pos skipped]
    exact if_pos skipped
  · rw [if_neg skipped]
    refine (if_neg skipped).trans ?_
    cases found : t.lookupEntranceRemap dest cur with
    | none =>
        dsimp only [readCstrAt, Option.getD_some]
        rw [found]
        rfl
    | some target =>
        have fits (s : CStr kCheckFieldCap) : ¬ kFixedStringCap < s.bytes.length + 1 := by
          have short : s.bytes.length < 64 := s.short
          rw [kFixedStringCap]
          omega
        dsimp only [readCstrAt, Option.getD_some]
        rw [found]
        exact if_neg (by simp [fits])

theorem processEntranceRemap_none {t : RemapTable} {dest cur : List UInt8}
    (vanilla : t.lookupEntranceRemap dest cur = none) (id : List UInt8) :
    processEntranceRemap t cur ⟨some dest, some id⟩ = none := by
  rw [processEntranceRemap_eq, vanilla, Option.map_none, ite_self]

/-- `handleLine` on a line out of the read buffer, as far as the entrance map goes; it is decoded
into a message that may hold anything. -/
def handleEntranceLine (t : RemapTable) (line : List UInt8 × DecodedMsg) : RemapTable :=
  if (decode line.1 line.2).1 then
    match (decode line.1 line.2).2.view with
    | .entranceMap entries reset _ => t.applyEntranceMap entries reset
    | _ => t
  else t

end SmoArchipelago.Switch
