import SmoArchipelago.Library.JsonText
import SmoArchipelago.Bridge.Outstanding

/-! # The messages of a replay on the wire

Every message is one line of compact JSON, and a line that is too long is an error. The
Switch keeps a bounded number of entries of a message and drops the others.

## Implementation notes

The size of every line is a formula in the sizes of the texts it carries. -/

namespace SmoArchipelago.Bridge

open Library JsonText Switch

def maxLineBytes : ℕ := 8 * 1024

structure ShopLabelEntry where
  file : String
  key : String
  label : String
  deriving DecidableEq

/-- A row of the resolved entrance map. -/
structure StageRemap where
  kind : String
  source : String
  toStage : String
  toId : String
  deriving DecidableEq

inductive WireMsg where
  | outstanding (entries : List (String × ℕ))
  | checkedReplay (ids : List ItemRef)
  | item (msg : ItemMsg)
  | talkatooPool (enabled : Bool) (kingdom : String) (moons : List String)
  | shopLabels (entries : List ShopLabelEntry)
  | kingdomGates (entries : List (String × ℤ))
  | entranceMap (entries : List StageRemap) (reset : Bool)
  | coinGrant (total : ℕ)
  | abilityState (msg : AbilityStateMsg)
  | shineScouts (entries : List (ℤ × ℤ))
  | apState (conn : String)

/-! ## `to_wire` -/

/-- `ItemRef.to_replay_dict`; the raw identifiers stay behind. -/
def ItemRef.toReplayDict (ref : ItemRef) : List (String × List Char) :=
  ("kind", quoted ref.kind) :: present
    [("kingdom", ref.kingdom.map fun k => quoted (kingdomApToSwitch k)),
      ("shine_id", ref.shineId.map quoted), ("cap", ref.cap.map quoted),
      ("name", ref.name.map quoted)]

def ItemMsg.fields (msg : ItemMsg) : List (String × Option (List Char)) :=
  [("kind", some (quoted msg.kind)),
    ("kingdom", msg.kingdom.map fun k => quoted (kingdomApToSwitch k)),
    ("shine_id", msg.shineId.map quoted), ("cap", msg.cap.map quoted),
    ("name", msg.name.map quoted), ("hack_name", msg.hackName.map quoted),
    ("classification", msg.classification.map quoted), ("from", some (quoted msg.sender))]

def countEntry (name count : String) (e : String × ℤ) : List Char :=
  object [(name, quoted e.1), (count, int e.2)]

def ShopLabelEntry.text (e : ShopLabelEntry) : List Char :=
  object [("file", quoted e.file), ("key", quoted e.key), ("label", quoted e.label)]

def StageRemap.text (e : StageRemap) : List Char :=
  object [("kind", quoted e.kind), ("from", quoted e.source), ("to_stage", quoted e.toStage),
    ("to_id", quoted e.toId)]

/-- The tag comes first. -/
def tagged (t : String) (fields : List (String × List Char)) : List Char :=
  object (("t", quoted t) :: fields)

def WireMsg.toWire : WireMsg → List Char
  | .outstanding entries =>
      tagged "outstanding" [("entries", array (entries.map fun e =>
        countEntry "kingdom" "count" (kingdomApToSwitch e.1, e.2)))]
  | .checkedReplay ids =>
      tagged "checked_replay" [("ids", array (ids.map fun ref => object ref.toReplayDict))]
  | .item msg => tagged "item" (present msg.fields)
  | .talkatooPool enabled kingdom moons =>
      tagged "talkatoo_pool" [("enabled", bool enabled), ("kingdom", quoted kingdom),
        ("moons", array (moons.map quoted))]
  | .shopLabels entries =>
      tagged "shop_labels" [("entries", array (entries.map ShopLabelEntry.text))]
  | .kingdomGates entries =>
      tagged "kingdom_gates" [("entries", array (entries.map fun e =>
        countEntry "kingdom" "gate" (kingdomApToSwitch e.1, e.2)))]
  | .entranceMap entries reset =>
      tagged "entrance_map" [("entries", array (entries.map StageRemap.text)), ("reset", bool reset)]
  | .coinGrant total => tagged "coin_grant" [("total", int total)]
  | .abilityState msg =>
      tagged "ability_state" [("entries", array (msg.entries.map fun e =>
        countEntry "ability" "count" (e.1, e.2))), ("enforce", bool msg.enforce)]
  | .shineScouts entries =>
      tagged "shine_scouts" [("entries", array (entries.map fun e =>
        object [("shine_uid", int e.1), ("palette", int e.2)]))]
  | .apState conn => tagged "ap_state" [("conn", quoted conn)]

/-- The line with its newline; too long a line raises. -/
def encode (msg : WireMsg) : Option (List UInt8) :=
  if size msg.toWire ≤ maxLineBytes then some (bytes msg.toWire ++ [0x0a]) else none

/-- The entries that the message carries and the most that the Switch keeps of them. -/
def WireMsg.entries : WireMsg → ℕ × ℕ
  | .outstanding entries => (entries.length, kMaxOutstanding)
  | .checkedReplay ids => (ids.length, 128)
  | .talkatooPool _ _ moons => (moons.length, 96)
  | .shopLabels entries => (entries.length, 32)
  | .kingdomGates entries => (entries.length, 17)
  | .entranceMap entries _ => (entries.length, 64)
  | .abilityState msg => (msg.entries.length, kAbilityStateMax)
  | .shineScouts entries => (entries.length, 256)
  | .item _ | .coinGrant _ | .apState _ => (0, 0)

/-- The message encodes, and the Switch keeps all of it. -/
def WireMsg.Fits (msg : WireMsg) : Prop :=
  (encode msg).isSome ∧ msg.entries.1 ≤ msg.entries.2

theorem encode_isSome (msg : WireMsg) :
    (encode msg).isSome ↔ size msg.toWire ≤ maxLineBytes := by
  rw [encode]
  split_ifs with short
  · exact ⟨fun _ => short, fun _ => rfl⟩
  · exact ⟨fun h => absurd h Bool.false_ne_true, fun h => absurd h short⟩

/-! ## The sizes of the lines -/

/-- What an optional text adds, `n` for its name and the marks around it. -/
def optionSize (n : ℕ) : Option String → ℕ
  | none => 0
  | some s => n + textSize s

def ItemRef.replaySize (ref : ItemRef) : ℕ :=
  11 + textSize ref.kind + optionSize 13 (ref.kingdom.map kingdomApToSwitch) +
    optionSize 14 ref.shineId + optionSize 9 ref.cap + optionSize 10 ref.name

def ItemMsg.lineSize (msg : ItemMsg) : ℕ :=
  32 + textSize msg.kind + optionSize 13 (msg.kingdom.map kingdomApToSwitch) +
    optionSize 14 msg.shineId + optionSize 9 msg.cap + optionSize 10 msg.name +
    optionSize 15 msg.hackName + optionSize 20 msg.classification + textSize msg.sender

def digits (z : ℤ) : ℕ := size (int z)

/-- A list of `n` parts with these sizes, with its brackets and commas. -/
def listSize (sizes : List ℕ) : ℕ := 2 + sizes.sum + (sizes.length - 1)

theorem size_array_map {α : Type*} (xs : List α) (text : α → List Char) :
    size (array (xs.map text)) = listSize (xs.map fun x => size (text x)) := by
  rw [size_array, listSize, List.map_map, List.length_map, List.length_map]
  rfl

theorem presentSize_quoted (name : String) (value : Option String) :
    presentSize (name, value.map quoted) = optionSize (textSize name + 6) value := by
  cases value with
  | none => rfl
  | some s =>
      rw [Option.map_some, presentSize, size_quoted, optionSize]
      omega

theorem size_replayDict (ref : ItemRef) : size (object ref.toReplayDict) = ref.replaySize := by
  have names : textSize "kind" = 4 ∧ textSize "kingdom" = 7 ∧ textSize "shine_id" = 8 ∧
      textSize "cap" = 3 ∧ textSize "name" = 4 := by decide
  obtain ⟨kind, kingdom, shine_id, cap, name⟩ := names
  have translated : (ref.kingdom.map fun k => quoted (kingdomApToSwitch k)) =
      (ref.kingdom.map kingdomApToSwitch).map quoted := by
    rw [Option.map_map]
    rfl
  rw [ItemRef.toReplayDict, size_object_present, translated]
  simp only [List.map_cons, List.map_nil, List.sum_cons, List.sum_nil, presentSize_quoted,
    size_quoted, kind, kingdom, shine_id, cap, name, ItemRef.replaySize, Nat.reduceAdd]
  omega

theorem size_tagged (t : String) (fields : List (String × List Char)) :
    size (tagged t fields) =
      8 + textSize t + (fields.map fun f => textSize f.1 + 4 + size f.2).sum := by
  have tag : textSize "t" = 1 := rfl
  have all_present : present (fields.map fun f => (f.1, some f.2)) = fields := by
    rw [present, List.filterMap_map]
    exact List.filterMap_some
  have sizes : (fields.map fun f => (f.1, some f.2)).map presentSize =
      fields.map fun f => textSize f.1 + 4 + size f.2 := by
    rw [List.map_map]
    rfl
  rw [tagged, ← all_present, size_object_present, all_present, sizes, size_quoted, tag]
  omega

theorem size_countEntry (name count : String) (e : String × ℤ) :
    size (countEntry name count e) =
      11 + textSize name + textSize count + textSize e.1 + digits e.2 := by
  rw [countEntry, size_object]
  simp only [List.map_cons, List.map_nil, List.sum_cons, List.sum_nil, List.length_cons,
    List.length_nil, size_quoted, digits]
  omega

def boolSize (b : Bool) : ℕ := if b then 4 else 5

theorem size_bool (b : Bool) : size (bool b) = boolSize b := by
  cases b <;> rfl

def ShopLabelEntry.entrySize (e : ShopLabelEntry) : ℕ :=
  31 + textSize e.file + textSize e.key + textSize e.label

def StageRemap.entrySize (e : StageRemap) : ℕ :=
  46 + textSize e.kind + textSize e.source + textSize e.toStage + textSize e.toId

/-- The size of a line in those of the texts and numbers on it. -/
def WireMsg.lineSize : WireMsg → ℕ
  | .outstanding entries =>
      30 + listSize (entries.map fun e => 23 + textSize (kingdomApToSwitch e.1) + digits e.2)
  | .checkedReplay ids => 29 + listSize (ids.map fun ref => ref.replaySize)
  | .item msg => msg.lineSize
  | .talkatooPool enabled kingdom moons =>
      54 + boolSize enabled + textSize kingdom + listSize (moons.map fun m => 2 + textSize m)
  | .shopLabels entries => 30 + listSize (entries.map fun e => e.entrySize)
  | .kingdomGates entries =>
      32 + listSize (entries.map fun e => 22 + textSize (kingdomApToSwitch e.1) + digits e.2)
  | .entranceMap entries reset =>
      40 + listSize (entries.map fun e => e.entrySize) + boolSize reset
  | .coinGrant total => 27 + digits total
  | .abilityState msg =>
      43 + listSize (msg.entries.map fun e => 23 + textSize e.1 + digits e.2) + boolSize msg.enforce
  | .shineScouts entries => 31 + listSize (entries.map fun e => 25 + digits e.1 + digits e.2)
  | .apState conn => 26 + textSize conn

theorem size_item (msg : ItemMsg) : size (WireMsg.item msg).toWire = msg.lineSize := by
  have names : textSize "t" = 1 ∧ textSize "kind" = 4 ∧ textSize "kingdom" = 7 ∧
      textSize "shine_id" = 8 ∧ textSize "cap" = 3 ∧ textSize "name" = 4 ∧
      textSize "hack_name" = 9 ∧ textSize "classification" = 14 ∧ textSize "from" = 4 ∧
      textSize "item" = 4 := by decide
  obtain ⟨t, kind, kingdom, shine_id, cap, name, hack_name, classification, sender, item⟩ := names
  have translated : (msg.kingdom.map fun k => quoted (kingdomApToSwitch k)) =
      (msg.kingdom.map kingdomApToSwitch).map quoted := by
    rw [Option.map_map]
    rfl
  have given (label s : String) : presentSize (label, some (quoted s)) = textSize label + 6 + textSize s :=
    presentSize_quoted label (some s)
  rw [WireMsg.toWire, tagged, size_object_present, ItemMsg.fields, translated]
  simp only [List.map_cons, List.map_nil, List.sum_cons, List.sum_nil, presentSize_quoted, given,
    size_quoted, t, kind, kingdom, shine_id, cap, name, hack_name, classification, sender, item,
    ItemMsg.lineSize, Nat.reduceAdd]
  omega

theorem size_shopLabel (e : ShopLabelEntry) : size e.text = e.entrySize := by
  have names : textSize "file" = 4 ∧ textSize "key" = 3 ∧ textSize "label" = 5 := by decide
  obtain ⟨file, key, label⟩ := names
  rw [ShopLabelEntry.text, size_object, ShopLabelEntry.entrySize]
  simp only [List.map_cons, List.map_nil, List.sum_cons, List.sum_nil, List.length_cons,
    List.length_nil, size_quoted, file, key, label]
  omega

theorem size_stageRemap (e : StageRemap) : size e.text = e.entrySize := by
  have names : textSize "kind" = 4 ∧ textSize "from" = 4 ∧ textSize "to_stage" = 8 ∧
      textSize "to_id" = 5 := by decide
  obtain ⟨kind, source, to_stage, to_id⟩ := names
  rw [StageRemap.text, size_object, StageRemap.entrySize]
  simp only [List.map_cons, List.map_nil, List.sum_cons, List.sum_nil, List.length_cons,
    List.length_nil, size_quoted, kind, source, to_stage, to_id]
  omega

theorem size_toWire (msg : WireMsg) : size msg.toWire = msg.lineSize := by
  have tags : textSize "outstanding" = 11 ∧ textSize "checked_replay" = 14 ∧
      textSize "talkatoo_pool" = 13 ∧ textSize "shop_labels" = 11 ∧ textSize "kingdom_gates" = 13 ∧
      textSize "entrance_map" = 12 ∧ textSize "coin_grant" = 10 ∧ textSize "ability_state" = 13 ∧
      textSize "shine_scouts" = 12 ∧ textSize "ap_state" = 8 := by decide
  have keys : textSize "entries" = 7 ∧ textSize "ids" = 3 ∧ textSize "enabled" = 7 ∧
      textSize "kingdom" = 7 ∧ textSize "moons" = 5 ∧ textSize "reset" = 5 ∧ textSize "total" = 5 ∧
      textSize "enforce" = 7 ∧ textSize "conn" = 4 ∧ textSize "count" = 5 ∧ textSize "gate" = 4 ∧
      textSize "ability" = 7 ∧ textSize "shine_uid" = 9 ∧ textSize "palette" = 7 := by decide
  obtain ⟨outstanding, checked, talkatoo, shop, gates, entrance, coin, ability_state, scouts,
    ap_state⟩ := tags
  obtain ⟨entries, ids, enabled, kingdom, moons, reset, total, enforce, conn, count, gate, ability,
    shine_uid, palette⟩ := keys
  cases msg with
  | item msg => exact size_item msg
  | outstanding es =>
      simp only [WireMsg.toWire, WireMsg.lineSize, size_tagged, List.map_cons, List.map_nil,
        List.sum_cons, List.sum_nil, size_array_map, size_countEntry, outstanding, entries, kingdom,
        count, Nat.reduceAdd]
      omega
  | checkedReplay refs =>
      simp only [WireMsg.toWire, WireMsg.lineSize, size_tagged, List.map_cons, List.map_nil,
        List.sum_cons, List.sum_nil, size_array_map, size_replayDict, checked, ids]
      omega
  | talkatooPool on k ms =>
      simp only [WireMsg.toWire, WireMsg.lineSize, size_tagged, List.map_cons, List.map_nil,
        List.sum_cons, List.sum_nil, size_array_map, size_quoted, size_bool, talkatoo, enabled,
        kingdom, moons, Nat.add_comm 2]
      omega
  | shopLabels es =>
      simp only [WireMsg.toWire, WireMsg.lineSize, size_tagged, List.map_cons, List.map_nil,
        List.sum_cons, List.sum_nil, size_array_map, size_shopLabel, shop, entries]
      omega
  | kingdomGates es =>
      simp only [WireMsg.toWire, WireMsg.lineSize, size_tagged, List.map_cons, List.map_nil,
        List.sum_cons, List.sum_nil, size_array_map, size_countEntry, gates, entries, kingdom, gate,
        Nat.reduceAdd]
      omega
  | entranceMap es again =>
      simp only [WireMsg.toWire, WireMsg.lineSize, size_tagged, List.map_cons, List.map_nil,
        List.sum_cons, List.sum_nil, size_array_map, size_stageRemap, size_bool, entrance, entries,
        reset]
      omega
  | coinGrant n =>
      simp only [WireMsg.toWire, WireMsg.lineSize, size_tagged, List.map_cons, List.map_nil,
        List.sum_cons, List.sum_nil, coin, total, digits]
      omega
  | abilityState m =>
      simp only [WireMsg.toWire, WireMsg.lineSize, size_tagged, List.map_cons, List.map_nil,
        List.sum_cons, List.sum_nil, size_array_map, size_countEntry, size_bool, ability_state,
        entries, ability, count, enforce, Nat.reduceAdd]
      omega
  | shineScouts es =>
      have entry (e : ℤ × ℤ) : size (object [("shine_uid", int e.1), ("palette", int e.2)]) =
          25 + digits e.1 + digits e.2 := by
        rw [size_object]
        simp only [List.map_cons, List.map_nil, List.sum_cons, List.sum_nil, List.length_cons,
          List.length_nil, shine_uid, palette, digits]
        omega
      simp only [WireMsg.toWire, WireMsg.lineSize, size_tagged, List.map_cons, List.map_nil,
        List.sum_cons, List.sum_nil, size_array_map, entry, scouts, entries]
      omega
  | apState c =>
      simp only [WireMsg.toWire, WireMsg.lineSize, size_tagged, List.map_cons, List.map_nil,
        List.sum_cons, List.sum_nil, size_quoted, ap_state, conn]
      omega

/-- A message fits by the sizes of what it carries. -/
theorem WireMsg.fits_iff (msg : WireMsg) :
    msg.Fits ↔ msg.lineSize ≤ maxLineBytes ∧ msg.entries.1 ≤ msg.entries.2 := by
  rw [Fits, encode_isSome, size_toWire]

end SmoArchipelago.Bridge
