import SmoArchipelago.Switch.ApState
import SmoArchipelago.Switch.Encoder
import SmoArchipelago.Switch.ReplayLine

/-! # The messages of the Switch module

What the module sends, and the writers of the lines. Every line is one object whose fields come
in a fixed order, some of them only if they are set, and it is read as the dictionary of these
fields unless a string holds a control character that the writer leaves as it is. -/

namespace SmoArchipelago.Switch.ApProtocol

open Library JsonReader Utf8 Json

abbrev kLogLevelCap : ℕ := 8
abbrev kLogMsgCap : ℕ := 256
def kSnapshotMaxShinesPerStage : ℕ := 64
def kSnapshotMaxCaptures : ℕ := 64

structure Hello where
  modVer : List UInt8
  smoVer : List UInt8
  capTableHash : List UInt8
  deviceId : CStr kCheckFieldCap

structure Status where
  kingdom : List UInt8
  scenario : ℤ
  moonsCollected : ℤ
  stageName : List UInt8

structure Death where
  tsMs : ℤ

structure Ping where
  tsMs : ℤ

structure Log where
  level : CStr kLogLevelCap
  msg : CStr kLogMsgCap

structure StateBegin where
  modVer : List UInt8
  saveSlot : ℤ

structure ShineEntry where
  objectId : CStr kCheckFieldCap
  shineUid : ℤ

/-- The shines of one stage, or what a snapshot holds beside them. -/
@[ext]
structure StateChunk where
  stageName : CStr kCheckFieldCap
  shines : List ShineEntry := []
  captures : List (CStr kCheckFieldCap) := []
  includeGoalReached : Bool := false
  goalReached : Bool := false
  shineRoom : shines.length ≤ kSnapshotMaxShinesPerStage := by exact Nat.zero_le _
  captureRoom : captures.length ≤ kSnapshotMaxCaptures := by exact Nat.zero_le _

structure PaySnapshotEntry where
  kingdom : CStr kCheckFieldCap
  pay : ℤ

structure PaySnapshot where
  entries : List PaySnapshotEntry
  saveSlot : ℤ
  complete : Bool
  entryRoom : entries.length ≤ 17

/-! ## The writers -/

section Writers

open Encoder

def encodeHello (h : Hello) : LineBuffer :=
  let e := ((start.beginObject.key (ascii "t")).value (ascii "hello"))
  let e := (e.key (ascii "mod_ver")).value h.modVer
  let e := (e.key (ascii "smo_ver")).value h.smoVer
  let e := (e.key (ascii "cap_table_hash")).value h.capTableHash
  let e := if ¬ h.deviceId.isEmpty then (e.key (ascii "device_id")).value h.deviceId.bytes else e
  e.endObject.out.append [0x0a]

def encodeCheck (c : Check) : LineBuffer :=
  let e := ((start.beginObject.key (ascii "t")).value (ascii "check"))
  let e := (e.key (ascii "kind")).value (ascii (ItemKind.toWire c.kind))
  let e := if ¬ c.kingdom.isEmpty then (e.key (ascii "kingdom")).value c.kingdom.bytes else e
  let e := if ¬ c.shineId.isEmpty then (e.key (ascii "shine_id")).value c.shineId.bytes else e
  let e := if ¬ c.cap.isEmpty then (e.key (ascii "cap")).value c.cap.bytes else e
  let e := if ¬ c.stageName.isEmpty then (e.key (ascii "stage_name")).value c.stageName.bytes else e
  let e := if ¬ c.objectId.isEmpty then (e.key (ascii "object_id")).value c.objectId.bytes else e
  let e := if c.shineUid ≥ 0 then (e.key (ascii "shine_uid")).valueInt c.shineUid else e
  let e := if ¬ c.hackName.isEmpty then (e.key (ascii "hack_name")).value c.hackName.bytes else e
  let e := if c.seq > 0 then (e.key (ascii "seq")).valueInt c.seq else e
  e.endObject.out.append [0x0a]

def encodeStatus (s : Status) : LineBuffer :=
  let e := ((start.beginObject.key (ascii "t")).value (ascii "status"))
  let e := if ¬ s.kingdom.isEmpty then (e.key (ascii "kingdom")).value s.kingdom else e
  let e := if s.scenario ≥ 0 then (e.key (ascii "scenario")).valueInt s.scenario else e
  let e :=
    if s.moonsCollected ≥ 0 then (e.key (ascii "moons_collected")).valueInt s.moonsCollected else e
  let e := if ¬ s.stageName.isEmpty then (e.key (ascii "stage_name")).value s.stageName else e
  e.endObject.out.append [0x0a]

def encodeGoal : LineBuffer :=
  ((start.beginObject.key (ascii "t")).value (ascii "goal")).endObject.out.append [0x0a]

def encodeDeath (d : Death) : LineBuffer :=
  let e := ((start.beginObject.key (ascii "t")).value (ascii "death"))
  let e := (e.key (ascii "ts_ms")).valueInt d.tsMs
  e.endObject.out.append [0x0a]

def encodePing (p : Ping) : LineBuffer :=
  let e := ((start.beginObject.key (ascii "t")).value (ascii "ping"))
  let e := (e.key (ascii "ts_ms")).valueInt p.tsMs
  e.endObject.out.append [0x0a]

def encodeLog (lg : Log) : LineBuffer :=
  let e := ((start.beginObject.key (ascii "t")).value (ascii "log"))
  let e := (e.key (ascii "level")).value lg.level.bytes
  let e := (e.key (ascii "msg")).value lg.msg.bytes
  e.endObject.out.append [0x0a]

def encodeStateBegin (s : StateBegin) : LineBuffer :=
  let e := ((start.beginObject.key (ascii "t")).value (ascii "state_begin"))
  let e := (e.key (ascii "mod_ver")).value s.modVer
  let e := if s.saveSlot ≥ 0 then (e.key (ascii "save_slot")).valueInt s.saveSlot else e
  e.endObject.out.append [0x0a]

/-- One turn of the loop over the shines of a chunk. -/
def encodeShine (e : Encoder) (sh : ShineEntry) : Encoder :=
  let e := e.beginObject
  let e := if ¬ sh.objectId.isEmpty then (e.key (ascii "object_id")).value sh.objectId.bytes else e
  let e := if sh.shineUid ≥ 0 then (e.key (ascii "shine_uid")).valueInt sh.shineUid else e
  e.endObject

def encodeStateChunk (s : StateChunk) : LineBuffer :=
  let e := ((start.beginObject.key (ascii "t")).value (ascii "state_chunk"))
  let e := (e.key (ascii "stage_name")).value s.stageName.bytes
  let e :=
    if s.shines.length > 0 then
      (s.shines.foldl encodeShine (e.key (ascii "shines")).beginArray).endArray
    else e
  let e :=
    if s.captures.length > 0 then
      (s.captures.foldl (fun e cap => e.value cap.bytes) (e.key (ascii "captures")).beginArray).endArray
    else e
  let e :=
    if s.includeGoalReached then (e.key (ascii "goal_reached")).valueBool s.goalReached else e
  e.endObject.out.append [0x0a]

def encodeStateEnd : LineBuffer :=
  ((start.beginObject.key (ascii "t")).value (ascii "state_end")).endObject.out.append [0x0a]

/-- One turn of the loop over the entries of a pay snapshot. -/
def encodePayEntry (e : Encoder) (entry : PaySnapshotEntry) : Encoder :=
  let e := (e.beginObject.key (ascii "kingdom")).value entry.kingdom.bytes
  ((e.key (ascii "pay")).valueInt entry.pay).endObject

def encodePaySnapshot (s : PaySnapshot) : LineBuffer :=
  let e := ((start.beginObject.key (ascii "t")).value (ascii "pay_snapshot"))
  let e := if s.saveSlot ≥ 0 then (e.key (ascii "save_slot")).valueInt s.saveSlot else e
  let e := (e.key (ascii "complete")).valueBool s.complete
  let e := (s.entries.foldl encodePayEntry (e.key (ascii "entries")).beginArray).endArray
  e.endObject.out.append [0x0a]

end Writers

/-! ## Values -/

/-- A value: its text, what it is read as, and the strings that stand in it. -/
structure Piece where
  bytes : List UInt8
  value : JsonValue
  strings : List (List UInt8)

namespace Piece

def str (s : List UInt8) : Piece :=
  ⟨JsonBytes.quoted Encoder.escapeChar s, .str (decodeReplacing s), [s]⟩

def int (z : ℤ) : Piece := ⟨asciiBytes (JsonText.int z), .int z, []⟩

def bool (b : Bool) : Piece := ⟨asciiBytes (JsonText.bool b), .bool b, []⟩

def list (ps : List Piece) : Piece :=
  ⟨JsonBytes.array (ps.map bytes), .list (ps.map value), ps.flatMap strings⟩

/-- A field as it stands in an object. -/
def written (f : String × Piece) : List UInt8 := Encoder.nameText (ascii f.1) ++ f.2.bytes

def dict (fields : List (String × Piece)) : Piece where
  bytes := 0x7b :: (JsonBytes.commas (fields.map written) ++ [0x7d])
  value := .dict (fields.map fun f => (f.1.toList, f.2.value))
  strings := fields.flatMap fun f => f.2.strings

end Piece

/-- The fields that are set. -/
def setFields (fields : List (String × Option Piece)) : List (String × Piece) :=
  fields.filterMap fun f => f.2.map (f.1, ·)

/-- A field that is put only on a condition. -/
def given (c : Prop) [Decidable c] (p : Piece) : Option Piece := if c then some p else none

def Hello.fields (h : Hello) : List (String × Option Piece) :=
  [("t", some (.str (ascii "hello"))), ("mod_ver", some (.str h.modVer)),
    ("smo_ver", some (.str h.smoVer)), ("cap_table_hash", some (.str h.capTableHash)),
    ("device_id", given (¬ h.deviceId.isEmpty) (.str h.deviceId.bytes))]

/-- The fields of a check on the wire. -/
def checkFields (c : Check) : List (String × Option Piece) :=
  [("t", some (.str (ascii "check"))), ("kind", some (.str (ascii (ItemKind.toWire c.kind)))),
    ("kingdom", given (¬ c.kingdom.isEmpty) (.str c.kingdom.bytes)),
    ("shine_id", given (¬ c.shineId.isEmpty) (.str c.shineId.bytes)),
    ("cap", given (¬ c.cap.isEmpty) (.str c.cap.bytes)),
    ("stage_name", given (¬ c.stageName.isEmpty) (.str c.stageName.bytes)),
    ("object_id", given (¬ c.objectId.isEmpty) (.str c.objectId.bytes)),
    ("shine_uid", given (c.shineUid ≥ 0) (.int c.shineUid)),
    ("hack_name", given (¬ c.hackName.isEmpty) (.str c.hackName.bytes)),
    ("seq", given (c.seq > 0) (.int c.seq))]

def Status.fields (s : Status) : List (String × Option Piece) :=
  [("t", some (.str (ascii "status"))), ("kingdom", given (¬ s.kingdom.isEmpty) (.str s.kingdom)),
    ("scenario", given (s.scenario ≥ 0) (.int s.scenario)),
    ("moons_collected", given (s.moonsCollected ≥ 0) (.int s.moonsCollected)),
    ("stage_name", given (¬ s.stageName.isEmpty) (.str s.stageName))]

def StateBegin.fields (s : StateBegin) : List (String × Option Piece) :=
  [("t", some (.str (ascii "state_begin"))), ("mod_ver", some (.str s.modVer)),
    ("save_slot", given (s.saveSlot ≥ 0) (.int s.saveSlot))]

def ShineEntry.fields (sh : ShineEntry) : List (String × Option Piece) :=
  [("object_id", given (¬ sh.objectId.isEmpty) (.str sh.objectId.bytes)),
    ("shine_uid", given (sh.shineUid ≥ 0) (.int sh.shineUid))]

def StateChunk.fields (s : StateChunk) : List (String × Option Piece) :=
  [("t", some (.str (ascii "state_chunk"))), ("stage_name", some (.str s.stageName.bytes)),
    ("shines", given (s.shines.length > 0) (.list (s.shines.map fun sh => .dict (setFields sh.fields)))),
    ("captures", given (s.captures.length > 0) (.list (s.captures.map fun cap => .str cap.bytes))),
    ("goal_reached", given (s.includeGoalReached) (.bool s.goalReached))]

def PaySnapshotEntry.fields (entry : PaySnapshotEntry) : List (String × Option Piece) :=
  [("kingdom", some (.str entry.kingdom.bytes)), ("pay", some (.int entry.pay))]

def PaySnapshot.fields (s : PaySnapshot) : List (String × Option Piece) :=
  [("t", some (.str (ascii "pay_snapshot"))), ("save_slot", given (s.saveSlot ≥ 0) (.int s.saveSlot)),
    ("complete", some (.bool s.complete)),
    ("entries", some (.list (s.entries.map fun entry => .dict (setFields entry.fields))))]

/-- A message to the bridge. -/
inductive Outgoing where
  | hello (h : Hello)
  | check (c : Check)
  | status (s : Status)
  | goal
  | death (d : Death)
  | ping (p : Ping)
  | log (lg : Log)
  | stateBegin (s : StateBegin)
  | stateChunk (s : StateChunk)
  | stateEnd
  | paySnapshot (s : PaySnapshot)

namespace Outgoing

def encode : Outgoing → LineBuffer
  | .hello h => encodeHello h
  | .check c => encodeCheck c
  | .status s => encodeStatus s
  | .goal => encodeGoal
  | .death d => encodeDeath d
  | .ping p => encodePing p
  | .log lg => encodeLog lg
  | .stateBegin s => encodeStateBegin s
  | .stateChunk s => encodeStateChunk s
  | .stateEnd => encodeStateEnd
  | .paySnapshot s => encodePaySnapshot s

def fields : Outgoing → List (String × Option Piece)
  | .hello h => h.fields
  | .check c => checkFields c
  | .status s => s.fields
  | .goal => [("t", some (.str (ascii "goal")))]
  | .death d => [("t", some (.str (ascii "death"))), ("ts_ms", some (.int d.tsMs))]
  | .ping p => [("t", some (.str (ascii "ping"))), ("ts_ms", some (.int p.tsMs))]
  | .log lg =>
      [("t", some (.str (ascii "log"))), ("level", some (.str lg.level.bytes)),
        ("msg", some (.str lg.msg.bytes))]
  | .stateBegin s => s.fields
  | .stateChunk s => s.fields
  | .stateEnd => [("t", some (.str (ascii "state_end")))]
  | .paySnapshot s => s.fields

def piece (m : Outgoing) : Piece := .dict (setFields m.fields)

end Outgoing

/-! ## What the writers put out -/

section Written

open Encoder

theorem quoted_escape (s : List UInt8) :
    JsonBytes.quote :: (s.flatMap escape ++ [JsonBytes.quote]) = JsonBytes.quoted escapeChar s := by
  rw [JsonBytes.quoted, show escape = escapeByte escapeChar from funext escape_eq]

/-- The texts of the fields that are set. -/
def texts (fields : List (String × Option Piece)) : List (List UInt8) :=
  (setFields fields).map Piece.written

theorem texts_concat (fields : List (String × Option Piece)) (k : String) (p : Piece) :
    texts (fields ++ [(k, some p)]) = texts fields ++ [nameText (ascii k) ++ p.bytes] := by
  rw [texts, setFields, List.filterMap_append, List.map_append]
  rfl

theorem texts_concat_none (fields : List (String × Option Piece)) (k : String) :
    texts (fields ++ [(k, none)]) = texts fields := by
  rw [texts, setFields, List.filterMap_append]
  exact congrArg (List.map Piece.written) (List.append_nil _)

variable {text : List UInt8} {fields : List (String × Option Piece)} {outer : List Bool}

/-- A writer within an object that has these fields. -/
def withFields (text : List UInt8) (fields : List (String × Option Piece)) (outer : List Bool) :
    Encoder :=
  inside text (texts fields) outer

theorem put_str (k : String) (s : List UInt8) :
    ((withFields text fields outer).key (ascii k)).value s =
      withFields text (fields ++ [(k, some (.str s))]) outer := by
  rw [withFields, key_value, quoted_escape, withFields, texts_concat]
  rfl

theorem put_int (k : String) (z : ℤ) :
    ((withFields text fields outer).key (ascii k)).valueInt z =
      withFields text (fields ++ [(k, some (.int z))]) outer := by
  rw [withFields, key_valueInt, withFields, texts_concat]
  rfl

theorem put_bool (k : String) (b : Bool) :
    ((withFields text fields outer).key (ascii k)).valueBool b =
      withFields text (fields ++ [(k, some (.bool b))]) outer := by
  rw [withFields, key_valueBool, withFields, texts_concat]
  rfl

/-- A field that is put only on a condition. -/
theorem put_given {c : Prop} [Decidable c] {k : String} {p : Piece} {e : Encoder}
    (put : e = withFields text (fields ++ [(k, some p)]) outer) :
    (if c then e else withFields text fields outer) =
      withFields text (fields ++ [(k, given c p)]) outer := by
  unfold given
  split_ifs
  · exact put
  · rw [withFields, withFields, texts_concat_none]

/-- Entries that are put into an array one after the other. -/
theorem foldl_inside {α : Type} {body : Encoder → α → Encoder} {piece : α → Piece}
    (one : ∀ parts x, body (inside text parts outer) x = inside text (parts ++ [(piece x).bytes]) outer)
    (xs : List α) (parts : List (List UInt8)) :
    xs.foldl body (inside text parts outer) =
      inside text (parts ++ (xs.map piece).map Piece.bytes) outer := by
  induction xs generalizing parts with
  | nil => rw [List.foldl_nil, List.map_nil, List.map_nil, List.append_nil]
  | cons x xs ih =>
      rw [List.foldl_cons, one, ih, List.map_cons, List.map_cons, List.append_assoc]
      rfl

theorem put_list {α : Type} {body : Encoder → α → Encoder} {piece : α → Piece} (k : String)
    (one : ∀ text parts x,
      body (inside text parts (false :: outer)) x =
        inside text (parts ++ [(piece x).bytes]) (false :: outer))
    (shallow : outer.length + 1 < Encoder.kMaxDepth) (xs : List α) :
    (xs.foldl body ((withFields text fields outer).key (ascii k)).beginArray).endArray =
      withFields text (fields ++ [(k, some (.list (xs.map piece)))]) outer := by
  rw [withFields, key_beginArray _ _ _ shallow, foldl_inside (one _), List.nil_append,
    endArray_inside, withFields, texts_concat]
  rfl

/-- An object as an entry of an array. -/
theorem object_entry (parts : List (List UInt8)) :
    (withFields (upTo text parts ++ [0x7b]) fields ((!parts.isEmpty) :: outer)).endObject =
      inside text (parts ++ [(Piece.dict (setFields fields)).bytes]) outer := by
  rw [withFields, endObject_inside]
  rfl

theorem begin_entry (parts : List (List UInt8)) (shallow : outer.length + 1 < Encoder.kMaxDepth) :
    (inside text parts outer).beginObject =
      withFields (upTo text parts ++ [0x7b]) [] ((!parts.isEmpty) :: outer) :=
  beginObject_inside text parts shallow

/-- The line of an object. -/
theorem finish_fields :
    (withFields [0x7b] fields []).endObject.out.append [0x0a] =
      .holding ((Piece.dict (setFields fields)).bytes ++ [0x0a]) :=
  finish (texts fields)

theorem encodeShine_inside (parts : List (List UInt8)) (sh : ShineEntry)
    (shallow : outer.length + 1 < Encoder.kMaxDepth) :
    encodeShine (inside text parts outer) sh =
      inside text (parts ++ [(Piece.dict (setFields sh.fields)).bytes]) outer := by
  unfold encodeShine
  rw [begin_entry parts shallow]
  dsimp only
  rw [put_given (put_str "object_id" sh.objectId.bytes),
    put_given (put_int "shine_uid" sh.shineUid), object_entry]
  rfl

theorem encodePayEntry_inside (parts : List (List UInt8)) (entry : PaySnapshotEntry)
    (shallow : outer.length + 1 < Encoder.kMaxDepth) :
    encodePayEntry (inside text parts outer) entry =
      inside text (parts ++ [(Piece.dict (setFields entry.fields)).bytes]) outer := by
  unfold encodePayEntry
  rw [begin_entry parts shallow]
  dsimp only
  rw [put_str, put_int, object_entry]
  rfl

theorem begin_line : start.beginObject = withFields [0x7b] [] [] := start_beginObject

theorem encodeHello_eq (h : Hello) :
    encodeHello h = .holding ((Outgoing.hello h).piece.bytes ++ [0x0a]) := by
  unfold encodeHello
  rw [begin_line]
  dsimp only
  rw [put_str, put_str, put_str, put_str, put_given (put_str "device_id" h.deviceId.bytes),
    finish_fields]
  rfl

theorem encodeCheck_eq (c : Check) :
    encodeCheck c = .holding ((Outgoing.check c).piece.bytes ++ [0x0a]) := by
  unfold encodeCheck
  rw [begin_line]
  dsimp only
  rw [put_str, put_str, put_given (put_str "kingdom" c.kingdom.bytes),
    put_given (put_str "shine_id" c.shineId.bytes), put_given (put_str "cap" c.cap.bytes),
    put_given (put_str "stage_name" c.stageName.bytes),
    put_given (put_str "object_id" c.objectId.bytes), put_given (put_int "shine_uid" c.shineUid),
    put_given (put_str "hack_name" c.hackName.bytes), put_given (put_int "seq" c.seq),
    finish_fields]
  rfl

theorem encodeStatus_eq (s : Status) :
    encodeStatus s = .holding ((Outgoing.status s).piece.bytes ++ [0x0a]) := by
  unfold encodeStatus
  rw [begin_line]
  dsimp only
  rw [put_str, put_given (put_str "kingdom" s.kingdom), put_given (put_int "scenario" s.scenario),
    put_given (put_int "moons_collected" s.moonsCollected),
    put_given (put_str "stage_name" s.stageName), finish_fields]
  rfl

theorem encodeStateBegin_eq (s : StateBegin) :
    encodeStateBegin s = .holding ((Outgoing.stateBegin s).piece.bytes ++ [0x0a]) := by
  unfold encodeStateBegin
  rw [begin_line]
  dsimp only
  rw [put_str, put_str, put_given (put_int "save_slot" s.saveSlot), finish_fields]
  rfl

theorem encodeStateChunk_eq (s : StateChunk) :
    encodeStateChunk s = .holding ((Outgoing.stateChunk s).piece.bytes ++ [0x0a]) := by
  have shines {fields : List (String × Option Piece)} :
      (s.shines.foldl encodeShine
          ((withFields [0x7b] fields []).key (ascii "shines")).beginArray).endArray =
        withFields [0x7b] (fields ++
          [("shines", some (.list (s.shines.map fun sh => .dict (setFields sh.fields))))]) [] :=
    put_list "shines" (fun text parts sh => encodeShine_inside parts sh (by decide)) (by decide) s.shines
  have one_capture (text : List UInt8) (parts : List (List UInt8)) (cap : CStr kCheckFieldCap) :
      (inside text parts [false]).value cap.bytes =
        inside text (parts ++ [(Piece.str cap.bytes).bytes]) [false] := by
    rw [value_inside, quoted_escape]
    rfl
  have captures {fields : List (String × Option Piece)} :
      (s.captures.foldl (fun e cap => e.value cap.bytes)
          ((withFields [0x7b] fields []).key (ascii "captures")).beginArray).endArray =
        withFields [0x7b] (fields ++
          [("captures", some (.list (s.captures.map fun cap => .str cap.bytes)))]) [] :=
    put_list "captures" one_capture (by decide) s.captures
  unfold encodeStateChunk
  rw [begin_line]
  dsimp only
  rw [put_str, put_str, put_given shines, put_given captures,
    put_given (put_bool "goal_reached" s.goalReached), finish_fields]
  rfl

theorem encodePaySnapshot_eq (s : PaySnapshot) :
    encodePaySnapshot s = .holding ((Outgoing.paySnapshot s).piece.bytes ++ [0x0a]) := by
  have entries {fields : List (String × Option Piece)} :
      (s.entries.foldl encodePayEntry
          ((withFields [0x7b] fields []).key (ascii "entries")).beginArray).endArray =
        withFields [0x7b] (fields ++
          [("entries", some (.list (s.entries.map fun entry => .dict (setFields entry.fields))))]) [] :=
    put_list "entries" (fun text parts entry => encodePayEntry_inside parts entry (by decide))
      (by decide) s.entries
  unfold encodePaySnapshot
  rw [begin_line]
  dsimp only
  rw [put_str, put_given (put_int "save_slot" s.saveSlot), put_bool, entries, finish_fields]
  rfl

/-- Every message is put out as the object of its fields. -/
theorem encode_eq (m : Outgoing) : m.encode = .holding (m.piece.bytes ++ [0x0a]) := by
  cases m with
  | hello h => exact encodeHello_eq h
  | check c => exact encodeCheck_eq c
  | status s => exact encodeStatus_eq s
  | goal =>
      change encodeGoal = _
      rw [encodeGoal, begin_line, put_str, finish_fields]
      rfl
  | death d =>
      change encodeDeath d = _
      rw [encodeDeath, begin_line, put_str, put_int, finish_fields]
      rfl
  | ping p =>
      change encodePing p = _
      rw [encodePing, begin_line, put_str, put_int, finish_fields]
      rfl
  | log lg =>
      change encodeLog lg = _
      rw [encodeLog, begin_line, put_str, put_str, put_str, finish_fields]
      rfl
  | stateBegin s => exact encodeStateBegin_eq s
  | stateChunk s => exact encodeStateChunk_eq s
  | stateEnd =>
      change encodeStateEnd = _
      rw [encodeStateEnd, begin_line, put_str, finish_fields]
      rfl
  | paySnapshot s => exact encodePaySnapshot_eq s

end Written

end SmoArchipelago.Switch.ApProtocol
