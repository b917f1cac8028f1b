import SmoArchipelago.Bridge.Wire
import SmoArchipelago.Switch.DecodeState
import SmoArchipelago.Switch.ReadBack

/-! # What the Switch reads of a message of the bridge

Every message is printed as compact JSON and decoded into a fresh message struct. The struct
has what the message has: numbers and flags as they are, texts up to the size of their fields,
lists up to the number of their slots. Kingdoms are translated before they are printed.

## Implementation notes

`BridgeMsg` has all message types with the numbers that their fields can hold. -/

namespace SmoArchipelago.Bridge

open Library JsonText FieldLoop Switch Switch.ApProtocol Switch.Json

/-- The messages of the bridge to the Switch. -/
inductive BridgeMsg where
  | helloAck (ok : Bool) (seed slot capTableHash : String) (deathlinkEnabled : Bool)
      (clientVer error : Option String)
  | checkedReplay (ids : List Bridge.ItemRef)
  | item (msg : ItemMsg)
  | shineScouts (entries : List (ℤ × ℤ))
  | print (text : String)
  | apState (conn : String)
  | pong (tsMs : ℤ)
  | err (code ctx : String)
  | kill (source cause : String)
  | outstanding (entries : List (String × ℤ))
  | cappy (text : String)
  | shopLabels (entries : List Bridge.ShopLabelEntry)
  | talkatooPool (enabled : Bool) (kingdom : String) (moons : List String)
  | kingdomGates (entries : List (String × ℤ))
  | coinGrant (total : ℤ)
  | abilityState (entries : List (String × ℤ)) (enforce : Bool)
  | entranceMap (entries : List StageRemap) (reset : Bool)
  | moonLabel (text : String) (seq validForMs : ℤ)

namespace BridgeMsg

/-- The members after the tag, those without a value left out. -/
def fields : BridgeMsg → List (String × Option (List Char))
  | .helloAck ok seed slot capTableHash deathlinkEnabled clientVer error =>
      [("ok", some (bool ok)), ("seed", some (quoted seed)), ("slot", some (quoted slot)),
        ("cap_table_hash", some (quoted capTableHash)),
        ("deathlink_enabled", some (bool deathlinkEnabled)), ("client_ver", clientVer.map quoted),
        ("err", error.map quoted)]
  | .checkedReplay ids =>
      [("ids", some (array (ids.map fun ref => object ref.toReplayDict)))]
  | .item msg => msg.fields
  | .shineScouts entries =>
      [("entries", some (array (entries.map fun e =>
        object [("shine_uid", int e.1), ("palette", int e.2)])))]
  | .print text => [("text", some (quoted text))]
  | .apState conn => [("conn", some (quoted conn))]
  | .pong tsMs => [("ts_ms", some (int tsMs))]
  | .err code ctx => [("code", some (quoted code)), ("ctx", some (quoted ctx))]
  | .kill source cause => [("source", some (quoted source)), ("cause", some (quoted cause))]
  | .outstanding entries =>
      [("entries", some (array (entries.map fun e =>
        countEntry "kingdom" "count" (kingdomApToSwitch e.1, e.2))))]
  | .cappy text => [("text", some (quoted text))]
  | .shopLabels entries => [("entries", some (array (entries.map Bridge.ShopLabelEntry.text)))]
  | .talkatooPool enabled kingdom moons =>
      [("enabled", some (bool enabled)), ("kingdom", some (quoted kingdom)),
        ("moons", some (array (moons.map quoted)))]
  | .kingdomGates entries =>
      [("entries", some (array (entries.map fun e =>
        countEntry "kingdom" "gate" (kingdomApToSwitch e.1, e.2))))]
  | .coinGrant total => [("total", some (int total))]
  | .abilityState entries enforce =>
      [("entries", some (array (entries.map (countEntry "ability" "count")))),
        ("enforce", some (bool enforce))]
  | .entranceMap entries reset =>
      [("entries", some (array (entries.map StageRemap.text))), ("reset", some (bool reset))]
  | .moonLabel text seq validForMs =>
      [("text", some (quoted text)), ("seq", some (int seq)), ("valid_for_ms", some (int validForMs))]

def type : BridgeMsg → MsgType
  | .helloAck .. => .helloAck
  | .checkedReplay _ => .checkedReplay
  | .item _ => .item
  | .shineScouts _ => .shineScouts
  | .print _ => .print
  | .apState _ => .apState
  | .pong _ => .pong
  | .err .. => .err
  | .kill .. => .kill
  | .outstanding _ => .outstanding
  | .cappy _ => .cappy
  | .shopLabels _ => .shopLabels
  | .talkatooPool .. => .talkatooPool
  | .kingdomGates _ => .kingdomGates
  | .coinGrant _ => .coinGrant
  | .abilityState .. => .abilityState
  | .entranceMap .. => .entranceMap
  | .moonLabel .. => .moonLabel

/-- The tag of the dataclass. -/
def tag : MsgType → String
  | .helloAck => "hello_ack"
  | .checkedReplay => "checked_replay"
  | .item => "item"
  | .shineScouts => "shine_scouts"
  | .print => "print"
  | .apState => "ap_state"
  | .pong => "pong"
  | .err => "err"
  | .kill => "kill"
  | .outstanding => "outstanding"
  | .cappy => "cappy"
  | .shopLabels => "shop_labels"
  | .talkatooPool => "talkatoo_pool"
  | .kingdomGates => "kingdom_gates"
  | .coinGrant => "coin_grant"
  | .abilityState => "ability_state"
  | .entranceMap => "entrance_map"
  | .moonLabel => "moon_label"

def toWire (msg : BridgeMsg) : List Char := tagged (tag msg.type) (present msg.fields)

/-- The line without its newline; too long a line raises. -/
def encodeLine (msg : BridgeMsg) : Option (List UInt8) :=
  if size msg.toWire ≤ maxLineBytes then some (bytes msg.toWire) else none

theorem ofTag_tag (type : MsgType) :
    MsgType.ofTag (CStr.ofBytes (Json.utf8Bytes (tag type))) = some type := by
  cases type <;> decide

end BridgeMsg

/-- A message of a replay among all messages. -/
def WireMsg.toBridge : WireMsg → BridgeMsg
  | .outstanding entries => .outstanding (entries.map fun e => (e.1, (e.2 : ℤ)))
  | .checkedReplay ids => .checkedReplay ids
  | .item msg => .item msg
  | .talkatooPool enabled kingdom moons => .talkatooPool enabled kingdom moons
  | .shopLabels entries => .shopLabels entries
  | .kingdomGates entries => .kingdomGates entries
  | .entranceMap entries reset => .entranceMap entries reset
  | .coinGrant total => .coinGrant total
  | .abilityState msg => .abilityState (msg.entries.map fun e => (e.1, (e.2 : ℤ))) msg.enforce
  | .shineScouts entries => .shineScouts entries
  | .apState conn => .apState conn

theorem WireMsg.toWire_toBridge (msg : WireMsg) : msg.toBridge.toWire = msg.toWire := by
  cases msg with
  | outstanding entries =>
      rw [toBridge, BridgeMsg.toWire, BridgeMsg.fields, List.map_map]
      rfl
  | abilityState msg =>
      rw [toBridge, BridgeMsg.toWire, BridgeMsg.fields, List.map_map]
      rfl
  | _ => rfl

/-! ## What is read -/

/-- The text of a field: the UTF-8 bytes that fit. -/
def wireField {cap : ℕ} [NeZero cap] (s : String) : CStr cap := CStr.ofBytes (Json.utf8Bytes s)

/-- A kind on the wire. -/
def wireKind (s : String) : ApProtocol.ItemKind := .fromWire (wireField s : CStr 32)

variable (translate : String → String)

def ItemRef.read (ref : ItemRef) : ApProtocol.ItemRef where
  kind := wireKind ref.kind
  kingdom := (ref.kingdom.map translate).elim default wireField
  shineId := ref.shineId.elim default wireField
  cap := ref.cap.elim default wireField
  name := ref.name.elim default wireField
  classification := default

def ItemMsg.read (msg : ItemMsg) : ApProtocol.Item where
  kind := wireKind msg.kind
  kingdom := (msg.kingdom.map translate).elim default wireField
  shineId := msg.shineId.elim default wireField
  cap := msg.cap.elim default wireField
  name := msg.name.elim default wireField
  «from» := wireField msg.sender
  hackName := msg.hackName.elim default wireField
  classification := msg.classification.elim default wireField

def ShopLabelEntry.read (e : ShopLabelEntry) : ApProtocol.ShopLabelEntry :=
  ⟨wireField e.file, wireField e.key, wireField e.label⟩

def StageRemap.read (e : StageRemap) : EntranceRemapEntry where
  «from» := wireField e.source
  toStage := wireField e.toStage
  toId := wireField e.toId
  isExit := decide ((wireField e.kind : CStr kCheckFieldCap).bytes = Json.ascii "exit")

/-- What the Switch reads of a message, if kingdoms are translated by the function. -/
def BridgeMsg.read : BridgeMsg → View
  | .helloAck ok seed slot capTableHash deathlinkEnabled clientVer error =>
      .helloAck
        { ok, seed := wireField seed, slot := wireField slot, capTableHash := wireField capTableHash,
          deathlinkEnabled, clientVer := clientVer.elim default wireField,
          err := error.elim default wireField }
  | .checkedReplay ids =>
      .checkedReplay ((ids.map fun ref => ref.read translate).take 128) (decide (128 < ids.length))
  | .item msg => .item (msg.read translate)
  | .shineScouts entries =>
      .shineScouts ((entries.map fun e => ⟨e.1, e.2⟩).take 256) (decide (256 < entries.length))
  | .print text => .print ⟨wireField text⟩
  | .apState conn => .apState ⟨wireField conn⟩
  | .pong tsMs => .pong ⟨tsMs⟩
  | .err code ctx => .err ⟨wireField code, wireField ctx⟩
  | .kill source cause => .kill ⟨wireField source, wireField cause⟩
  | .outstanding entries =>
      .outstanding ((entries.map fun e => ⟨wireField (translate e.1), e.2⟩).take 17)
  | .cappy text => .cappy ⟨wireField text⟩
  | .shopLabels entries =>
      .shopLabels ((entries.map ShopLabelEntry.read).take 32) (decide (32 < entries.length))
  | .talkatooPool enabled kingdom moons =>
      .talkatooPool enabled (wireField kingdom) ((moons.map wireField).take 96)
        (decide (96 < moons.length))
  | .kingdomGates entries =>
      .kingdomGates ((entries.map fun e => ⟨wireField (translate e.1), e.2⟩).take 17)
  | .coinGrant total => .coinGrant ⟨total⟩
  | .abilityState entries enforce =>
      .abilityState ((entries.map fun e => ⟨wireField e.1, e.2⟩).take 32) (decide (32 < entries.length))
        enforce
  | .entranceMap entries reset =>
      .entranceMap ((entries.map StageRemap.read).take 64) reset (decide (64 < entries.length))
  | .moonLabel text seq validForMs => .moonLabel ⟨wireField text, seq, validForMs⟩

/-! ## Lists with a bounded number of slots -/

section Lists

variable {σ κ α : Type} {cap : ℕ}

/-- Entries are stored one after the other while there is room. -/
theorem live_foldl_store (entries : σ → Filled α cap) (read : κ → α) {store : α → σ → σ}
    (stores : ∀ a s, entries (store a s) = ((entries s).add a).1) (ks : List κ) (s : σ) :
    (entries (ks.foldl (fun s k => store (read k) s) s)).live =
      ((entries s).live ++ ks.map read).take cap := by
  induction ks generalizing s with
  | nil =>
      have few : (entries s).live.length ≤ cap := (Filled.length_live _).trans_le (entries s).count_le
      rw [List.foldl_nil, List.map_nil, List.append_nil, List.take_of_length_le few]
  | cons k ks ih =>
      rw [List.foldl_cons, ih, stores, List.map_cons]
      by_cases room : (entries s).count < cap
      · rw [Filled.add, dif_pos room, Filled.live_push, List.append_assoc]
        rfl
      · have full : (entries s).live.length = cap :=
          (Filled.length_live _).trans (le_antisymm (entries s).count_le (Nat.not_lt.1 room))
        rw [Filled.add, dif_neg room, List.take_left' full, List.take_left' full]

/-- The flag is set if there was no room for one. -/
theorem truncated_foldl_store (entries : σ → Filled α cap) (truncated : σ → Bool) (read : κ → α)
    {store : α → σ → σ} (stores : ∀ a s, entries (store a s) = ((entries s).add a).1)
    (flags : ∀ a s, truncated (store a s) = (truncated s || ((entries s).add a).2)) (ks : List κ) (s : σ) :
    truncated (ks.foldl (fun s k => store (read k) s) s) =
      (truncated s || decide (cap < (entries s).count + ks.length)) := by
  induction ks generalizing s with
  | nil => simp [(entries s).count_le]
  | cons k ks ih =>
      rw [List.foldl_cons, ih, stores, flags]
      by_cases room : (entries s).count < cap
      · have one_more : (entries s).count + 1 + ks.length = (entries s).count + (k :: ks).length := by
          rw [List.length_cons]
          omega
        rw [Filled.add, dif_pos room, Bool.or_false, ← one_more]
        rfl
      · have exceeds : cap < (entries s).count + (k :: ks).length := by
          rw [List.length_cons]
          omega
        rw [Filled.add, dif_neg room, decide_eq_true exceeds, Bool.or_true, Bool.true_or]

/-- Entries stored into a cleared list, with the flag for those that do not fit. -/
theorem stored (entries : σ → Filled α cap) (truncated : σ → Bool) (read : κ → α) (store : α → σ → σ)
    (stores : ∀ a s, entries (store a s) = ((entries s).add a).1)
    (flags : ∀ a s, truncated (store a s) = (truncated s || ((entries s).add a).2)) (ks : List κ)
    {s : σ} (empty : (entries s).count = 0) (unset : truncated s = false) :
    (entries (ks.foldl (fun s k => store (read k) s) s)).live = (ks.map read).take cap ∧
      truncated (ks.foldl (fun s k => store (read k) s) s) = decide (cap < ks.length) := by
  have none_live : (entries s).live = [] :=
    List.length_eq_zero_iff.1 ((Filled.length_live _).trans empty)
  constructor
  · rw [live_foldl_store entries read stores, none_live, List.nil_append]
  · rw [truncated_foldl_store entries truncated read stores flags, unset, empty, Bool.false_or,
      Nat.zero_add]

/-- What storing leaves alone is left alone. -/
theorem get_foldl_store {β : Type} (get : σ → β) (store : κ → σ → σ)
    (keeps : ∀ k s, get (store k s) = get s) (ks : List κ) (s : σ) :
    get (ks.foldl (fun s k => store k s) s) = get s := by
  induction ks generalizing s with
  | nil => rfl
  | cons k ks ih => rw [List.foldl_cons, ih, keeps]

end Lists

/-! ## The members of the messages -/

/-- The reader after the tag of a message. -/
def BridgeMsg.body (msg : BridgeMsg) : Json.Reader :=
  ⟨elementsText memberText true (present msg.fields) ++ [0x7d], [⟨true, true⟩], false⟩

/-- The reader before the last brace. -/
def atEnd : Json.Reader := ⟨[0x7d], [⟨true, true⟩], false⟩

/-- A number that is read into an `int`. -/
def wireInt (z : ℤ) : ℤ := Json.Reader.toInt32 (Json.Reader.toInt64 z)

theorem scans_wireInt (z : ℤ) : Scans readIntoInt (int z) (wireInt z) :=
  (scans_int64 z).map Json.Reader.toInt32

section Tables

variable {σ : Type}

theorem parse_table (table : Table σ) (slots : List (Slot σ))
    (all : slots.Forall (Slot.Reads (table.fields.map Field.handler) [])) (s : σ) :
    parseFields table ⟨elementsText memberText true (printed slots) ++ [0x7d], [⟨true, true⟩], false⟩ s =
      (true, atEnd, effects slots s) :=
  parseHandlers_members (List.forall_iff_forall_mem.1 all) [] s

theorem parse_handlers {handlers : List (FieldLoop.Handler Json.Reader.size (List UInt8) σ)}
    (slots : List (Slot σ)) (all : slots.Forall (Slot.Reads handlers [])) (s : σ) :
    parseHandlers handlers
        ⟨elementsText memberText true (printed slots) ++ [0x7d], [⟨true, true⟩], false⟩ s =
      (true, atEnd, effects slots s) :=
  parseHandlers_members (List.forall_iff_forall_mem.1 all) [] s

end Tables

theorem parse_helloAck (ok : Bool) (seed slot capTableHash : String) (deathlinkEnabled : Bool)
    (clientVer error : Option String) (s : HelloAck) :
    parseHelloAck
        (BridgeMsg.helloAck ok seed slot capTableHash deathlinkEnabled clientVer error).body s =
      (true, atEnd,
        { ok, seed := wireField seed, slot := wireField slot, capTableHash := wireField capTableHash,
          deathlinkEnabled, clientVer := clientVer.elim s.clientVer wireField,
          err := error.elim s.err wireField }) :=
  parse_table helloAckTable
    [⟨"ok", some (bool ok), fun s => { s with ok }⟩,
      ⟨"seed", some (quoted seed), fun s => { s with seed := wireField seed }⟩,
      ⟨"slot", some (quoted slot), fun s => { s with slot := wireField slot }⟩,
      ⟨"cap_table_hash", some (quoted capTableHash), fun s =>
        { s with capTableHash := wireField capTableHash }⟩,
      ⟨"deathlink_enabled", some (bool deathlinkEnabled), fun s => { s with deathlinkEnabled }⟩,
      ⟨"client_ver", clientVer.map quoted, fun s =>
        { s with clientVer := clientVer.elim s.clientVer wireField }⟩,
      ⟨"err", error.map quoted, fun s => { s with err := error.elim s.err wireField }⟩]
    ⟨reads_field (f := helloAckTable.fields[0]) rfl (scans_bool ok),
      reads_field (f := helloAckTable.fields[1]) rfl (scans_field _ seed),
      reads_field (f := helloAckTable.fields[2]) rfl (scans_field _ slot),
      reads_field (f := helloAckTable.fields[3]) rfl (scans_field _ capTableHash),
      reads_field (f := helloAckTable.fields[4]) rfl (scans_bool deathlinkEnabled),
      reads_optional (f := helloAckTable.fields[5]) rfl (scans_field _) (fun _ => rfl) clientVer,
      reads_optional (f := helloAckTable.fields[6]) rfl (scans_field _) (fun _ => rfl) error⟩ s

theorem parse_item (msg : ItemMsg) (s : Item) :
    parseItem (BridgeMsg.item msg).body s =
      (true, atEnd,
        { kind := wireKind msg.kind
          kingdom := (msg.kingdom.map kingdomApToSwitch).elim s.kingdom wireField
          shineId := msg.shineId.elim s.shineId wireField
          cap := msg.cap.elim s.cap wireField
          name := msg.name.elim s.name wireField
          «from» := wireField msg.sender
          hackName := msg.hackName.elim s.hackName wireField
          classification := msg.classification.elim s.classification wireField }) := by
  have fields : (BridgeMsg.item msg).fields =
      [("kind", some (quoted msg.kind)),
        ("kingdom", (msg.kingdom.map kingdomApToSwitch).map quoted), ("shine_id", msg.shineId.map quoted),
        ("cap", msg.cap.map quoted), ("name", msg.name.map quoted),
        ("hack_name", msg.hackName.map quoted), ("classification", msg.classification.map quoted),
        ("from", some (quoted msg.sender))] := by
    rw [BridgeMsg.fields, ItemMsg.fields, Option.map_map]
    rfl
  rw [BridgeMsg.body, fields]
  exact parse_table itemTable
    [⟨"kind", some (quoted msg.kind), fun s => { s with kind := wireKind msg.kind }⟩,
      ⟨"kingdom", (msg.kingdom.map kingdomApToSwitch).map quoted, fun s =>
        { s with kingdom := (msg.kingdom.map kingdomApToSwitch).elim s.kingdom wireField }⟩,
      ⟨"shine_id", msg.shineId.map quoted, fun s =>
        { s with shineId := msg.shineId.elim s.shineId wireField }⟩,
      ⟨"cap", msg.cap.map quoted, fun s => { s with cap := msg.cap.elim s.cap wireField }⟩,
      ⟨"name", msg.name.map quoted, fun s => { s with name := msg.name.elim s.name wireField }⟩,
      ⟨"hack_name", msg.hackName.map quoted, fun s =>
        { s with hackName := msg.hackName.elim s.hackName wireField }⟩,
      ⟨"classification", msg.classification.map quoted, fun s =>
        { s with classification := msg.classification.elim s.classification wireField }⟩,
      ⟨"from", some (quoted msg.sender), fun s => { s with «from» := wireField msg.sender }⟩]
    ⟨reads_field (f := itemTable.fields[0]) rfl ((scans_field 32 msg.kind).map ItemKind.fromWire),
      reads_optional (f := itemTable.fields[1]) rfl (scans_field _) (fun _ => rfl) _,
      reads_optional (f := itemTable.fields[2]) rfl (scans_field _) (fun _ => rfl) msg.shineId,
      reads_optional (f := itemTable.fields[3]) rfl (scans_field _) (fun _ => rfl) msg.cap,
      reads_optional (f := itemTable.fields[4]) rfl (scans_field _) (fun _ => rfl) msg.name,
      reads_optional (f := itemTable.fields[6]) rfl (scans_field _) (fun _ => rfl) msg.hackName,
      reads_optional (f := itemTable.fields[7]) rfl (scans_field _) (fun _ => rfl) msg.classification,
      reads_field (f := itemTable.fields[5]) rfl (scans_field _ msg.sender)⟩ s

theorem parse_print (text : String) (s : Print) :
    parsePrint (BridgeMsg.print text).body s = (true, atEnd, ⟨wireField text⟩) :=
  parse_table printTable
    [⟨"text", some (quoted text), fun s => { s with text := wireField text }⟩]
    (reads_field (f := printTable.fields[0]) rfl (scans_field _ text)) s

theorem parse_apState (conn : String) (s : ApStateMsg) :
    parseApStateMsg (BridgeMsg.apState conn).body s = (true, atEnd, ⟨wireField conn⟩) :=
  parse_table apStateTable
    [⟨"conn", some (quoted conn), fun s => { s with conn := wireField conn }⟩]
    (reads_field (f := apStateTable.fields[0]) rfl (scans_field _ conn)) s

theorem parse_pong (tsMs : ℤ) (s : Pong) :
    parsePong (BridgeMsg.pong tsMs).body s = (true, atEnd, ⟨Json.Reader.toInt64 tsMs⟩) :=
  parse_table pongTable
    [⟨"ts_ms", some (int tsMs), fun s => { s with tsMs := Json.Reader.toInt64 tsMs }⟩]
    (reads_field (f := pongTable.fields[0]) rfl (scans_int64 tsMs)) s

theorem parse_err (code ctx : String) (s : Err) :
    parseErr (BridgeMsg.err code ctx).body s = (true, atEnd, ⟨wireField code, wireField ctx⟩) :=
  parse_table errTable
    [⟨"code", some (quoted code), fun s => { s with code := wireField code }⟩,
      ⟨"ctx", some (quoted ctx), fun s => { s with ctx := wireField ctx }⟩]
    ⟨reads_field (f := errTable.fields[0]) rfl (scans_field _ code),
      reads_field (f := errTable.fields[1]) rfl (scans_field _ ctx)⟩ s

theorem parse_kill (source cause : String) (s : Kill) :
    parseKill (BridgeMsg.kill source cause).body s =
      (true, atEnd, ⟨wireField source, wireField cause⟩) :=
  parse_table killTable
    [⟨"source", some (quoted source), fun s => { s with source := wireField source }⟩,
      ⟨"cause", some (quoted cause), fun s => { s with cause := wireField cause }⟩]
    ⟨reads_field (f := killTable.fields[0]) rfl (scans_field _ source),
      reads_field (f := killTable.fields[1]) rfl (scans_field _ cause)⟩ s

theorem parse_moonLabel (text : String) (seq validForMs : ℤ) (s : MoonLabel) :
    parseMoonLabel (BridgeMsg.moonLabel text seq validForMs).body s =
      (true, atEnd, ⟨wireField text, wireInt seq, wireInt validForMs⟩) :=
  parse_table moonLabelTable
    [⟨"text", some (quoted text), fun s => { s with text := wireField text }⟩,
      ⟨"seq", some (int seq), fun s => { s with seq := wireInt seq }⟩,
      ⟨"valid_for_ms", some (int validForMs), fun s => { s with validForMs := wireInt validForMs }⟩]
    ⟨reads_field (f := moonLabelTable.fields[0]) rfl (scans_field _ text),
      reads_field (f := moonLabelTable.fields[1]) rfl (scans_wireInt seq),
      reads_field (f := moonLabelTable.fields[2]) rfl (scans_wireInt validForMs)⟩ s

theorem parse_cappy (text : String) (s : Cappy) :
    parseCappy (BridgeMsg.cappy text).body s = (true, atEnd, ⟨wireField text⟩) :=
  parse_table cappyTable
    [⟨"text", some (quoted text), fun s => { s with text := wireField text }⟩]
    (reads_field (f := cappyTable.fields[0]) rfl (scans_field _ text)) s

theorem parse_coinGrant (total : ℤ) (s : ApProtocol.CoinGrant) :
    parseCoinGrant (BridgeMsg.coinGrant total).body s = (true, atEnd, ⟨wireInt total⟩) :=
  parse_table coinGrantTable
    [⟨"total", some (int total), fun s => { s with total := wireInt total }⟩]
    (reads_field (f := coinGrantTable.fields[0]) rfl (scans_wireInt total)) s

/-! ## Messages with lists -/

theorem parse_shineScouts (entries : List (ℤ × ℤ)) (s : ShineScouts) :
    ∃ out, parseShineScouts (BridgeMsg.shineScouts entries).body s = (true, atEnd, out) ∧
      out.entries.live = (entries.map fun e => ⟨wireInt e.1, wireInt e.2⟩).take 256 ∧
      out.truncated = decide (256 < entries.length) := by
  let slots (e : ℤ × ℤ) : List (Slot ShineScout) :=
    [⟨"shine_uid", some (int e.1), fun s => { s with shineUid := wireInt e.1 }⟩,
      ⟨"palette", some (int e.2), fun s => { s with palette := wireInt e.2 }⟩]
  have reads : ReadsBack _ _ _ [⟨true, true⟩] := entry_readsBack shineScoutTable default slots ShineScouts.store
    (by decide) fun e comma => List.forall_iff_forall_mem.1
      ⟨reads_field (f := shineScoutTable.fields[0]) rfl (scans_wireInt e.1),
        reads_field (f := shineScoutTable.fields[1]) rfl (scans_wireInt e.2)⟩
  refine ⟨_, parse_handlers [⟨"entries", _, _⟩] (reads_array reads (by decide) rfl entries) _, ?_⟩
  exact stored ShineScouts.entries ShineScouts.truncated
    (fun e : ℤ × ℤ => ⟨wireInt e.1, wireInt e.2⟩) ShineScouts.store (fun _ _ => rfl) (fun _ _ => rfl) entries rfl rfl

theorem parse_outstanding (entries : List (String × ℤ)) (s : Outstanding) :
    ∃ out, parseOutstanding (BridgeMsg.outstanding entries).body s = (true, atEnd, out) ∧
      out.entries.live =
        (entries.map fun e => ⟨wireField (kingdomApToSwitch e.1), wireInt e.2⟩).take 17 := by
  let slots (e : String × ℤ) : List (Slot ApProtocol.OutstandingEntry) :=
    [⟨"kingdom", some (quoted (kingdomApToSwitch e.1)), fun s =>
        { s with kingdom := wireField (kingdomApToSwitch e.1) }⟩,
      ⟨"count", some (int e.2), fun s => { s with count := wireInt e.2 }⟩]
  have reads : ReadsBack _ _ _ [⟨true, true⟩] := entry_readsBack outstandingEntryTable default slots Outstanding.store
    (by decide) fun e comma => List.forall_iff_forall_mem.1
      ⟨reads_field (f := outstandingEntryTable.fields[0]) rfl (scans_field _ _),
        reads_field (f := outstandingEntryTable.fields[1]) rfl (scans_wireInt e.2)⟩
  refine ⟨_, parse_handlers [⟨"entries", _, _⟩] (reads_array reads (by decide) rfl entries) _, ?_⟩
  exact live_foldl_store Outstanding.entries
    (fun e : String × ℤ => ⟨wireField (kingdomApToSwitch e.1), wireInt e.2⟩) (fun _ _ => rfl) entries
    { entries := s.entries.clear }

theorem parse_kingdomGates (entries : List (String × ℤ)) (s : KingdomGates) :
    ∃ out, parseKingdomGates (BridgeMsg.kingdomGates entries).body s = (true, atEnd, out) ∧
      out.entries.live =
        (entries.map fun e => ⟨wireField (kingdomApToSwitch e.1), wireInt e.2⟩).take 17 := by
  let slots (e : String × ℤ) : List (Slot ApProtocol.KingdomGateEntry) :=
    [⟨"kingdom", some (quoted (kingdomApToSwitch e.1)), fun s =>
        { s with kingdom := wireField (kingdomApToSwitch e.1) }⟩,
      ⟨"gate", some (int e.2), fun s => { s with gate := wireInt e.2 }⟩]
  have reads : ReadsBack _ _ _ [⟨true, true⟩] := entry_readsBack kingdomGateTable default slots KingdomGates.store
    (by decide) fun e comma => List.forall_iff_forall_mem.1
      ⟨reads_field (f := kingdomGateTable.fields[0]) rfl (scans_field _ _),
        reads_field (f := kingdomGateTable.fields[1]) rfl (scans_wireInt e.2)⟩
  refine ⟨_, parse_handlers [⟨"entries", _, _⟩] (reads_array reads (by decide) rfl entries) _, ?_⟩
  exact live_foldl_store KingdomGates.entries
    (fun e : String × ℤ => ⟨wireField (kingdomApToSwitch e.1), wireInt e.2⟩) (fun _ _ => rfl) entries
    { entries := s.entries.clear }

theorem parse_shopLabels (entries : List Bridge.ShopLabelEntry) (s : ShopLabels) :
    ∃ out, parseShopLabels (BridgeMsg.shopLabels entries).body s = (true, atEnd, out) ∧
      out.entries.live = (entries.map ShopLabelEntry.read).take 32 ∧
      out.truncated = decide (32 < entries.length) := by
  let slots (e : Bridge.ShopLabelEntry) : List (Slot ApProtocol.ShopLabelEntry) :=
    [⟨"file", some (quoted e.file), fun s => { s with fileName := wireField e.file }⟩,
      ⟨"key", some (quoted e.key), fun s => { s with key := wireField e.key }⟩,
      ⟨"label", some (quoted e.label), fun s => { s with label := wireField e.label }⟩]
  have reads : ReadsBack _ _ _ [⟨true, true⟩] := entry_readsBack shopLabelTable default slots ShopLabels.store
    (by decide) fun e comma => List.forall_iff_forall_mem.1
      ⟨reads_field (f := shopLabelTable.fields[0]) rfl (scans_field _ e.file),
        reads_field (f := shopLabelTable.fields[1]) rfl (scans_field _ e.key),
        reads_field (f := shopLabelTable.fields[2]) rfl (scans_field _ e.label)⟩
  refine ⟨_, parse_handlers [⟨"entries", _, _⟩] (reads_array reads (by decide) rfl entries) _, ?_⟩
  exact stored ShopLabels.entries ShopLabels.truncated ShopLabelEntry.read ShopLabels.store
    (fun _ _ => rfl) (fun _ _ => rfl) entries rfl rfl

theorem parse_talkatooPool (enabled : Bool) (kingdom : String) (moons : List String)
    (s : TalkatooPool) :
    ∃ out, parseTalkatooPool (BridgeMsg.talkatooPool enabled kingdom moons).body s =
        (true, atEnd, out) ∧
      out.enabled = enabled ∧ out.kingdom = wireField kingdom ∧
      out.moons.live = (moons.map wireField).take 96 ∧ out.truncated = decide (96 < moons.length) := by
  have reads : ReadsBack _ _ _ [⟨true, true⟩] := string_readsBack kCheckFieldCap TalkatooPool.store
  refine ⟨_, parse_handlers
    [⟨"enabled", some (bool enabled), fun s => { s with enabled }⟩,
      ⟨"kingdom", some (quoted kingdom), fun s => { s with kingdom := wireField kingdom }⟩,
      ⟨"moons", _, _⟩]
    ⟨reads_field (f := field "enabled" Reader.bool TalkatooPool.enabled fun v s => { s with enabled := v })
        rfl (scans_bool enabled),
      reads_field (f := field "kingdom" (readIntoField _).toScanner TalkatooPool.kingdom fun v s =>
        { s with kingdom := v }) rfl (scans_field _ kingdom),
      reads_array reads (by decide) rfl moons⟩ _, ?_, ?_, ?_⟩
  · exact get_foldl_store TalkatooPool.enabled
      (fun k => TalkatooPool.store (wireField k)) (fun _ _ => rfl) moons _
  · exact get_foldl_store TalkatooPool.kingdom
      (fun k => TalkatooPool.store (wireField k)) (fun _ _ => rfl) moons _
  · exact stored TalkatooPool.moons TalkatooPool.truncated wireField TalkatooPool.store
      (fun _ _ => rfl) (fun _ _ => rfl) moons rfl rfl

theorem parse_abilityState (entries : List (String × ℤ)) (enforce : Bool) (s : AbilityState) :
    ∃ out, parseAbilityState (BridgeMsg.abilityState entries enforce).body s = (true, atEnd, out) ∧
      out.enforce = enforce ∧
      out.entries.live = (entries.map fun e => ⟨wireField e.1, wireInt e.2⟩).take 32 ∧
      out.truncated = decide (32 < entries.length) := by
  let slots (e : String × ℤ) : List (Slot AbilityEntry) :=
    [⟨"ability", some (quoted e.1), fun s => { s with ability := wireField e.1 }⟩,
      ⟨"count", some (int e.2), fun s => { s with count := wireInt e.2 }⟩]
  have reads : ReadsBack _ _ _ [⟨true, true⟩] := entry_readsBack abilityTable default slots AbilityState.store
    (by decide) fun e comma => List.forall_iff_forall_mem.1
      ⟨reads_field (f := abilityTable.fields[0]) rfl (scans_field _ e.1),
        reads_field (f := abilityTable.fields[1]) rfl (scans_wireInt e.2)⟩
  refine ⟨_, parse_handlers
    [⟨"entries", _, _⟩,
      ⟨"enforce", some (bool enforce), fun s : AbilityState => { s with enforce }⟩]
    ⟨reads_array reads (by decide) rfl entries,
      reads_field (f := field "enforce" Reader.bool AbilityState.enforce fun v s => { s with enforce := v })
        rfl (scans_bool enforce)⟩ _, rfl, ?_⟩
  exact stored AbilityState.entries AbilityState.truncated
    (fun e : String × ℤ => ⟨wireField e.1, wireInt e.2⟩) AbilityState.store (fun _ _ => rfl) (fun _ _ => rfl) entries rfl rfl

theorem parse_entranceMap (entries : List StageRemap) (reset : Bool) (s : EntranceMap) :
    ∃ out, parseEntranceMap (BridgeMsg.entranceMap entries reset).body s = (true, atEnd, out) ∧
      out.reset = reset ∧ out.entries.live = (entries.map StageRemap.read).take 64 ∧
      out.truncated = decide (64 < entries.length) := by
  let slots (e : StageRemap) : List (Slot EntranceRemapEntry) :=
    [⟨"kind", some (quoted e.kind), fun s => { s with isExit := e.read.isExit }⟩,
      ⟨"from", some (quoted e.source), fun s => { s with «from» := wireField e.source }⟩,
      ⟨"to_stage", some (quoted e.toStage), fun s => { s with toStage := wireField e.toStage }⟩,
      ⟨"to_id", some (quoted e.toId), fun s => { s with toId := wireField e.toId }⟩]
  have reads : ReadsBack _ _ _ [⟨true, true⟩] := entry_readsBack entranceTable default slots EntranceMap.store
    (by decide) fun e comma => List.forall_iff_forall_mem.1
      ⟨reads_field (f := entranceTable.fields[3]) rfl ((scans_field kCheckFieldCap e.kind).map _),
        reads_field (f := entranceTable.fields[0]) rfl (scans_field _ e.source),
        reads_field (f := entranceTable.fields[1]) rfl (scans_field _ e.toStage),
        reads_field (f := entranceTable.fields[2]) rfl (scans_field _ e.toId)⟩
  refine ⟨_, parse_handlers
    [⟨"entries", _, _⟩, ⟨"reset", some (bool reset), fun s : EntranceMap => { s with reset }⟩]
    ⟨reads_array reads (by decide) rfl entries,
      reads_field (f := field "reset" Reader.bool EntranceMap.reset fun v s => { s with reset := v })
        rfl (scans_bool reset)⟩ _, rfl, ?_⟩
  exact stored EntranceMap.entries EntranceMap.truncated StageRemap.read EntranceMap.store
    (fun _ _ => rfl) (fun _ _ => rfl) entries rfl rfl

/-! ## The replay, which is read in place -/

def ItemRef.slots (ref : Bridge.ItemRef) : List (Slot ApProtocol.ItemRef) :=
  [⟨"kind", some (quoted ref.kind), fun s => { s with kind := wireKind ref.kind }⟩,
    ⟨"kingdom", (ref.kingdom.map kingdomApToSwitch).map quoted, fun s =>
      { s with kingdom := (ref.kingdom.map kingdomApToSwitch).elim s.kingdom wireField }⟩,
    ⟨"shine_id", ref.shineId.map quoted, fun s =>
      { s with shineId := ref.shineId.elim s.shineId wireField }⟩,
    ⟨"cap", ref.cap.map quoted, fun s => { s with cap := ref.cap.elim s.cap wireField }⟩,
    ⟨"name", ref.name.map quoted, fun s => { s with name := ref.name.elim s.name wireField }⟩]

theorem ItemRef.toReplayDict_eq (ref : Bridge.ItemRef) : ref.toReplayDict = printed ref.slots := by
  rw [ItemRef.toReplayDict, printed, ItemRef.slots]
  simp only [List.map_cons, List.map_nil, Option.map_map]
  rfl

theorem ItemRef.reads_slots (ref : Bridge.ItemRef) (fs : List Frame) :
    ref.slots.Forall (Slot.Reads (itemRefTable.fields.map Field.handler) fs) :=
  ⟨reads_field (f := itemRefTable.fields[0]) rfl ((scans_field 32 ref.kind).map ItemKind.fromWire),
    reads_optional (f := itemRefTable.fields[1]) rfl (scans_field _) (fun _ => rfl) _,
    reads_optional (f := itemRefTable.fields[2]) rfl (scans_field _) (fun _ => rfl) ref.shineId,
    reads_optional (f := itemRefTable.fields[3]) rfl (scans_field _) (fun _ => rfl) ref.cap,
    reads_optional (f := itemRefTable.fields[4]) rfl (scans_field _) (fun _ => rfl) ref.name⟩

/-- A reference is read over what its slot holds; past the last slot it is dropped. -/
def CheckedReplay.storeRef (ref : Bridge.ItemRef) (s : CheckedReplay) : CheckedReplay :=
  if room : s.ids.count < 128 then
    { s with ids := s.ids.push (effects ref.slots s.ids.slots[s.ids.count]) room }
  else { s with truncated := true }

theorem readId_slots (ref : Bridge.ItemRef) (rest : List UInt8) (fs : List Frame) (s : CheckedReplay) :
    ∃ last, CheckedReplay.readId
        ⟨elementsText memberText false (printed ref.slots) ++ 0x7d :: rest, ⟨true, false⟩ :: fs, false⟩ s =
      (true, ⟨0x7d :: rest, ⟨true, last⟩ :: fs, false⟩, CheckedReplay.storeRef ref s) := by
  have body (t : ApProtocol.ItemRef) : parseItemRefBody
      ⟨elementsText memberText false (printed ref.slots) ++ 0x7d :: rest, ⟨true, false⟩ :: fs, false⟩ t =
        (true, ⟨0x7d :: rest, ⟨true, false || !(printed ref.slots).isEmpty⟩ :: fs, false⟩,
          effects ref.slots t) :=
    loop_members (List.forall_iff_forall_mem.1 (ref.reads_slots fs)) false rest t (Nat.lt_add_one _)
  refine ⟨false || !(printed ref.slots).isEmpty, ?_⟩
  rw [CheckedReplay.readId, CheckedReplay.storeRef]
  split_ifs with room
  · rw [body]
    rfl
  · rw [body]
    dsimp only
    rw [Bool.or_true]

theorem replay_readsBack : ReadsBack (objectElement CheckedReplay.readId CheckedReplay.size_readId)
    (fun ref : Bridge.ItemRef => bytes (object ref.toReplayDict)) CheckedReplay.storeRef
    [⟨true, true⟩] where
  more ref comma rest := by cases comma <;> rfl
  act ref comma rest s := by
    obtain ⟨last, read⟩ := readId_slots ref rest (⟨false, comma⟩ :: [⟨true, true⟩]) s
    rw [ItemRef.toReplayDict_eq]
    exact inObject_members (by decide) read

/-- The slots above the count are as in a fresh message. -/
def Unused (s : CheckedReplay) : Prop :=
  ∀ (i : ℕ) (h : i < 128), s.ids.count ≤ i → s.ids.slots[i] = default

/-- A reference added to a list. -/
def addRef (ref : ApProtocol.ItemRef) (s : CheckedReplay) : CheckedReplay :=
  { ids := (s.ids.add ref).1, truncated := s.truncated || (s.ids.add ref).2 }

theorem Unused.storeRef {s : CheckedReplay} (unused : Unused s) (ref : Bridge.ItemRef) :
    CheckedReplay.storeRef ref s = addRef (ref.read kingdomApToSwitch) s ∧
      Unused (CheckedReplay.storeRef ref s) := by
  rw [CheckedReplay.storeRef, addRef]
  by_cases room : s.ids.count < 128
  · have fresh := unused s.ids.count room le_rfl
    rw [dif_pos room, Filled.add, dif_pos room, fresh, Bool.or_false]
    refine ⟨rfl, fun i h above => ?_⟩
    have later : s.ids.count + 1 ≤ i := above
    simp only [Filled.push, Vector.getElem_set_ne _ _ (by omega : s.ids.count ≠ i)]
    exact unused i h (by omega)
  · rw [dif_neg room, Filled.add, dif_neg room, Bool.or_true]
    exact ⟨rfl, unused⟩

theorem Unused.foldl {s : CheckedReplay} (unused : Unused s) (ids : List Bridge.ItemRef) :
    ids.foldl (fun s ref => CheckedReplay.storeRef ref s) s =
      ids.foldl (fun s ref => addRef (ref.read kingdomApToSwitch) s) s := by
  induction ids generalizing s with
  | nil => rfl
  | cons ref ids ih =>
      obtain ⟨same, unused'⟩ := unused.storeRef ref
      rw [List.foldl_cons, List.foldl_cons, ih unused', same]

/-- Into a fresh message a replay is read as it is. -/
theorem parse_checkedReplay (ids : List Bridge.ItemRef) :
    ∃ out, parseCheckedReplay (BridgeMsg.checkedReplay ids).body default = (true, atEnd, out) ∧
      out.ids.live = (ids.map fun ref => ref.read kingdomApToSwitch).take 128 ∧
      out.truncated = decide (128 < ids.length) := by
  have unused : Unused { (default : CheckedReplay) with
      ids := (default : CheckedReplay).ids.clear, truncated := false } := by
    intro i h _
    exact Vector.getElem_replicate h
  refine ⟨_, parse_handlers [⟨"ids", _, _⟩]
    (reads_array replay_readsBack (by decide) rfl ids) _, ?_⟩
  have result := stored CheckedReplay.ids CheckedReplay.truncated
    (fun ref : Bridge.ItemRef => ref.read kingdomApToSwitch) addRef (fun _ _ => rfl) (fun _ _ => rfl)
    ids (s := { (default : CheckedReplay) with
      ids := (default : CheckedReplay).ids.clear, truncated := false }) rfl rfl
  rw [← unused.foldl] at result
  exact result

/-! ## The round trip -/

namespace BridgeMsg

/-- The numbers that a message carries. -/
def ints : BridgeMsg → List ℤ
  | .shineScouts entries => entries.flatMap fun e => [e.1, e.2]
  | .pong tsMs => [tsMs]
  | .outstanding entries | .kingdomGates entries | .abilityState entries _ => entries.map Prod.snd
  | .coinGrant total => [total]
  | .moonLabel _ seq validForMs => [seq, validForMs]
  | _ => []

/-- The texts that a message carries. -/
def texts : BridgeMsg → List String
  | .helloAck _ seed slot capTableHash _ clientVer error =>
      [seed, slot, capTableHash] ++ clientVer.toList ++ error.toList
  | .checkedReplay ids =>
      ids.flatMap fun ref => ref.kind :: (ref.kingdom.map kingdomApToSwitch).toList ++
        ref.shineId.toList ++ ref.cap.toList ++ ref.name.toList
  | .item msg => msg.kind :: (msg.kingdom.map kingdomApToSwitch).toList ++ msg.shineId.toList ++
      msg.cap.toList ++ msg.name.toList ++ msg.hackName.toList ++ msg.classification.toList ++
      [msg.sender]
  | .print text | .cappy text | .moonLabel text _ _ => [text]
  | .apState conn => [conn]
  | .err code ctx => [code, ctx]
  | .kill source cause => [source, cause]
  | .outstanding entries | .kingdomGates entries => entries.map fun e => kingdomApToSwitch e.1
  | .abilityState entries _ => entries.map Prod.fst
  | .shopLabels entries => entries.flatMap fun e => [e.file, e.key, e.label]
  | .talkatooPool _ kingdom moons => kingdom :: moons
  | .entranceMap entries _ => entries.flatMap fun e => [e.kind, e.source, e.toStage, e.toId]
  | .shineScouts _ | .pong _ | .coinGrant _ => []

/-- The numbers fit an `int`. -/
def IntsFit (msg : BridgeMsg) : Prop := ∀ z ∈ msg.ints, -2 ^ 31 ≤ z ∧ z < 2 ^ 31

instance decidableIntsFit (msg : BridgeMsg) : Decidable msg.IntsFit :=
  inferInstanceAs (Decidable (∀ z ∈ msg.ints, _))

/-- No text has a NUL. -/
def NoNul (msg : BridgeMsg) : Prop := ∀ s ∈ msg.texts, Char.ofNat 0 ∉ s.toList

instance decidableNoNul (msg : BridgeMsg) : Decidable msg.NoNul :=
  inferInstanceAs (Decidable (∀ s ∈ msg.texts, _))

theorem IntsFit.wireInt {msg : BridgeMsg} (fit : msg.IntsFit) {z : ℤ} (member : z ∈ msg.ints) :
    wireInt z = z :=
  (toInt32_toInt64 (fit z member).1 (fit z member).2).1

/-- A fresh message struct once the tag has been read. -/
def fresh (type : MsgType) : DecodedMsg := { (default : DecodedMsg) with t := wireField (tag type) }

theorem decode_body {σ : Type} {msg : BridgeMsg} (put : σ → DecodedMsg)
    {p : Bool × Reader × σ} {out : σ}
    (parses : DecodedMsg.parse (fresh msg.type) msg.body msg.type = putBack put p)
    (read : p = (true, atEnd, out)) : decode (bytes msg.toWire) default = (true, put out) := by
  rw [read] at parses
  exact decode_tagged (ofTag_tag msg.type) parses

/-- A fresh message struct holds after a line what the message has. -/
theorem decode_toWire {msg : BridgeMsg} (fit : msg.IntsFit) :
    ∃ m, decode (bytes msg.toWire) default = (true, m) ∧ m.t = wireField (tag msg.type) ∧
      m.viewAs msg.type = msg.read kingdomApToSwitch := by
  cases msg with
  | helloAck ok seed slot capTableHash deathlinkEnabled clientVer error =>
      exact ⟨_, decode_body (fun v => { fresh .helloAck with helloAck := v }) rfl
        (parse_helloAck ok seed slot capTableHash deathlinkEnabled clientVer error _), rfl, rfl⟩
  | checkedReplay ids =>
      obtain ⟨out, parsed, live, flag⟩ := parse_checkedReplay ids
      refine ⟨_, decode_body (fun v => { fresh .checkedReplay with checkedReplay := v }) rfl parsed, rfl, ?_⟩
      exact (View.checkedReplay.injEq _ _ _ _).mpr ⟨live, flag⟩
  | item msg =>
      exact ⟨_, decode_body (fun v => { fresh .item with item := v }) rfl (parse_item msg _), rfl, rfl⟩
  | shineScouts entries =>
      obtain ⟨out, parsed, live, flag⟩ := parse_shineScouts entries _
      refine ⟨_, decode_body (fun v => { fresh .shineScouts with shineScouts := v }) rfl parsed, rfl, ?_⟩
      refine (View.shineScouts.injEq _ _ _ _).mpr ⟨live.trans (congrArg (List.take 256) ?_), flag⟩
      apply List.map_congr_left
      intro e member
      rw [fit.wireInt (List.mem_flatMap.2 ⟨e, member, List.mem_cons_self⟩),
        fit.wireInt (List.mem_flatMap.2 ⟨e, member, List.mem_cons_of_mem _ List.mem_cons_self⟩)]
  | print text => exact ⟨_, decode_body (fun v => { fresh .print with print := v }) rfl (parse_print text _), rfl, rfl⟩
  | apState conn =>
      exact ⟨_, decode_body (fun v => { fresh .apState with apState := v }) rfl (parse_apState conn _), rfl, rfl⟩
  | pong tsMs =>
      refine ⟨_, decode_body (fun v => { fresh .pong with pong := v }) rfl (parse_pong tsMs _), rfl, ?_⟩
      obtain ⟨low, high⟩ := fit tsMs List.mem_cons_self
      exact congrArg (fun z => View.pong ⟨z⟩) (toInt32_toInt64 low high).2
  | err code ctx =>
      exact ⟨_, decode_body (fun v => { fresh .err with err := v }) rfl (parse_err code ctx _), rfl, rfl⟩
  | kill source cause =>
      exact ⟨_, decode_body (fun v => { fresh .kill with kill := v }) rfl (parse_kill source cause _), rfl, rfl⟩
  | outstanding entries =>
      obtain ⟨out, parsed, live⟩ := parse_outstanding entries _
      refine ⟨_, decode_body (fun v => { fresh .outstanding with outstanding := v }) rfl parsed, rfl, ?_⟩
      refine congrArg View.outstanding (live.trans (congrArg (List.take 17) ?_))
      apply List.map_congr_left
      intro e member
      rw [fit.wireInt (List.mem_map_of_mem member)]
  | cappy text => exact ⟨_, decode_body (fun v => { fresh .cappy with cappy := v }) rfl (parse_cappy text _), rfl, rfl⟩
  | shopLabels entries =>
      obtain ⟨out, parsed, live, flag⟩ := parse_shopLabels entries _
      refine ⟨_, decode_body (fun v => { fresh .shopLabels with shopLabels := v }) rfl parsed, rfl, ?_⟩
      exact (View.shopLabels.injEq _ _ _ _).mpr ⟨live, flag⟩
  | talkatooPool enabled kingdom moons =>
      obtain ⟨out, parsed, on, of, live, flag⟩ := parse_talkatooPool enabled kingdom moons _
      refine ⟨_, decode_body (fun v => { fresh .talkatooPool with talkatooPool := v }) rfl parsed, rfl, ?_⟩
      exact (View.talkatooPool.injEq _ _ _ _ _ _ _ _).mpr ⟨on, of, live, flag⟩
  | kingdomGates entries =>
      obtain ⟨out, parsed, live⟩ := parse_kingdomGates entries _
      refine ⟨_, decode_body (fun v => { fresh .kingdomGates with kingdomGates := v }) rfl parsed, rfl, ?_⟩
      refine congrArg View.kingdomGates (live.trans (congrArg (List.take 17) ?_))
      apply List.map_congr_left
      intro e member
      rw [fit.wireInt (List.mem_map_of_mem member)]
  | coinGrant total =>
      refine ⟨_, decode_body (fun v => { fresh .coinGrant with coinGrant := v }) rfl (parse_coinGrant total _), rfl, ?_⟩
      exact congrArg (fun z => View.coinGrant ⟨z⟩) (fit.wireInt List.mem_cons_self)
  | abilityState entries enforce =>
      obtain ⟨out, parsed, on, live, flag⟩ := parse_abilityState entries enforce _
      refine ⟨_, decode_body (fun v => { fresh .abilityState with abilityState := v }) rfl parsed, rfl, ?_⟩
      refine (View.abilityState.injEq _ _ _ _ _ _).mpr
        ⟨live.trans (congrArg (List.take 32) ?_), flag, on⟩
      apply List.map_congr_left
      intro e member
      rw [fit.wireInt (List.mem_map_of_mem member)]
  | entranceMap entries reset =>
      obtain ⟨out, parsed, again, live, flag⟩ := parse_entranceMap entries reset _
      refine ⟨_, decode_body (fun v => { fresh .entranceMap with entranceMap := v }) rfl parsed, rfl, ?_⟩
      exact (View.entranceMap.injEq _ _ _ _ _ _).mpr ⟨live, again, flag⟩
  | moonLabel text seq validForMs =>
      refine ⟨_, decode_body (fun v => { fresh .moonLabel with moonLabel := v }) rfl (parse_moonLabel text seq validForMs _), rfl, ?_⟩
      have first := fit.wireInt List.mem_cons_self
      have second := fit.wireInt (List.mem_cons_of_mem _ List.mem_cons_self)
      exact congrArg₂ (fun a b => View.moonLabel ⟨wireField text, a, b⟩) first second

/-- A field without a NUL holds the first bytes of its text. -/
theorem wireField_bytes {s : String} (no_nul : Char.ofNat 0 ∉ s.toList) (cap : ℕ) [NeZero cap] :
    (wireField s : CStr cap).bytes = (utf8Bytes s).take (cap - 1) := by
  change ((utf8Bytes s).take (cap - 1)).takeWhile (· != 0) = _
  rw [List.takeWhile_eq_self_iff]
  intro b member
  obtain ⟨c, here, byte⟩ := List.mem_flatMap.1 (List.mem_of_mem_take member)
  exact bne_iff_ne.2 (Utf8.ne_zero_of_mem_utf8EncodeChar (fun nul => no_nul (nul ▸ here)) byte)

/-- A line that encodes is decoded, into a fresh message, to what the message has with its
kingdoms translated: numbers and flags as they are, texts cut to their fields, lists cut to
their slots with the flag set if entries were cut. -/
theorem decode_encodeLine {msg : BridgeMsg} {line : List UInt8}
    (encodes : msg.encodeLine = some line) (fit : msg.IntsFit) (no_nul : msg.NoNul) :
    (decode line default).1 = true ∧
      (decode line default).2.view = msg.read kingdomApToSwitch ∧
      ∀ s ∈ msg.texts, ∀ (cap : ℕ) [NeZero cap],
        (wireField s : CStr cap).bytes = (utf8Bytes s).take (cap - 1) := by
  have printed_line : line = bytes msg.toWire := by
    unfold encodeLine at encodes
    split_ifs at encodes
    exact (Option.some.inj encodes).symm
  obtain ⟨m, decoded, tagged, viewed⟩ := decode_toWire fit
  rw [printed_line, decoded]
  refine ⟨rfl, ?_, fun s member cap _ => wireField_bytes (no_nul s member) cap⟩
  rw [DecodedMsg.view, tagged, wireField, ofTag_tag]
  exact viewed

/-- A message with a text and two numbers. -/
theorem decode_encodeLine_moonLabel :
    (decode (bytes (moonLabel "Got \"it\"!" 3 4000).toWire) default).1 = true ∧
      (decode (bytes (moonLabel "Got \"it\"!" 3 4000).toWire) default).2.view =
        .moonLabel ⟨wireField "Got \"it\"!", 3, 4000⟩ ∧
      ∀ s ∈ ["Got \"it\"!"], ∀ (cap : ℕ) [NeZero cap],
        (wireField s : CStr cap).bytes = (utf8Bytes s).take (cap - 1) :=
  @decode_encodeLine (moonLabel "Got \"it\"!" 3 4000) _ (if_pos (by decide)) (by decide) (by decide)

/-- Bowser's Kingdom has another name on the Switch. -/
theorem decode_bowsers : ∃ msg line, encodeLine msg = some line ∧ msg.IntsFit ∧ msg.NoNul ∧
    (decode line default).2.view ≠ msg.read id := by
  have fit : (outstanding [("Bowser's", 1)]).IntsFit := by decide
  refine ⟨outstanding [("Bowser's", 1)], bytes (outstanding [("Bowser's", 1)]).toWire,
    if_pos (by decide), fit, by decide, ?_⟩
  obtain ⟨m, decoded, tagged, viewed⟩ := decode_toWire fit
  rw [decoded, DecodedMsg.view, tagged, wireField, ofTag_tag]
  dsimp only
  rw [viewed]
  decide

end BridgeMsg

end SmoArchipelago.Bridge
