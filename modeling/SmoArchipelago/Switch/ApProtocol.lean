import SmoArchipelago.Switch.FixedBuffers
import SmoArchipelago.Switch.Json

/-! # Inbound messages of the Switch module

The message structs the bridge's lines are decoded into, and the decoder. One
`DecodedMsg` holds a struct for every message type; `decode` reads the tag and
fills the struct of that type.

## Implementation notes

The structs hold only what the decoder writes. A struct whose parser resets it
keeps its array slots, so `Filled` keeps them too. -/

namespace SmoArchipelago.Switch.ApProtocol

open Library.FieldLoop Json

abbrev kCheckFieldCap : ℕ := 64
abbrev kMediumFieldCap : ℕ := 128
abbrev kLongFieldCap : ℕ := 256
abbrev kPrintFieldCap : ℕ := 512

inductive ItemKind where
  | moon
  | capture
  | other
  deriving DecidableEq

/-- `fromWire`: unknown kinds are `other`. -/
def ItemKind.fromWire {cap : ℕ} (s : CStr cap) : ItemKind :=
  if s.bytes = ascii "moon" then .moon
  else if s.bytes = ascii "capture" then .capture
  else .other

/-! ## Value readers -/

/-- Read a string into a fixed field. -/
def readIntoField (cap : ℕ) [NeZero cap] : StrictScanner Reader.size (CStr cap) :=
  Reader.string.map CStr.ofBytes

/-- Read an integer into an `int`. -/
def readIntoInt : Scanner Reader.size ℤ := Reader.int.map Reader.toInt32

/-- Read a kind through a 32-byte buffer. -/
def readKindField : Scanner Reader.size ItemKind :=
  (readIntoField 32).toScanner.map ItemKind.fromWire

/-- A record field under its wire key. -/
def field {σ α : Type} (key : String) (value : Scanner Reader.size α) (get : σ → α)
    (set : α → σ → σ) : Field Reader.size (List UInt8) σ :=
  ⟨ascii key, α, value, get, set⟩

abbrev Table (σ : Type) := FieldTable Reader.size (List UInt8) σ

/-- `while (r.nextField(key))` over a table. -/
def parseFields {σ : Type} (table : Table σ) (r : Reader) (out : σ) : Bool × Reader × σ :=
  table.parse Reader.fieldKeys (r.size + 1) r out

/-- `while (r.nextField(key))` over handlers. -/
def parseHandlers {σ : Type*} (handlers : List (Handler Reader.size (List UInt8) σ)) (r : Reader)
    (out : σ) : Bool × Reader × σ :=
  loop (fieldBody Reader.fieldKeys handlers) (r.size + 1) r out

/-- An array value read element by element. -/
def readArray {σ : Type*} (element : Element Reader.size σ) (r : Reader) (out : σ) :
    Bool × Reader × σ :=
  if r.enterArray.1 then
    let read := loop (arrayBody Reader.hasMoreInArray element) (r.enterArray.2.size + 1)
      r.enterArray.2 out
    if read.1 then (read.2.1.exitArray.1, read.2.1.exitArray.2, read.2.2) else read
  else (false, r.enterArray.2, out)

theorem size_readArray {σ : Type*} (element : Element Reader.size σ) (r : Reader) (out : σ) :
    (readArray element r out).2.1.size ≤ r.size := by
  have enter := Reader.size_enterArray r
  have body := loop_shrinks (arrayBody Reader.hasMoreInArray element)
    (r.enterArray.2.size + 1) r.enterArray.2 out
  have exit := Reader.size_exitArray (loop (arrayBody Reader.hasMoreInArray element)
    (r.enterArray.2.size + 1) r.enterArray.2 out).2.1
  simp only [readArray]
  by_cases opened : r.enterArray.1 = true
  · rw [if_pos opened]
    split_ifs
    · exact exit.trans (body.trans enter)
    · exact body.trans enter
  · rw [if_neg opened]
    exact enter

/-- The handler of a key whose value is an array. -/
def arrayHandler {σ : Type*} (key : String) (element : Element Reader.size σ) :
    Handler Reader.size (List UInt8) σ :=
  ⟨ascii key, readArray element, size_readArray element⟩

/-- An object read into a fresh entry. -/
def readEntry {α : Type} (table : Table α) (init : α) (r : Reader) : Option α × Reader :=
  if r.enterObject.1 then
    let read := parseFields table r.enterObject.2 init
    if read.1 then
      (if read.2.1.exitObject.1 then some read.2.2 else none, read.2.1.exitObject.2)
    else (none, read.2.1)
  else (none, r.enterObject.2)

theorem size_parseFields {σ : Type} (table : Table σ) (r : Reader) (out : σ) :
    (parseFields table r out).2.1.size ≤ r.size :=
  loop_shrinks _ _ r out

theorem size_readEntry {α : Type} (table : Table α) (init : α) (r : Reader) :
    (readEntry table init r).2.size ≤ r.size ∧
      ((readEntry table init r).1.isSome → (readEntry table init r).2.size < r.size) := by
  have enter := Reader.size_enterObject r
  have body := size_parseFields table r.enterObject.2 init
  have exit := Reader.size_exitObject (parseFields table r.enterObject.2 init).2.1
  simp only [readEntry]
  by_cases opened : r.enterObject.1 = true
  · have less := enter.2 opened
    rw [if_pos opened]
    split_ifs
    · exact ⟨exit.trans (body.trans enter.1), fun _ => (exit.trans body).trans_lt less⟩
    · exact ⟨exit.trans (body.trans enter.1), fun h => absurd h Bool.false_ne_true⟩
    · exact ⟨body.trans enter.1, fun h => absurd h Bool.false_ne_true⟩
  · rw [if_neg opened]
    exact ⟨enter.1, fun h => absurd h Bool.false_ne_true⟩

/-- The entries of an array of objects. -/
def entryScanner {α : Type} (table : Table α) (init : α) : StrictScanner Reader.size α where
  scan := readEntry table init
  shrinks r := (size_readEntry table init r).1
  progress r a h := (size_readEntry table init r).2 (by rw [h]; rfl)

/-! ## Message structs -/

structure HelloAck where
  ok : Bool
  seed : CStr kCheckFieldCap
  slot : CStr kCheckFieldCap
  capTableHash : CStr kCheckFieldCap
  deathlinkEnabled : Bool
  clientVer : CStr kCheckFieldCap
  err : CStr kLongFieldCap
  deriving DecidableEq

instance : Inhabited HelloAck := ⟨⟨false, default, default, default, false, default, default⟩⟩

structure ItemRef where
  kind : ItemKind
  kingdom : CStr kCheckFieldCap
  shineId : CStr kMediumFieldCap
  cap : CStr kCheckFieldCap
  name : CStr kMediumFieldCap
  classification : CStr kCheckFieldCap
  deriving DecidableEq

instance : Inhabited ItemRef := ⟨⟨.other, default, default, default, default, default⟩⟩

structure CheckedReplay where
  ids : Filled ItemRef 128
  truncated : Bool

instance : Inhabited CheckedReplay := ⟨⟨Filled.fill default, false⟩⟩

structure Item where
  kind : ItemKind
  kingdom : CStr kCheckFieldCap
  shineId : CStr kMediumFieldCap
  cap : CStr kCheckFieldCap
  name : CStr kMediumFieldCap
  «from» : CStr kCheckFieldCap
  hackName : CStr kCheckFieldCap
  classification : CStr kCheckFieldCap
  deriving DecidableEq

instance : Inhabited Item :=
  ⟨⟨.other, default, default, default, default, default, default, default⟩⟩

structure Print where
  text : CStr kPrintFieldCap
  deriving DecidableEq, Inhabited

structure ApStateMsg where
  conn : CStr kCheckFieldCap
  deriving DecidableEq, Inhabited

structure Pong where
  tsMs : ℤ
  deriving DecidableEq, Inhabited

structure Err where
  code : CStr kCheckFieldCap
  ctx : CStr kMediumFieldCap
  deriving DecidableEq, Inhabited

structure Kill where
  source : CStr kCheckFieldCap
  cause : CStr kLongFieldCap
  deriving DecidableEq, Inhabited

structure MoonLabel where
  text : CStr kCheckFieldCap
  seq : ℤ
  validForMs : ℤ
  deriving DecidableEq

instance : Inhabited MoonLabel := ⟨⟨default, 0, 4000⟩⟩

structure Cappy where
  text : CStr kMediumFieldCap
  deriving DecidableEq, Inhabited

structure ShineScout where
  shineUid : ℤ
  palette : ℤ
  deriving DecidableEq

instance : Inhabited ShineScout := ⟨⟨-1, 0⟩⟩

structure ShineScouts where
  entries : Filled ShineScout 256
  truncated : Bool

instance : Inhabited ShineScouts := ⟨⟨Filled.fill default, false⟩⟩

structure OutstandingEntry where
  kingdom : CStr kCheckFieldCap
  count : ℤ
  deriving DecidableEq, Inhabited

structure Outstanding where
  entries : Filled OutstandingEntry 17

instance : Inhabited Outstanding := ⟨⟨Filled.fill default⟩⟩

structure KingdomGateEntry where
  kingdom : CStr kCheckFieldCap
  gate : ℤ
  deriving DecidableEq

instance : Inhabited KingdomGateEntry := ⟨⟨default, -1⟩⟩

structure KingdomGates where
  entries : Filled KingdomGateEntry 17

instance : Inhabited KingdomGates := ⟨⟨Filled.fill default⟩⟩

structure TalkatooPool where
  enabled : Bool
  kingdom : CStr kCheckFieldCap
  moons : Filled (CStr kCheckFieldCap) 96
  truncated : Bool

instance : Inhabited TalkatooPool := ⟨⟨true, default, Filled.fill default, false⟩⟩

structure ShopLabelEntry where
  fileName : CStr kCheckFieldCap
  key : CStr kCheckFieldCap
  label : CStr 64
  deriving DecidableEq, Inhabited

structure ShopLabels where
  entries : Filled ShopLabelEntry 32
  truncated : Bool

instance : Inhabited ShopLabels := ⟨⟨Filled.fill default, false⟩⟩

structure CoinGrant where
  total : ℤ
  deriving DecidableEq, Inhabited

structure AbilityEntry where
  ability : CStr kCheckFieldCap
  count : ℤ
  deriving DecidableEq, Inhabited

structure AbilityState where
  entries : Filled AbilityEntry 32
  truncated : Bool
  enforce : Bool

instance : Inhabited AbilityState := ⟨⟨Filled.fill default, false, true⟩⟩

structure EntranceRemapEntry where
  «from» : CStr kCheckFieldCap
  toStage : CStr kCheckFieldCap
  toId : CStr kCheckFieldCap
  isExit : Bool
  deriving DecidableEq, Inhabited

structure EntranceMap where
  entries : Filled EntranceRemapEntry 64
  reset : Bool
  truncated : Bool

instance : Inhabited EntranceMap := ⟨⟨Filled.fill default, false, false⟩⟩

/-! ## Field tables -/

/-- `strcmp(kind, "exit") == 0` on a field-sized buffer. -/
def readExitField : Scanner Reader.size Bool :=
  (readIntoField kCheckFieldCap).toScanner.map fun s => decide (s.bytes = ascii "exit")

def helloAckTable : Table HelloAck where
  fields :=
    [field "ok" Reader.bool (·.ok) fun v s => { s with ok := v },
      field "seed" (readIntoField _).toScanner (·.seed) fun v s => { s with seed := v },
      field "slot" (readIntoField _).toScanner (·.slot) fun v s => { s with slot := v },
      field "cap_table_hash" (readIntoField _).toScanner (·.capTableHash) fun v s =>
        { s with capTableHash := v },
      field "deathlink_enabled" Reader.bool (·.deathlinkEnabled) fun v s =>
        { s with deathlinkEnabled := v },
      field "client_ver" (readIntoField _).toScanner (·.clientVer) fun v s =>
        { s with clientVer := v },
      field "err" (readIntoField _).toScanner (·.err) fun v s => { s with err := v }]
  keys_nodup := by decide
  get_set := by simp [field]
  apart := by simp [Field.Apart, field]
  ext := by
    rintro ⟨⟩ ⟨⟩ same
    simpa [field] using same

def itemRefTable : Table ItemRef where
  fields :=
    [field "kind" readKindField (·.kind) fun v s => { s with kind := v },
      field "kingdom" (readIntoField _).toScanner (·.kingdom) fun v s => { s with kingdom := v },
      field "shine_id" (readIntoField _).toScanner (·.shineId) fun v s => { s with shineId := v },
      field "cap" (readIntoField _).toScanner (·.cap) fun v s => { s with cap := v },
      field "name" (readIntoField _).toScanner (·.name) fun v s => { s with name := v },
      field "classification" (readIntoField _).toScanner (·.classification) fun v s =>
        { s with classification := v }]
  keys_nodup := by decide
  get_set := by simp [field]
  apart := by simp [Field.Apart, field]
  ext := by
    rintro ⟨⟩ ⟨⟩ same
    simpa [field] using same

def itemTable : Table Item where
  fields :=
    [field "kind" readKindField (·.kind) fun v s => { s with kind := v },
      field "kingdom" (readIntoField _).toScanner (·.kingdom) fun v s => { s with kingdom := v },
      field "shine_id" (readIntoField _).toScanner (·.shineId) fun v s => { s with shineId := v },
      field "cap" (readIntoField _).toScanner (·.cap) fun v s => { s with cap := v },
      field "name" (readIntoField _).toScanner (·.name) fun v s => { s with name := v },
      field "from" (readIntoField _).toScanner (·.from) fun v s => { s with «from» := v },
      field "hack_name" (readIntoField _).toScanner (·.hackName) fun v s =>
        { s with hackName := v },
      field "classification" (readIntoField _).toScanner (·.classification) fun v s =>
        { s with classification := v }]
  keys_nodup := by decide
  get_set := by simp [field]
  apart := by simp [Field.Apart, field]
  ext := by
    rintro ⟨⟩ ⟨⟩ same
    simpa [field] using same

def printTable : Table Print where
  fields :=
    [field "text" (readIntoField _).toScanner (·.text) fun v s => { s with text := v }]
  keys_nodup := by decide
  get_set := by simp [field]
  apart := by simp [Field.Apart, field]
  ext := by
    rintro ⟨⟩ ⟨⟩ same
    simpa [field] using same

def apStateTable : Table ApStateMsg where
  fields :=
    [field "conn" (readIntoField _).toScanner (·.conn) fun v s => { s with conn := v }]
  keys_nodup := by decide
  get_set := by simp [field]
  apart := by simp [Field.Apart, field]
  ext := by
    rintro ⟨⟩ ⟨⟩ same
    simpa [field] using same

def pongTable : Table Pong where
  fields :=
    [field "ts_ms" Reader.int (·.tsMs) fun v s => { s with tsMs := v }]
  keys_nodup := by decide
  get_set := by simp [field]
  apart := by simp [Field.Apart, field]
  ext := by
    rintro ⟨⟩ ⟨⟩ same
    simpa [field] using same

def errTable : Table Err where
  fields :=
    [field "code" (readIntoField _).toScanner (·.code) fun v s => { s with code := v },
      field "ctx" (readIntoField _).toScanner (·.ctx) fun v s => { s with ctx := v }]
  keys_nodup := by decide
  get_set := by simp [field]
  apart := by simp [Field.Apart, field]
  ext := by
    rintro ⟨⟩ ⟨⟩ same
    simpa [field] using same

def killTable : Table Kill where
  fields :=
    [field "source" (readIntoField _).toScanner (·.source) fun v s => { s with source := v },
      field "cause" (readIntoField _).toScanner (·.cause) fun v s => { s with cause := v }]
  keys_nodup := by decide
  get_set := by simp [field]
  apart := by simp [Field.Apart, field]
  ext := by
    rintro ⟨⟩ ⟨⟩ same
    simpa [field] using same

def moonLabelTable : Table MoonLabel where
  fields :=
    [field "text" (readIntoField _).toScanner (·.text) fun v s => { s with text := v },
      field "seq" readIntoInt (·.seq) fun v s => { s with seq := v },
      field "valid_for_ms" readIntoInt (·.validForMs) fun v s => { s with validForMs := v }]
  keys_nodup := by decide
  get_set := by simp [field]
  apart := by simp [Field.Apart, field]
  ext := by
    rintro ⟨⟩ ⟨⟩ same
    simpa [field] using same

def cappyTable : Table Cappy where
  fields :=
    [field "text" (readIntoField _).toScanner (·.text) fun v s => { s with text := v }]
  keys_nodup := by decide
  get_set := by simp [field]
  apart := by simp [Field.Apart, field]
  ext := by
    rintro ⟨⟩ ⟨⟩ same
    simpa [field] using same

def coinGrantTable : Table CoinGrant where
  fields :=
    [field "total" readIntoInt (·.total) fun v s => { s with total := v }]
  keys_nodup := by decide
  get_set := by simp [field]
  apart := by simp [Field.Apart, field]
  ext := by
    rintro ⟨⟩ ⟨⟩ same
    simpa [field] using same

def shineScoutTable : Table ShineScout where
  fields :=
    [field "shine_uid" readIntoInt (·.shineUid) fun v s => { s with shineUid := v },
      field "palette" readIntoInt (·.palette) fun v s => { s with palette := v }]
  keys_nodup := by decide
  get_set := by simp [field]
  apart := by simp [Field.Apart, field]
  ext := by
    rintro ⟨⟩ ⟨⟩ same
    simpa [field] using same

def outstandingEntryTable : Table OutstandingEntry where
  fields :=
    [field "kingdom" (readIntoField _).toScanner (·.kingdom) fun v s => { s with kingdom := v },
      field "count" readIntoInt (·.count) fun v s => { s with count := v }]
  keys_nodup := by decide
  get_set := by simp [field]
  apart := by simp [Field.Apart, field]
  ext := by
    rintro ⟨⟩ ⟨⟩ same
    simpa [field] using same

def kingdomGateTable : Table KingdomGateEntry where
  fields :=
    [field "kingdom" (readIntoField _).toScanner (·.kingdom) fun v s => { s with kingdom := v },
      field "gate" readIntoInt (·.gate) fun v s => { s with gate := v }]
  keys_nodup := by decide
  get_set := by simp [field]
  apart := by simp [Field.Apart, field]
  ext := by
    rintro ⟨⟩ ⟨⟩ same
    simpa [field] using same

def shopLabelTable : Table ShopLabelEntry where
  fields :=
    [field "file" (readIntoField _).toScanner (·.fileName) fun v s => { s with fileName := v },
      field "key" (readIntoField _).toScanner (·.key) fun v s => { s with key := v },
      field "label" (readIntoField _).toScanner (·.label) fun v s => { s with label := v }]
  keys_nodup := by decide
  get_set := by simp [field]
  apart := by simp [Field.Apart, field]
  ext := by
    rintro ⟨⟩ ⟨⟩ same
    simpa [field] using same

def abilityTable : Table AbilityEntry where
  fields :=
    [field "ability" (readIntoField _).toScanner (·.ability) fun v s => { s with ability := v },
      field "count" readIntoInt (·.count) fun v s => { s with count := v }]
  keys_nodup := by decide
  get_set := by simp [field]
  apart := by simp [Field.Apart, field]
  ext := by
    rintro ⟨⟩ ⟨⟩ same
    simpa [field] using same

def entranceTable : Table EntranceRemapEntry where
  fields :=
    [field "from" (readIntoField _).toScanner (·.from) fun v s => { s with «from» := v },
      field "to_stage" (readIntoField _).toScanner (·.toStage) fun v s => { s with toStage := v },
      field "to_id" (readIntoField _).toScanner (·.toId) fun v s => { s with toId := v },
      field "kind" readExitField (·.isExit) fun v s => { s with isExit := v }]
  keys_nodup := by decide
  get_set := by simp [field]
  apart := by simp [Field.Apart, field]
  ext := by
    rintro ⟨⟩ ⟨⟩ same
    simpa [field] using same

/-! ## Parsers -/

def parseHelloAck : Reader → HelloAck → Bool × Reader × HelloAck := parseFields helloAckTable

def parseItemRefBody : Reader → ItemRef → Bool × Reader × ItemRef := parseFields itemRefTable

def parseItem : Reader → Item → Bool × Reader × Item := parseFields itemTable

def parsePrint : Reader → Print → Bool × Reader × Print := parseFields printTable

def parseApStateMsg : Reader → ApStateMsg → Bool × Reader × ApStateMsg := parseFields apStateTable

def parsePong : Reader → Pong → Bool × Reader × Pong := parseFields pongTable

def parseErr : Reader → Err → Bool × Reader × Err := parseFields errTable

def parseKill : Reader → Kill → Bool × Reader × Kill := parseFields killTable

def parseMoonLabel : Reader → MoonLabel → Bool × Reader × MoonLabel := parseFields moonLabelTable

def parseCappy : Reader → Cappy → Bool × Reader × Cappy := parseFields cappyTable

def parseCoinGrant : Reader → CoinGrant → Bool × Reader × CoinGrant := parseFields coinGrantTable

/-- One object of `ids`, read in place; past the last slot it is read and dropped. -/
def CheckedReplay.readId (r : Reader) (s : CheckedReplay) : Bool × Reader × CheckedReplay :=
  if room : s.ids.count < 128 then
    let read := parseItemRefBody r s.ids.slots[s.ids.count]
    (read.1, read.2.1,
      { s with ids := if read.1 then s.ids.push read.2.2 room else s.ids.writeNext read.2.2 room })
  else
    let read := parseItemRefBody r default
    (read.1, read.2.1, { s with truncated := s.truncated || read.1 })

/-- An object around a body. -/
def inObject {σ : Type*} (body : Reader → σ → Bool × Reader × σ) (r : Reader) (s : σ) :
    Bool × Reader × σ :=
  if r.enterObject.1 then
    let read := body r.enterObject.2 s
    if read.1 then (read.2.1.exitObject.1, read.2.1.exitObject.2, read.2.2) else read
  else (false, r.enterObject.2, s)

/-- An array element that is an object read in place. -/
def objectElement {σ : Type*} (body : Reader → σ → Bool × Reader × σ)
    (shrinks : ∀ r s, (body r s).2.1.size ≤ r.size) : Element Reader.size σ where
  act := inObject body
  shrinks r s := by
    have enter := (Reader.size_enterObject r).1
    have inner := shrinks r.enterObject.2 s
    have exit := Reader.size_exitObject (body r.enterObject.2 s).2.1
    simp only [inObject]
    split_ifs
    · exact exit.trans (inner.trans enter)
    · exact inner.trans enter
    · exact enter
  progress r s ok := by
    have inner := shrinks r.enterObject.2 s
    have exit := Reader.size_exitObject (body r.enterObject.2 s).2.1
    simp only [inObject] at ok ⊢
    by_cases opened : r.enterObject.1 = true
    · have less := (Reader.size_enterObject r).2 opened
      rw [if_pos opened] at ok ⊢
      split_ifs
      · exact (exit.trans inner).trans_lt less
      · exact inner.trans_lt less
    · rw [if_neg opened] at ok
      cases ok

theorem CheckedReplay.size_readId (r : Reader) (s : CheckedReplay) :
    (readId r s).2.1.size ≤ r.size := by
  unfold readId
  split_ifs
  · exact size_parseFields itemRefTable r _
  · exact size_parseFields itemRefTable r default

def parseCheckedReplay (r : Reader) (out : CheckedReplay) : Bool × Reader × CheckedReplay :=
  parseHandlers
    [arrayHandler "ids" (objectElement CheckedReplay.readId CheckedReplay.size_readId)] r
    { out with ids := out.ids.clear, truncated := false }

def ShineScouts.store (sc : ShineScout) (s : ShineScouts) : ShineScouts :=
  { entries := (s.entries.add sc).1, truncated := s.truncated || (s.entries.add sc).2 }

def parseShineScouts (r : Reader) (out : ShineScouts) : Bool × Reader × ShineScouts :=
  parseHandlers
    [arrayHandler "entries" ((entryScanner shineScoutTable default).element ShineScouts.store)] r
    { entries := out.entries.clear, truncated := false }

/-- An integer that is read and dropped. -/
def discardHandler {σ : Type} (key : String) : Handler Reader.size (List UInt8) σ where
  key := ascii key
  act r s := ((readIntoInt.scan r).1.isSome, (readIntoInt.scan r).2, s)
  shrinks r _ := readIntoInt.shrinks r

/-- Past the last slot an entry is dropped. -/
def Outstanding.store (entry : OutstandingEntry) (s : Outstanding) : Outstanding :=
  { entries := (s.entries.add entry).1 }

def parseOutstanding (r : Reader) (out : Outstanding) : Bool × Reader × Outstanding :=
  parseHandlers
    [arrayHandler "entries"
        ((entryScanner outstandingEntryTable default).element Outstanding.store),
      discardHandler "lake_received_total", discardHandler "snow_received_total"] r
    { entries := out.entries.clear }

def KingdomGates.store (entry : KingdomGateEntry) (s : KingdomGates) : KingdomGates :=
  { entries := (s.entries.add entry).1 }

def parseKingdomGates (r : Reader) (out : KingdomGates) : Bool × Reader × KingdomGates :=
  parseHandlers
    [arrayHandler "entries" ((entryScanner kingdomGateTable default).element KingdomGates.store)] r
    { entries := out.entries.clear }

def EntranceMap.store (entry : EntranceRemapEntry) (s : EntranceMap) : EntranceMap :=
  { s with
    entries := (s.entries.add entry).1
    truncated := s.truncated || (s.entries.add entry).2 }

def parseEntranceMap (r : Reader) (out : EntranceMap) : Bool × Reader × EntranceMap :=
  parseHandlers
    [(field "reset" Reader.bool EntranceMap.reset fun v s => { s with reset := v }).handler,
      arrayHandler "entries" ((entryScanner entranceTable default).element EntranceMap.store)] r
    { entries := out.entries.clear, reset := false, truncated := false }

def TalkatooPool.store (moon : CStr kCheckFieldCap) (s : TalkatooPool) : TalkatooPool :=
  { s with
    moons := (s.moons.add moon).1
    truncated := s.truncated || (s.moons.add moon).2 }

def parseTalkatooPool (r : Reader) (out : TalkatooPool) : Bool × Reader × TalkatooPool :=
  parseHandlers
    [(field "enabled" Reader.bool TalkatooPool.enabled fun v s => { s with enabled := v }).handler,
      (field "kingdom" (readIntoField _).toScanner TalkatooPool.kingdom fun v s =>
        { s with kingdom := v }).handler,
      arrayHandler "moons" ((readIntoField _).element TalkatooPool.store)] r
    { enabled := true, kingdom := default, moons := out.moons.clear, truncated := false }

def ShopLabels.store (entry : ShopLabelEntry) (s : ShopLabels) : ShopLabels :=
  { entries := (s.entries.add entry).1, truncated := s.truncated || (s.entries.add entry).2 }

def parseShopLabels (r : Reader) (out : ShopLabels) : Bool × Reader × ShopLabels :=
  parseHandlers
    [arrayHandler "entries" ((entryScanner shopLabelTable default).element ShopLabels.store)] r
    { entries := out.entries.clear, truncated := false }

def AbilityState.store (entry : AbilityEntry) (s : AbilityState) : AbilityState :=
  { s with
    entries := (s.entries.add entry).1
    truncated := s.truncated || (s.entries.add entry).2 }

def parseAbilityState (r : Reader) (out : AbilityState) : Bool × Reader × AbilityState :=
  parseHandlers
    [(field "enforce" Reader.bool AbilityState.enforce fun v s => { s with enforce := v }).handler,
      arrayHandler "entries" ((entryScanner abilityTable default).element AbilityState.store)] r
    { entries := out.entries.clear, truncated := false, enforce := true }

/-! ## Decoder -/

inductive MsgType where
  | helloAck | checkedReplay | item | print | apState | pong | err | kill | moonLabel
  | cappy | shineScouts | outstanding | kingdomGates | talkatooPool | shopLabels | coinGrant
  | abilityState | entranceMap
  deriving DecidableEq

/-- The tags of the message types, in the order the decoder tries them. -/
def MsgType.tags : List (String × MsgType) :=
  [("hello_ack", .helloAck), ("checked_replay", .checkedReplay), ("item", .item),
    ("print", .print), ("ap_state", .apState), ("pong", .pong), ("err", .err), ("kill", .kill),
    ("moon_label", .moonLabel), ("cappy", .cappy), ("shine_scouts", .shineScouts),
    ("outstanding", .outstanding), ("kingdom_gates", .kingdomGates),
    ("talkatoo_pool", .talkatooPool), ("shop_labels", .shopLabels), ("coin_grant", .coinGrant),
    ("ability_state", .abilityState), ("entrance_map", .entranceMap)]

/-- The message type of a tag, if it is known. -/
def MsgType.ofTag (t : CStr kCheckFieldCap) : Option MsgType :=
  (tags.find? fun p => t.bytes = ascii p.1).map Prod.snd

/-- The message struct `decode` fills: a tag and one struct a type. -/
structure DecodedMsg where
  t : CStr kCheckFieldCap
  helloAck : HelloAck
  checkedReplay : CheckedReplay
  item : Item
  print : Print
  apState : ApStateMsg
  pong : Pong
  err : Err
  kill : Kill
  moonLabel : MoonLabel
  cappy : Cappy
  shineScouts : ShineScouts
  outstanding : Outstanding
  kingdomGates : KingdomGates
  talkatooPool : TalkatooPool
  shopLabels : ShopLabels
  coinGrant : CoinGrant
  abilityState : AbilityState
  entranceMap : EntranceMap
  deriving Inhabited

/-- Put the parsed struct back into the message. -/
def putBack {σ : Type} (put : σ → DecodedMsg) (p : Bool × Reader × σ) : Bool × Reader × DecodedMsg :=
  (p.1, p.2.1, put p.2.2)

/-- Parse the fields of a message of the given type into its struct. -/
def DecodedMsg.parse (m : DecodedMsg) (r : Reader) : MsgType → Bool × Reader × DecodedMsg
  | .helloAck => putBack (fun v => { m with helloAck := v }) (parseHelloAck r m.helloAck)
  | .checkedReplay =>
      putBack (fun v => { m with checkedReplay := v }) (parseCheckedReplay r m.checkedReplay)
  | .item => putBack (fun v => { m with item := v }) (parseItem r m.item)
  | .print => putBack (fun v => { m with print := v }) (parsePrint r m.print)
  | .apState => putBack (fun v => { m with apState := v }) (parseApStateMsg r m.apState)
  | .pong => putBack (fun v => { m with pong := v }) (parsePong r m.pong)
  | .err => putBack (fun v => { m with err := v }) (parseErr r m.err)
  | .kill => putBack (fun v => { m with kill := v }) (parseKill r m.kill)
  | .moonLabel => putBack (fun v => { m with moonLabel := v }) (parseMoonLabel r m.moonLabel)
  | .cappy => putBack (fun v => { m with cappy := v }) (parseCappy r m.cappy)
  | .shineScouts =>
      putBack (fun v => { m with shineScouts := v }) (parseShineScouts r m.shineScouts)
  | .outstanding =>
      putBack (fun v => { m with outstanding := v }) (parseOutstanding r m.outstanding)
  | .kingdomGates =>
      putBack (fun v => { m with kingdomGates := v }) (parseKingdomGates r m.kingdomGates)
  | .talkatooPool =>
      putBack (fun v => { m with talkatooPool := v }) (parseTalkatooPool r m.talkatooPool)
  | .shopLabels => putBack (fun v => { m with shopLabels := v }) (parseShopLabels r m.shopLabels)
  | .coinGrant => putBack (fun v => { m with coinGrant := v }) (parseCoinGrant r m.coinGrant)
  | .abilityState =>
      putBack (fun v => { m with abilityState := v }) (parseAbilityState r m.abilityState)
  | .entranceMap =>
      putBack (fun v => { m with entranceMap := v }) (parseEntranceMap r m.entranceMap)

/-- The first field must be the tag; what follows is the message body. -/
def decodeTag (line : List UInt8) : Option (CStr kCheckFieldCap × Reader) :=
  if line.isEmpty then none
  else
    match (Reader.ofLine line).enterObject with
    | (false, _) => none
    | (true, r) =>
        match r.nextField with
        | (none, _) => none
        | (some key, r) =>
            if key = ascii "t" then
              match (readIntoField kCheckFieldCap).scan r with
              | (none, _) => none
              | (some t, r) => some (t, r)
            else none

/-- Decode a line into the message struct. An unknown type is accepted as it is. -/
def decode (line : List UInt8) (out : DecodedMsg) : Bool × DecodedMsg :=
  match decodeTag line with
  | none => (false, out)
  | some (t, r) =>
      match MsgType.ofTag t with
      | none => (true, { out with t := t })
      | some type =>
          let parsed := DecodedMsg.parse { out with t := t } r type
          (parsed.1 && parsed.2.1.exitObject.1, parsed.2.2)

end SmoArchipelago.Switch.ApProtocol
