import SmoArchipelago.Bridge.Wire
import SmoArchipelago.Switch.ReplayLine

/-! # The dedupe set after a replay

A save load resets the Switch's dedupe set, and the next HELLO makes the bridge replay the
checks that it recorded. A recorded check keeps the raw identifiers that the Switch sent, but
its replay carries the resolved fields only, which a live check leaves empty.

## Implementation notes

How the text of a field arrives at the bridge is a parameter: the line that carries it is not
embedded. The message struct may hold any lines that came before. -/

namespace SmoArchipelago.Bridge

open Library JsonText Switch Switch.Outbound

/-- A check that a Switch reports live. -/
inductive LiveReport where
  | moon (stageName objectId : List UInt8) (shineUid seq : ℤ)
  | capture (hackName : List UInt8)

def LiveReport.check : LiveReport → Switch.Check
  | .moon stageName objectId shineUid seq => moonCheck stageName objectId shineUid seq
  | .capture hackName => captureCheck hackName

/-- A text field as it is recorded; an empty one is not sent. -/
def sentText {cap : ℕ} (text : List UInt8 → String) (s : CStr cap) : Option String :=
  if s.isEmpty then none else some (text s.bytes)

/-- What `_dispatch_check` records of a check. -/
def recordedRef (text : List UInt8 → String) (c : Switch.Check) : ItemRef where
  kind := c.kind.toWire
  kingdom := sentText text c.kingdom
  shineId := sentText text c.shineId
  cap := sentText text c.cap
  stageName := sentText text c.stageName
  objectId := sentText text c.objectId
  shineUid := if 0 ≤ c.shineUid then some c.shineUid else none
  hackName := sentText text c.hackName

/-- The bridge after it recorded the reports. -/
def recorded (text : List UInt8 → String) (live : List LiveReport) : BridgeState :=
  (live.map fun r => recordedRef text r.check).foldl BridgeState.addCheckedLocation {}

/-- The `checked_replay` message of a replay on its way; one that raises is not sent. -/
def replayChecked (b : BridgeState) (m : ApProtocol.DecodedMsg) (s : Outbound.State) :
    ApProtocol.DecodedMsg × Outbound.State :=
  match (encode (.checkedReplay b.checkedLocations)).bind popLine with
  | some line => handleLine line m s
  | none => (m, s)

/-- The message struct after any lines; those of replays come from recorded reports. -/
inductive Reached (text : List UInt8 → String) : ApProtocol.DecodedMsg → Prop
  | start : Reached text default
  | replay (live : List LiveReport) (m : ApProtocol.DecodedMsg) (s : Outbound.State) :
      Reached text m → Reached text (replayChecked (recorded text live) m s).1
  | other (line : List UInt8) (m : ApProtocol.DecodedMsg) :
      Reached text m → (ApProtocol.decode line m).2.checkedReplay = m.checkedReplay →
        Reached text (ApProtocol.decode line m).2

/-- After a save load and a replay the set holds the reported checks and no others. -/
def Rebuilds (text : List UInt8 → String) (live : List LiveReport) (m : ApProtocol.DecodedMsg)
    (s : Outbound.State) : Prop :=
  ∀ k, k ∈ (replayChecked (recorded text live) m (saveLoad s)).2.locationsChecked.keys ↔
    ∃ r ∈ live, k = dedupeKey r.check

/-- The kind that the Switch reads of an entry. -/
def readKind (ref : ItemRef) : ApProtocol.ItemKind :=
  .fromWire (CStr.ofBytes (Json.ascii ref.kind) : CStr 32)

/-- The kinds of the entries that the Switch keeps. -/
def replayedKinds (text : List UInt8 → String) (live : List LiveReport) :
    List ApProtocol.ItemKind :=
  ((recorded text live).checkedLocations.map readKind).take 128

/-- A check that carries its kind alone. -/
def blankCheck (kind : ApProtocol.ItemKind) : Switch.Check := { (default : Switch.Check) with kind }

/-- The reports have the keys of blank checks, those of the kinds that are replayed. -/
structure BlankOnly (text : List UInt8 → String) (live : List LiveReport) : Prop where
  short : (WireMsg.checkedReplay (recorded text live).checkedLocations).lineSize < kInboundLineCap
  blank : ∀ r ∈ live, ∃ kind ∈ replayedKinds text live,
    dedupeKey r.check = dedupeKey (blankCheck kind)
  replayed : ∀ kind ∈ replayedKinds text live, ∃ r ∈ live,
    dedupeKey r.check = dedupeKey (blankCheck kind)

/-! ## The line -/

open ApProtocol (bytes_commas elementsText kindText replayLine separator)

theorem elementsText_map {α κ : Type} (text : κ → List UInt8) (f : α → κ) (xs : List α)
    (comma : Bool) : elementsText text comma (xs.map f) = elementsText (text ∘ f) comma xs := by
  induction xs generalizing comma with
  | nil => rfl
  | cons x xs ih => rw [List.map_cons, elementsText, elementsText, ih, Function.comp_apply]

theorem elementsText_congr {κ : Type} {text text' : κ → List UInt8} {ks : List κ}
    (same : ∀ k ∈ ks, text k = text' k) (comma : Bool) :
    elementsText text comma ks = elementsText text' comma ks := by
  induction ks generalizing comma with
  | nil => rfl
  | cons k ks ih =>
      rw [elementsText, elementsText, same k List.mem_cons_self,
        ih fun k' member => same k' (List.mem_cons_of_mem k member)]

/-- The replay of the entry carries its kind alone. -/
def KindOnly (ref : ItemRef) : Prop :=
  ref.toReplayDict = [("kind", quoted (readKind ref).toWire)]

theorem bytes_kindObject (kind : ApProtocol.ItemKind) :
    bytes (object [("kind", quoted kind.toWire)]) = kindText kind := by
  cases kind <;> decide

theorem bytes_checkedReplay {refs : List ItemRef} (raw : ∀ ref ∈ refs, KindOnly ref) :
    bytes (WireMsg.checkedReplay refs).toWire = replayLine (refs.map readKind) := by
  have shape : (WireMsg.checkedReplay refs).toWire =
      ('{' :: member ("t", quoted "checked_replay")) ++ ((',' :: (quoted "ids" ++ [':'])) ++
        (['['] ++ (commas (refs.map fun ref => object ref.toReplayDict) ++ [']', '}']))) := by
    simp [WireMsg.toWire, tagged, object, commas, member, array]
  have tag : bytes ('{' :: member ("t", quoted "checked_replay")) =
      Json.ascii "\x7b\"t\":\"checked_replay\"" := by decide
  have name : bytes (',' :: (quoted "ids" ++ [':'])) = Json.ascii ",\"ids\":" := by decide
  have start : bytes ['['] = [0x5b] := by decide
  have stop : bytes [']', '}'] = [0x5d, 0x7d] := by decide
  have each : ∀ ref ∈ refs, bytes (object ref.toReplayDict) = (kindText ∘ readKind) ref := by
    intro ref member
    rw [Function.comp_apply, raw ref member, bytes_kindObject]
  rw [shape, bytes_append, bytes_append, bytes_append, bytes_append, tag, name, start, stop,
    bytes_commas, elementsText_congr each, ← elementsText_map, ← List.append_assoc]
  rfl

theorem newline_not_mem (kinds : List ApProtocol.ItemKind) : (0x0a : UInt8) ∉ replayLine kinds := by
  have texts (kind : ApProtocol.ItemKind) : (0x0a : UInt8) ∉ kindText kind := by
    cases kind <;> decide
  have elements (comma : Bool) : (0x0a : UInt8) ∉ elementsText kindText comma kinds := by
    induction kinds generalizing comma with
    | nil => exact List.not_mem_nil
    | cons kind kinds ih =>
        have comma_only : (0x0a : UInt8) ∉ separator comma := by cases comma <;> decide
        simp [elementsText, comma_only, texts, ih]
  have tag : (0x0a : UInt8) ∉ Json.ascii "\x7b\"t\":\"checked_replay\",\"ids\":" := by decide
  simp [replayLine, tag, elements]

theorem popLine_append {line : List UInt8} (text : (0x0a : UInt8) ∉ line) :
    popLine (line ++ [0x0a]) = if line.length < kInboundLineCap then some line else none := by
  have cut : (line ++ [0x0a]).takeWhile (· != 0x0a) = line := by
    rw [List.takeWhile_append_of_pos]
    · exact List.append_nil line
    · intro b member
      exact bne_iff_ne.2 fun same => text (same ▸ member)
  rw [popLine, cut]

/-- The line arrives as it was printed, or not at all. -/
theorem popLine_encode {refs : List ItemRef} (raw : ∀ ref ∈ refs, KindOnly ref) :
    (encode (.checkedReplay refs)).bind popLine =
      if (WireMsg.checkedReplay refs).lineSize < kInboundLineCap then
        some (replayLine (refs.map readKind))
      else none := by
  have length : (replayLine (refs.map readKind)).length =
      (WireMsg.checkedReplay refs).lineSize := by
    rw [← bytes_checkedReplay raw, length_bytes, size_toWire]
  have popped := popLine_append (newline_not_mem (refs.map readKind))
  rw [length] at popped
  rw [encode, size_toWire, bytes_checkedReplay raw]
  by_cases short : (WireMsg.checkedReplay refs).lineSize < kInboundLineCap
  · rw [if_pos (show _ ≤ maxLineBytes from short.le), Option.bind_some, popped]
  · split_ifs
    · rw [Option.bind_some, popped, if_neg short]
    · rfl

/-! ## What the bridge records -/

theorem mem_checkedLocations (refs : List ItemRef) (b : BridgeState) :
    ∀ ref ∈ (refs.foldl BridgeState.addCheckedLocation b).checkedLocations,
      ref ∈ b.checkedLocations ∨ ref ∈ refs := by
  induction refs generalizing b with
  | nil => exact fun ref member => .inl member
  | cons first refs ih =>
      intro ref member
      cases ih (b.addCheckedLocation first) ref member with
      | inr later => exact .inr (List.mem_cons_of_mem first later)
      | inl here =>
          rw [BridgeState.addCheckedLocation] at here
          by_cases old : BridgeState.checkKey first ∈ b.checkedKeys
          · rw [if_pos old] at here
            exact .inl here
          · rw [if_neg old] at here
            cases List.mem_append.1 here with
            | inl before => exact .inl before
            | inr new => exact .inr (List.mem_singleton.1 new ▸ List.mem_cons_self)

theorem readKind_recordedRef (text : List UInt8 → String) (c : Switch.Check) :
    readKind (recordedRef text c) = c.kind := by
  have read (kind : ApProtocol.ItemKind) :
      ApProtocol.ItemKind.fromWire (CStr.ofBytes (Json.ascii kind.toWire) : CStr 32) = kind := by
    cases kind <;> decide
  exact read c.kind

theorem kindOnly_recordedRef (text : List UInt8 → String) (r : LiveReport) :
    KindOnly (recordedRef text r.check) := by
  rw [KindOnly, readKind_recordedRef]
  cases r <;> rfl

theorem kindOnly_recorded (text : List UInt8 → String) (live : List LiveReport) :
    ∀ ref ∈ (recorded text live).checkedLocations, KindOnly ref := by
  intro ref member
  cases mem_checkedLocations _ _ ref member with
  | inl before => exact absurd before List.not_mem_nil
  | inr here =>
      obtain ⟨r, -, rfl⟩ := List.mem_map.1 here
      exact kindOnly_recordedRef text r

/-! ## The set after the replay -/

theorem handleLine_replayLine (kinds : List ApProtocol.ItemKind) {m : ApProtocol.DecodedMsg}
    (blank : m.checkedReplay.Blank) (s : Outbound.State) :
    (handleLine (replayLine kinds) m s).1.checkedReplay = m.checkedReplay.readKinds kinds ∧
      (handleLine (replayLine kinds) m s).2 =
        ((kinds.take 128).map ApProtocol.blankRef).foldl replayId s := by
  have tag : (CStr.ofBytes (Json.ascii "checked_replay") : CStr ApProtocol.kCheckFieldCap).bytes =
      Json.ascii "checked_replay" := by decide
  rw [handleLine, ApProtocol.decode_replayLine]
  dsimp only
  rw [if_pos ⟨rfl, tag⟩, ApProtocol.CheckedReplay.live_readKinds blank]
  exact ⟨rfl, rfl⟩

theorem Reached.blank {text : List UInt8 → String} {m : ApProtocol.DecodedMsg}
    (reached : Reached text m) : m.checkedReplay.Blank := by
  induction reached with
  | start => exact ApProtocol.CheckedReplay.blank_default
  | replay live m s _ ih =>
      rw [replayChecked, popLine_encode (kindOnly_recorded text live)]
      split_ifs
      · dsimp only
        rw [(handleLine_replayLine _ ih s).1]
        exact ih.readKinds _
      · exact ih
  | other line m _ same ih => exact same ▸ ih

/-- The set after a save load and a replay: the keys of the blank checks, if the line arrives. -/
theorem mem_rebuilt {text : List UInt8 → String} {m : ApProtocol.DecodedMsg}
    (reached : Reached text m) (live : List LiveReport) (s : Outbound.State) (k : UInt64) :
    k ∈ (replayChecked (recorded text live) m (saveLoad s)).2.locationsChecked.keys ↔
      (WireMsg.checkedReplay (recorded text live).checkedLocations).lineSize < kInboundLineCap ∧
        ∃ kind ∈ replayedKinds text live, k = dedupeKey (blankCheck kind) := by
  have empty : (saveLoad s).locationsChecked.keys = [] := ProbeTable.keys_reset
  have size : (saveLoad s).locationsChecked.size = 0 := by
    rw [ProbeTable.size_eq, empty]
    rfl
  rw [replayChecked, popLine_encode (kindOnly_recorded text live)]
  split_ifs with short
  · have few : (replayedKinds text live).length ≤ 128 := List.length_take_le _ _
    have added := mem_replayIds ((replayedKinds text live).map ApProtocol.blankRef) (saveLoad s)
      (by rw [size, List.length_map]; omega) k
    dsimp only
    rw [(handleLine_replayLine _ reached.blank _).2]
    change k ∈ (((replayedKinds text live).map ApProtocol.blankRef).foldl replayId
      (saveLoad s)).locationsChecked.keys ↔ _
    rw [added, empty]
    simp only [List.not_mem_nil, false_or, true_and, short, List.mem_map, exists_exists_and_eq_and]
    rfl
  · dsimp only
    rw [empty]
    exact iff_of_false List.not_mem_nil fun h => short h.1

/-- The replay rebuilds the set exactly when the reported checks are, by their keys, blank. -/
theorem rebuilds_iff_blankOnly {text : List UInt8 → String} {m : ApProtocol.DecodedMsg}
    (reached : Reached text m) (live : List LiveReport) (s : Outbound.State) :
    Rebuilds text live m s ↔ BlankOnly text live := by
  have rebuilt := mem_rebuilt reached live s
  constructor
  · intro same
    have short : (WireMsg.checkedReplay (recorded text live).checkedLocations).lineSize <
        kInboundLineCap := by
      cases live with
      | nil => exact (by decide : (WireMsg.checkedReplay []).lineSize < kInboundLineCap)
      | cons r live => exact ((rebuilt _).1 ((same _).2 ⟨r, List.mem_cons_self, rfl⟩)).1
    refine ⟨short, fun r member => ?_, fun kind member => ?_⟩
    · exact ((rebuilt _).1 ((same _).2 ⟨r, member, rfl⟩)).2
    · obtain ⟨r, reported, key⟩ := (same _).1 ((rebuilt _).2 ⟨short, kind, member, rfl⟩)
      exact ⟨r, reported, key.symm⟩
  · intro only k
    rw [rebuilt]
    constructor
    · rintro ⟨-, kind, member, rfl⟩
      obtain ⟨r, reported, key⟩ := only.replayed kind member
      exact ⟨r, reported, key.symm⟩
    · rintro ⟨r, reported, rfl⟩
      exact ⟨only.short, only.blank r reported⟩

/-- A moon with the identifiers that the game gives it. -/
def capMoon : LiveReport := .moon (Json.ascii "CapWorldHomeStage") (Json.ascii "obj214") 100 1

/-- The text of ASCII bytes. -/
def asciiText (bs : List UInt8) : String := String.ofList (bs.map fun b => Char.ofNat b.toNat)

theorem rebuilds_iff_blankOnly_capMoon :
    Rebuilds asciiText [capMoon] default Outbound.start ↔ BlankOnly asciiText [capMoon] :=
  rebuilds_iff_blankOnly .start [capMoon] Outbound.start

theorem capMoon_not_blank (kind : ApProtocol.ItemKind) :
    dedupeKey capMoon.check ≠ dedupeKey (blankCheck kind) := by
  cases kind <;> decide +kernel

/-- After a reload the moon is not in the set, so it is sent again. -/
theorem capMoon_lost :
    dedupeKey capMoon.check ∉ (replayChecked (recorded asciiText [capMoon]) default
      (saveLoad Outbound.start)).2.locationsChecked.keys ∧
    ¬ Rebuilds asciiText [capMoon] default Outbound.start := by
  have lost : dedupeKey capMoon.check ∉ (replayChecked (recorded asciiText [capMoon]) default
      (saveLoad Outbound.start)).2.locationsChecked.keys := by
    rw [mem_rebuilt .start]
    rintro ⟨-, kind, -, same⟩
    exact capMoon_not_blank kind same
  exact ⟨lost, fun same => lost ((same _).2 ⟨capMoon, List.mem_singleton_self capMoon, rfl⟩)⟩

end SmoArchipelago.Bridge
