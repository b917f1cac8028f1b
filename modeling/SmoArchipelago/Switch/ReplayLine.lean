import SmoArchipelago.Library.JsonText
import SmoArchipelago.Switch.Outbound

/-! # Reading back a replay line

A compact writer prints no blanks, one comma between two elements of an array and none after
the last. The reader gets back from such an array what was printed, element by element, so a
`checked_replay` line of kinds is read back as these kinds and puts the hashes of their blank
checks into the dedupe set.

## Implementation notes

The slots of the message are read in place, so an entry keeps the fields that its object does
not carry. A slot is blank while only kinds were ever read into it. -/

namespace SmoArchipelago.Switch.ApProtocol

open Library.FieldLoop Library.JsonText Json

section Elements

variable {σ κ : Type}

/-- The comma that stands before every element but the first. -/
def separator (comma : Bool) : List UInt8 := if comma then [0x2c] else []

/-- Elements as they are printed, after others if `comma` is set. -/
def elementsText (text : κ → List UInt8) : Bool → List κ → List UInt8
  | _, [] => []
  | comma, k :: ks => separator comma ++ (text k ++ elementsText text true ks)

theorem elementsText_true (text : κ → List UInt8) (k : κ) (ks : List κ) :
    elementsText text true (k :: ks) = 0x2c :: elementsText text false (k :: ks) := rfl

/-- Printed elements are separated as a compact writer separates them. -/
theorem bytes_commas (text : κ → List Char) (ks : List κ) :
    bytes (commas (ks.map text)) = elementsText (fun k => bytes (text k)) false ks := by
  induction ks with
  | nil => rfl
  | cons k ks ih =>
      cases ks with
      | nil => exact (List.append_nil _).symm
      | cons k' ks =>
          have split : bytes (commas ((k :: k' :: ks).map text)) =
              bytes (text k) ++ 0x2c :: bytes (commas ((k' :: ks).map text)) := by
            rw [List.map_cons, List.map_cons, commas, bytes_append]
            · rfl
            · exact List.cons_ne_nil _ _
          rw [split, ih, ← elementsText_true]
          rfl

/-- The element is recognised and read from its text, whatever follows. -/
structure ReadsBack (element : Element Reader.size σ) (text : κ → List UInt8) (store : κ → σ → σ)
    (fs : List Frame) : Prop where
  more : ∀ k comma rest, Reader.hasMoreInArray
    ⟨separator comma ++ (text k ++ rest), ⟨false, comma⟩ :: fs, false⟩ = true
  act : ∀ k comma rest s,
    element.act ⟨separator comma ++ (text k ++ rest), ⟨false, comma⟩ :: fs, false⟩ s =
      (true, ⟨rest, ⟨false, true⟩ :: fs, false⟩, store k s)

variable {element : Element Reader.size σ} {text : κ → List UInt8} {store : κ → σ → σ}
  {fs : List Frame}

/-- The loop reads the elements up to the closing bracket. -/
theorem ReadsBack.loop_eq (reads : ReadsBack element text store fs) (ks : List κ) (comma : Bool)
    (rest : List UInt8) (s : σ) {n : ℕ}
    (fuel : Reader.size ⟨elementsText text comma ks ++ 0x5d :: rest, ⟨false, comma⟩ :: fs, false⟩ < n) :
    loop (arrayBody Reader.hasMoreInArray element) n
        ⟨elementsText text comma ks ++ 0x5d :: rest, ⟨false, comma⟩ :: fs, false⟩ s =
      (true, ⟨0x5d :: rest, ⟨false, comma || !ks.isEmpty⟩ :: fs, false⟩,
        ks.foldl (fun s k => store k s) s) := by
  obtain ⟨n, rfl⟩ : ∃ m, n = m + 1 := ⟨n - 1, by omega⟩
  induction ks generalizing comma s n with
  | nil =>
      have closed : (arrayBody Reader.hasMoreInArray element).turn
          ⟨0x5d :: rest, ⟨false, comma⟩ :: fs, false⟩ s =
            (.stop true, ⟨0x5d :: rest, ⟨false, comma⟩ :: fs, false⟩, s) := rfl
      rw [elementsText, List.nil_append, loop_stop n (congrArg Prod.fst closed), closed,
        List.isEmpty_nil, Bool.not_true, Bool.or_false, List.foldl_nil]
  | cons k ks ih =>
      have here := reads.act k comma (elementsText text true ks ++ 0x5d :: rest) s
      have turn : (arrayBody Reader.hasMoreInArray element).turn
          ⟨elementsText text comma (k :: ks) ++ 0x5d :: rest, ⟨false, comma⟩ :: fs, false⟩ s =
            (.again, ⟨elementsText text true ks ++ 0x5d :: rest, ⟨false, true⟩ :: fs, false⟩,
              store k s) := by
        rw [elementsText, List.append_assoc, List.append_assoc]
        simp only [arrayBody, reads.more, if_true, here]
      have less := (arrayBody Reader.hasMoreInArray element).progress _ s (congrArg Prod.fst turn)
      rw [turn] at less
      have shorter := less.trans_le (Nat.lt_succ_iff.1 fuel)
      obtain ⟨m, rfl⟩ : ∃ m, n = m + 1 := ⟨n - 1, by omega⟩
      rw [loop_again _ (congrArg Prod.fst turn), turn, ih true (store k s) m shorter]
      simp

/-- The array is read back element by element. -/
theorem ReadsBack.readArray_eq {needsComma : Bool}
    (reads : ReadsBack element text store (⟨true, needsComma⟩ :: fs))
    (depth : fs.length + 1 < kMaxDepth) (ks : List κ) (rest : List UInt8) (s : σ) :
    readArray element
        ⟨0x5b :: (elementsText text false ks ++ 0x5d :: rest), ⟨true, needsComma⟩ :: fs, false⟩ s =
      (true, ⟨rest, ⟨true, needsComma⟩ :: fs, false⟩, ks.foldl (fun s k => store k s) s) := by
  have opened : Reader.enterArray
      ⟨0x5b :: (elementsText text false ks ++ 0x5d :: rest), ⟨true, needsComma⟩ :: fs, false⟩ =
        (true, ⟨elementsText text false ks ++ 0x5d :: rest,
          ⟨false, false⟩ :: ⟨true, needsComma⟩ :: fs, false⟩) := by
    change (if fs.length + 1 ≥ kMaxDepth then _ else _) = _
    rw [if_neg (Nat.not_le.2 depth)]
  rw [readArray, opened, if_pos rfl]
  dsimp only
  rw [reads.loop_eq ks false rest s (Nat.lt_add_one _), if_pos rfl]
  rfl

end Elements

/-! ## A list of kinds -/

def ItemKind.toWire : ItemKind → String
  | .moon => "moon"
  | .capture => "capture"
  | .other => "other"

/-- The object of a check that carries its kind alone. -/
def kindText : ItemKind → List UInt8
  | .moon => ascii "\x7b\"kind\":\"moon\"\x7d"
  | .capture => ascii "\x7b\"kind\":\"capture\"\x7d"
  | .other => ascii "\x7b\"kind\":\"other\"\x7d"

/-- A kind is read in place; past the last slot it is dropped. -/
def CheckedReplay.storeKind (kind : ItemKind) (s : CheckedReplay) : CheckedReplay :=
  if room : s.ids.count < 128 then
    { s with ids := s.ids.push { s.ids.slots[s.ids.count] with kind := kind } room }
  else { s with truncated := true }

/-- The line of a replay of kinds, without its newline. -/
def replayLine (kinds : List ItemKind) : List UInt8 :=
  ascii "\x7b\"t\":\"checked_replay\",\"ids\":" ++
    0x5b :: (elementsText kindText false kinds ++ [0x5d, 0x7d])

theorem parseItemRefBody_kind (kind : ItemKind) (rest : List UInt8) (fs : List Frame)
    (ref : ItemRef) :
    parseItemRefBody ⟨(kindText kind).tail ++ rest, ⟨true, false⟩ :: fs, false⟩ ref =
      (true, ⟨0x7d :: rest, ⟨true, true⟩ :: fs, false⟩, { ref with kind := kind }) := by
  cases kind <;> rfl

theorem inObject_readId (kind : ItemKind) (rest : List UInt8) (fs : List Frame)
    (comma : Bool) (depth : fs.length + 1 < kMaxDepth) (s : CheckedReplay) :
    inObject CheckedReplay.readId
        ⟨separator comma ++ (kindText kind ++ rest), ⟨false, comma⟩ :: fs, false⟩ s =
      (true, ⟨rest, ⟨false, true⟩ :: fs, false⟩, CheckedReplay.storeKind kind s) := by
  have opened : Reader.enterObject
      ⟨separator comma ++ (kindText kind ++ rest), ⟨false, comma⟩ :: fs, false⟩ =
        (true, ⟨(kindText kind).tail ++ rest, ⟨true, false⟩ :: ⟨false, comma⟩ :: fs, false⟩) := by
    cases kind <;> cases comma <;>
      exact (if_neg (Nat.not_le.2 depth) : (if fs.length + 1 ≥ kMaxDepth then _ else _) = _)
  rw [inObject, opened, if_pos rfl, CheckedReplay.readId, CheckedReplay.storeKind]
  split_ifs with room
  · simp only [parseItemRefBody_kind, if_true]
    rfl
  · simp only [parseItemRefBody_kind, if_true, Bool.or_true]
    rfl

theorem readId_readsBack {fs : List Frame} (depth : fs.length + 1 < kMaxDepth) :
    ReadsBack (objectElement CheckedReplay.readId CheckedReplay.size_readId) kindText
      CheckedReplay.storeKind fs where
  more kind comma rest := by
    cases kind <;> cases comma <;> rfl
  act kind comma rest s := inObject_readId kind rest fs comma depth s

/-- The message after a line of kinds was read into it. -/
def CheckedReplay.readKinds (s : CheckedReplay) (kinds : List ItemKind) : CheckedReplay :=
  kinds.foldl (fun s kind => s.storeKind kind) { s with ids := s.ids.clear, truncated := false }

theorem parseCheckedReplay_kinds (kinds : List ItemKind) (s : CheckedReplay) :
    parseCheckedReplay
        ⟨ascii ",\"ids\":" ++ 0x5b :: (elementsText kindText false kinds ++ [0x5d, 0x7d]),
          [⟨true, true⟩], false⟩ s =
      (true, ⟨[0x7d], [⟨true, true⟩], false⟩, s.readKinds kinds) := by
  let element := objectElement CheckedReplay.readId CheckedReplay.size_readId
  let body := fieldBody Reader.fieldKeys [arrayHandler "ids" element]
  let cleared : CheckedReplay := { s with ids := s.ids.clear, truncated := false }
  let line : Reader :=
    ⟨ascii ",\"ids\":" ++ 0x5b :: (elementsText kindText false kinds ++ [0x5d, 0x7d]),
      [⟨true, true⟩], false⟩
  let last : Reader := ⟨[0x7d], [⟨true, true⟩], false⟩
  let list : Reader :=
    ⟨0x5b :: (elementsText kindText false kinds ++ [0x5d, 0x7d]), [⟨true, true⟩], false⟩
  have ids : readArray element list cleared = (true, last, s.readKinds kinds) :=
    (readId_readsBack (by decide)).readArray_eq (by decide) kinds [0x7d] cleared
  have first : body.turn line cleared = (.again, last, s.readKinds kinds) := by
    change (if (readArray element list cleared).1 then _ else _, (readArray element list cleared).2) = _
    rw [ids]
    rfl
  have second : body.turn last (s.readKinds kinds) = (.stop true, last, s.readKinds kinds) := rfl
  obtain ⟨n, size⟩ : ∃ n, line.size = n + 1 := ⟨_, rfl⟩
  change loop body (line.size + 1) line cleared = _
  rw [size, loop_again _ (congrArg Prod.fst first), first, loop_stop n (congrArg Prod.fst second),
    second]

/-- A line of kinds is decoded into these kinds. -/
theorem decode_replayLine (kinds : List ItemKind) (m : DecodedMsg) :
    decode (replayLine kinds) m =
      (true, { m with
        t := CStr.ofBytes (ascii "checked_replay")
        checkedReplay := m.checkedReplay.readKinds kinds }) := by
  have tag : decodeTag (replayLine kinds) =
      some (CStr.ofBytes (ascii "checked_replay"),
        ⟨ascii ",\"ids\":" ++ 0x5b :: (elementsText kindText false kinds ++ [0x5d, 0x7d]),
          [⟨true, true⟩], false⟩) := rfl
  have type : MsgType.ofTag (CStr.ofBytes (ascii "checked_replay")) = some .checkedReplay := by
    decide
  rw [decode, tag]
  dsimp only
  rw [type]
  dsimp only
  rw [DecodedMsg.parse, parseCheckedReplay_kinds]
  rfl

/-! ## The slots of the message -/

/-- An entry that carries its kind alone. -/
def blankRef (kind : ItemKind) : ItemRef := { (default : ItemRef) with kind := kind }

/-- No slot holds a text. -/
def CheckedReplay.Blank (s : CheckedReplay) : Prop :=
  ∀ (i : ℕ) (h : i < 128), s.ids.slots[i] = blankRef s.ids.slots[i].kind

theorem CheckedReplay.blank_default : (default : CheckedReplay).Blank := by
  intro i h
  change (Vector.replicate 128 (default : ItemRef))[i] =
    blankRef (Vector.replicate 128 (default : ItemRef))[i].kind
  rw [Vector.getElem_replicate]
  rfl

theorem CheckedReplay.Blank.entry {s : CheckedReplay} (blank : s.Blank) (kind : ItemKind)
    (room : s.ids.count < 128) :
    { s.ids.slots[s.ids.count] with kind := kind } = blankRef kind := by
  rw [blank s.ids.count room]
  rfl

theorem CheckedReplay.Blank.storeKind {s : CheckedReplay} (blank : s.Blank) (kind : ItemKind) :
    (s.storeKind kind).Blank := by
  rw [CheckedReplay.storeKind]
  split_ifs with room
  · rw [blank.entry kind room]
    intro i h
    by_cases here : s.ids.count = i
    · subst here
      simp only [Filled.push, Vector.getElem_set_self]
      rfl
    · simp only [Filled.push, Vector.getElem_set_ne _ _ here]
      exact blank i h
  · exact blank

theorem CheckedReplay.Blank.foldl {s : CheckedReplay} (blank : s.Blank) (kinds : List ItemKind) :
    (kinds.foldl (fun s kind => s.storeKind kind) s).Blank := by
  induction kinds generalizing s with
  | nil => exact blank
  | cons kind kinds ih => exact ih (blank.storeKind kind)

theorem CheckedReplay.Blank.readKinds {s : CheckedReplay} (blank : s.Blank)
    (kinds : List ItemKind) : (s.readKinds kinds).Blank :=
  CheckedReplay.Blank.foldl (s := { s with ids := s.ids.clear, truncated := false }) blank kinds

/-- The entries in use are those of the first kinds, as many as there are slots. -/
theorem CheckedReplay.live_foldl {s : CheckedReplay} (blank : s.Blank) (kinds : List ItemKind) :
    (kinds.foldl (fun s kind => s.storeKind kind) s).ids.live =
      (s.ids.live ++ kinds.map blankRef).take 128 := by
  induction kinds generalizing s with
  | nil =>
      have few : s.ids.live.length ≤ 128 := (Filled.length_live s.ids).trans_le s.ids.count_le
      rw [List.foldl_nil, List.map_nil, List.append_nil, List.take_of_length_le few]
  | cons kind kinds ih =>
      rw [List.foldl_cons, ih (blank.storeKind kind), CheckedReplay.storeKind]
      split_ifs with room
      · rw [blank.entry kind room, Filled.live_push, List.append_assoc]
        rfl
      · have full : s.ids.live.length = 128 :=
          (Filled.length_live s.ids).trans (le_antisymm s.ids.count_le (Nat.not_lt.1 room))
        rw [List.take_left' full, List.take_left' full]

theorem CheckedReplay.live_readKinds {s : CheckedReplay} (blank : s.Blank)
    (kinds : List ItemKind) :
    (s.readKinds kinds).ids.live = (kinds.take 128).map blankRef := by
  have live := CheckedReplay.live_foldl
    (s := { s with ids := s.ids.clear, truncated := false }) blank kinds
  rw [CheckedReplay.readKinds, live, Filled.live_clear, List.nil_append, List.map_take]

end SmoArchipelago.Switch.ApProtocol

namespace SmoArchipelago.Switch.Outbound

open Library ApProtocol

def kInboundLineCap : ℕ := 8 * 1024

/-- The text before the newline, if both fit the read buffer. -/
def popLine (sent : List UInt8) : Option (List UInt8) :=
  let line := sent.takeWhile (· != 0x0a)
  if line.length < kInboundLineCap then some line else none

/-- `handleLine` as far as it touches the dedupe set. -/
def handleLine (line : List UInt8) (m : DecodedMsg) (s : State) : DecodedMsg × State :=
  let read := decode line m
  (read.2,
    if read.1 ∧ read.2.t.bytes = Json.ascii "checked_replay" then
      read.2.checkedReplay.ids.live.foldl replayId s
    else s)

/-- A save load resets the set. -/
def saveLoad (s : State) : State := { s with locationsChecked := ProbeTable.reset }

/-- The key under which a check is in the set. -/
def dedupeKey (c : Check) : UInt64 := FlatHashSet.stored (hashCheck c)

theorem mem_tryInsert {t : FlatHashSet 4096} (room : t.size < 4096) (h k : UInt64) :
    k ∈ (FlatHashSet.tryInsert t h).2.keys ↔ k ∈ t.keys ∨ k = FlatHashSet.stored h := by
  rw [keys_tryInsert, tryInsert_accepts]
  constructor
  · exact Or.imp_right And.right
  · rintro (old | rfl)
    · exact .inl old
    · by_cases old : FlatHashSet.stored h ∈ t.keys
      · exact .inl old
      · exact .inr ⟨⟨old, room⟩, rfl⟩

theorem size_tryInsert (t : FlatHashSet 4096) (h : UInt64) :
    (FlatHashSet.tryInsert t h).2.size ≤ t.size + 1 := by
  cases accepted : (FlatHashSet.tryInsert t h).1 with
  | true =>
      have longer := (ProbeTable.keys_tryInsert accepted).length_eq
      rw [List.length_cons, ← ProbeTable.size_eq, ← ProbeTable.size_eq] at longer
      exact longer.le
  | false =>
      have same : (FlatHashSet.tryInsert t h).2 = t := ProbeTable.tryInsert_refused accepted
      rw [same]
      exact Nat.le_succ _

/-- With room for all of them, replayed ids add exactly their keys. -/
theorem mem_replayIds (ids : List ItemRef) (s : State)
    (room : s.locationsChecked.size + ids.length ≤ 4096) (k : UInt64) :
    k ∈ (ids.foldl replayId s).locationsChecked.keys ↔
      k ∈ s.locationsChecked.keys ∨ ∃ ref ∈ ids, k = dedupeKey (replayCheck ref) := by
  induction ids generalizing s with
  | nil => simp
  | cons ref ids ih =>
      have grown := size_tryInsert s.locationsChecked (hashCheck (replayCheck ref))
      have one := mem_tryInsert (t := s.locationsChecked)
        (by rw [List.length_cons] at room; omega) (hashCheck (replayCheck ref)) k
      have rest := ih (replayId s ref) (by
        rw [List.length_cons] at room
        change (FlatHashSet.tryInsert s.locationsChecked (hashCheck (replayCheck ref))).2.size + _ ≤ _
        omega)
      rw [List.foldl_cons, rest]
      change k ∈ (FlatHashSet.tryInsert s.locationsChecked (hashCheck (replayCheck ref))).2.keys ∨ _ ↔ _
      rw [one, or_assoc, List.exists_mem_cons_iff]
      rfl

end SmoArchipelago.Switch.Outbound
