import SmoArchipelago.Switch.ApProtocol

/-! # What the decoded message owes to earlier lines

`handleLine` decodes every line into one static message. The struct it then reads
is compared with the one the same line gives in a fresh message.

## Implementation notes

Parsers that do not reset their struct are overlays, so a field is stale exactly
when the line does not carry it and an earlier line left a value there. Parsers
that reset are related by what is read of their structs; the slots of `ids` are
reused, so each carries its own overlay. -/

namespace SmoArchipelago.Switch.ApProtocol

open Library.FieldLoop Json

/-- What `handleLine` reads of a decoded message. -/
inductive View where
  | helloAck (v : HelloAck)
  | checkedReplay (ids : List ItemRef) (truncated : Bool)
  | item (v : Item)
  | print (v : Print)
  | apState (v : ApStateMsg)
  | pong (v : Pong)
  | err (v : Err)
  | kill (v : Kill)
  | moonLabel (v : MoonLabel)
  | cappy (v : Cappy)
  | shineScouts (entries : List ShineScout) (truncated : Bool)
  | outstanding (entries : List OutstandingEntry)
  | kingdomGates (entries : List KingdomGateEntry)
  | talkatooPool (enabled : Bool) (kingdom : CStr kCheckFieldCap)
      (moons : List (CStr kCheckFieldCap)) (truncated : Bool)
  | shopLabels (entries : List ShopLabelEntry) (truncated : Bool)
  | coinGrant (v : CoinGrant)
  | abilityState (entries : List AbilityEntry) (truncated enforce : Bool)
  | entranceMap (entries : List EntranceRemapEntry) (reset truncated : Bool)
  | unknown
  deriving DecidableEq

namespace DecodedMsg

/-- The struct of a message type, arrays up to their count. -/
def viewAs (m : DecodedMsg) : MsgType → View
  | .helloAck => .helloAck m.helloAck
  | .checkedReplay => .checkedReplay m.checkedReplay.ids.live m.checkedReplay.truncated
  | .item => .item m.item
  | .print => .print m.print
  | .apState => .apState m.apState
  | .pong => .pong m.pong
  | .err => .err m.err
  | .kill => .kill m.kill
  | .moonLabel => .moonLabel m.moonLabel
  | .cappy => .cappy m.cappy
  | .shineScouts => .shineScouts m.shineScouts.entries.live m.shineScouts.truncated
  | .outstanding => .outstanding m.outstanding.entries.live
  | .kingdomGates => .kingdomGates m.kingdomGates.entries.live
  | .talkatooPool => .talkatooPool m.talkatooPool.enabled m.talkatooPool.kingdom
      m.talkatooPool.moons.live m.talkatooPool.truncated
  | .shopLabels => .shopLabels m.shopLabels.entries.live m.shopLabels.truncated
  | .coinGrant => .coinGrant m.coinGrant
  | .abilityState => .abilityState m.abilityState.entries.live m.abilityState.truncated
      m.abilityState.enforce
  | .entranceMap => .entranceMap m.entranceMap.entries.live m.entranceMap.reset
      m.entranceMap.truncated

/-- The struct `handleLine` dispatches to by the tag. -/
def view (m : DecodedMsg) : View :=
  match MsgType.ofTag m.t with
  | none => .unknown
  | some type => m.viewAs type

end DecodedMsg

/-! ## Parsers that overlay their struct -/

/-- The fields a message body carries for a table. -/
def carried {σ : Type} (table : Table σ) (r : Reader) :
    List (Assignment Reader.size (List UInt8) σ) :=
  (table.assignments Reader.fieldKeys (r.size + 1) r).2.2

/-- Every field that is not carried holds its default. -/
def Fresh {σ : Type} [Inhabited σ] (table : Table σ)
    (as : List (Assignment Reader.size (List UInt8) σ)) (s : σ) : Prop :=
  ∀ f ∈ table.fields, ¬ FieldTable.Carries as f.key → f.get s = f.get default

/-- A parse overlays the carried fields on the struct. -/
theorem parseFields_overlay {σ : Type} (table : Table σ) (r : Reader) (s : σ) :
    (parseFields table r s).1 = (table.assignments Reader.fieldKeys (r.size + 1) r).1 ∧
      (parseFields table r s).2.1 = (table.assignments Reader.fieldKeys (r.size + 1) r).2.1 ∧
      ((parseFields table r s).1 = true →
        (parseFields table r s).2.2 = applyAll (carried table r) s ∧
          table.Within (carried table r)) :=
  table.parse_overlay Reader.fieldKeys (r.size + 1) r s

/-- Equal overlays: the struct is fresh where nothing is carried. -/
theorem overlay_fresh_iff {σ : Type} [Inhabited σ] (table : Table σ)
    {as : List (Assignment Reader.size (List UInt8) σ)} (within : table.Within as) (s : σ) :
    applyAll as s = applyAll as default ↔ Fresh table as s :=
  FieldTable.applyAll_eq_iff within s default

/-- Parsing into any struct and into a fresh one. -/
theorem parseFields_fresh {σ : Type} [Inhabited σ] (table : Table σ) (r : Reader) (s : σ) :
    (parseFields table r s).1 = (parseFields table r default).1 ∧
      (parseFields table r s).2.1 = (parseFields table r default).2.1 ∧
      ((parseFields table r s).1 = true →
        ((parseFields table r s).2.2 = (parseFields table r default).2.2 ↔
          Fresh table (carried table r) s)) := by
  obtain ⟨ok, rest, out⟩ := parseFields_overlay table r s
  obtain ⟨ok', rest', out'⟩ := parseFields_overlay table r default
  refine ⟨ok.trans ok'.symm, rest.trans rest'.symm, fun success => ?_⟩
  obtain ⟨overlay, within⟩ := out success
  rw [overlay, (out' (ok'.trans (ok.symm.trans success))).1]
  exact overlay_fresh_iff table within s

/-! ## Parsers that reset their struct -/

/-- A parse whose verdict, rest and output relate to another's. -/
abbrev Parses {σ τ : Type*} (R : σ → τ → Prop) (x : Bool × Reader × σ) (y : Bool × Reader × τ) :
    Prop :=
  Agree (· = true) R x y

theorem parseHandlers_agree {σ τ : Type*} {R : σ → τ → Prop}
    {hs : List (Handler Reader.size (List UInt8) σ)}
    {hs' : List (Handler Reader.size (List UInt8) τ)}
    (all : List.Forall₂ (HandlersAgree R) hs hs') (r : Reader) {s : σ} {t : τ} (start : R s t) :
    Parses R (parseHandlers hs r s) (parseHandlers hs' r t) :=
  fieldLoop_agree Reader.fieldKeys all (r.size + 1) r start

/-- Arrays whose elements agree are read alike. -/
theorem arrayHandler_agree {σ τ : Type*} {R : σ → τ → Prop} (key : String)
    {x : Element Reader.size σ} {y : Element Reader.size τ}
    (elements : ∀ r s t, R s t → Parses R (x.act r s) (y.act r t)) :
    HandlersAgree R (arrayHandler key x) (arrayHandler key y) := by
  refine ⟨rfl, fun r s t start => ?_⟩
  simp only [arrayHandler, readArray]
  by_cases opened : r.enterArray.1 = true
  · rw [if_pos opened, if_pos opened]
    obtain ⟨ok, rest, kept⟩ := arrayLoop_agree Reader.hasMoreInArray elements
      (r.enterArray.2.size + 1) r.enterArray.2 start
    rw [← ok]
    split_ifs with done
    · exact ⟨by rw [rest], by rw [rest], fun _ => kept done⟩
    · exact ⟨ok, rest, fun success => absurd success done⟩
  · rw [if_neg opened, if_neg opened]
    exact ⟨rfl, rfl, fun h => absurd h Bool.false_ne_true⟩

theorem entries_agree {σ α : Type} {R : σ → σ → Prop} (key : String)
    (x : StrictScanner Reader.size α) {store : α → σ → σ}
    (keep : ∀ a s t, R s t → R (store a s) (store a t)) :
    HandlersAgree R (arrayHandler key (x.element store)) (arrayHandler key (x.element store)) :=
  arrayHandler_agree key (element_agree x keep)

/-- Writing the same value to a field of related structs. -/
theorem field_agree {σ : Type} {R : σ → σ → Prop} (f : Field Reader.size (List UInt8) σ)
    (keep : ∀ v s t, R s t → R (f.set v s) (f.set v t)) : HandlersAgree R f.handler f.handler := by
  refine ⟨rfl, fun r s t start => ?_⟩
  simp only [Field.handler, Field.act]
  rcases f.value.scan r with ⟨_ | v, r'⟩
  · exact ⟨rfl, rfl, fun _ => start⟩
  · exact ⟨rfl, rfl, fun _ => keep v s t start⟩

theorem discard_agree {σ : Type} {R : σ → σ → Prop} (key : String) :
    HandlersAgree R (discardHandler key) (discardHandler key) :=
  ⟨rfl, fun _ _ _ start => ⟨rfl, rfl, fun _ => start⟩⟩

theorem parseShineScouts_agree (r : Reader) (s t : ShineScouts) :
    Parses (fun s t => s.entries.live = t.entries.live ∧ s.truncated = t.truncated)
      (parseShineScouts r s) (parseShineScouts r t) := by
  refine parseHandlers_agree (.cons (entries_agree _ _ ?_) .nil) r ⟨rfl, rfl⟩
  rintro a s t ⟨live, truncated⟩
  obtain ⟨live', overflow⟩ := Filled.add_agree live a
  exact ⟨live', by simp only [ShineScouts.store, truncated, overflow]⟩

theorem parseOutstanding_agree (r : Reader) (s t : Outstanding) :
    Parses (fun s t => s.entries.live = t.entries.live)
      (parseOutstanding r s) (parseOutstanding r t) := by
  refine parseHandlers_agree
    (.cons (entries_agree _ _ ?_) (.cons (discard_agree _) (.cons (discard_agree _) .nil))) r rfl
  exact fun a s t live => (Filled.add_agree live a).1

theorem parseKingdomGates_agree (r : Reader) (s t : KingdomGates) :
    Parses (fun s t => s.entries.live = t.entries.live)
      (parseKingdomGates r s) (parseKingdomGates r t) := by
  refine parseHandlers_agree (.cons (entries_agree _ _ ?_) .nil) r rfl
  exact fun a s t live => (Filled.add_agree live a).1

theorem parseTalkatooPool_agree (r : Reader) (s t : TalkatooPool) :
    Parses
      (fun s t => s.enabled = t.enabled ∧ s.kingdom = t.kingdom ∧ s.moons.live = t.moons.live ∧
        s.truncated = t.truncated)
      (parseTalkatooPool r s) (parseTalkatooPool r t) := by
  refine parseHandlers_agree (.cons (field_agree _ ?_) (.cons (field_agree _ ?_)
    (.cons (entries_agree _ _ ?_) .nil))) r ⟨rfl, rfl, rfl, rfl⟩
  · rintro v s t ⟨-, kingdom, live, truncated⟩
    exact ⟨rfl, kingdom, live, truncated⟩
  · rintro v s t ⟨enabled, -, live, truncated⟩
    exact ⟨enabled, rfl, live, truncated⟩
  · rintro a s t ⟨enabled, kingdom, live, truncated⟩
    obtain ⟨live', overflow⟩ := Filled.add_agree live a
    exact ⟨enabled, kingdom, live', by simp only [TalkatooPool.store, truncated, overflow]⟩

theorem parseShopLabels_agree (r : Reader) (s t : ShopLabels) :
    Parses (fun s t => s.entries.live = t.entries.live ∧ s.truncated = t.truncated)
      (parseShopLabels r s) (parseShopLabels r t) := by
  refine parseHandlers_agree (.cons (entries_agree _ _ ?_) .nil) r ⟨rfl, rfl⟩
  rintro a s t ⟨live, truncated⟩
  obtain ⟨live', overflow⟩ := Filled.add_agree live a
  exact ⟨live', by simp only [ShopLabels.store, truncated, overflow]⟩

theorem parseAbilityState_agree (r : Reader) (s t : AbilityState) :
    Parses
      (fun s t => s.entries.live = t.entries.live ∧ s.truncated = t.truncated ∧
        s.enforce = t.enforce)
      (parseAbilityState r s) (parseAbilityState r t) := by
  refine parseHandlers_agree (.cons (field_agree _ ?_) (.cons (entries_agree _ _ ?_) .nil)) r
    ⟨rfl, rfl, rfl⟩
  · rintro v s t ⟨live, truncated, -⟩
    exact ⟨live, truncated, rfl⟩
  · rintro a s t ⟨live, truncated, enforce⟩
    obtain ⟨live', overflow⟩ := Filled.add_agree live a
    exact ⟨live', by simp only [AbilityState.store, truncated, overflow], enforce⟩

theorem parseEntranceMap_agree (r : Reader) (s t : EntranceMap) :
    Parses
      (fun s t => s.entries.live = t.entries.live ∧ s.reset = t.reset ∧ s.truncated = t.truncated)
      (parseEntranceMap r s) (parseEntranceMap r t) := by
  refine parseHandlers_agree (.cons (field_agree _ ?_) (.cons (entries_agree _ _ ?_) .nil)) r
    ⟨rfl, rfl, rfl⟩
  · rintro v s t ⟨live, -, truncated⟩
    exact ⟨live, rfl, truncated⟩
  · rintro a s t ⟨live, reset, truncated⟩
    obtain ⟨live', overflow⟩ := Filled.add_agree live a
    exact ⟨live', reset, by simp only [EntranceMap.store, truncated, overflow]⟩

/-! ## The replayed ids -/

abbrev IdFields := List (Assignment Reader.size (List UInt8) ItemRef)

/-- Read one object of `ids` for what it carries only. -/
def traceId (r : Reader) (p : List IdFields × Bool) : Bool × Reader × List IdFields × Bool :=
  let read := itemRefTable.assignments Reader.fieldKeys (r.size + 1) r
  (read.1, read.2.1,
    if p.1.length < 128 then (if read.1 then p.1 ++ [read.2.2] else p.1, p.2)
    else (p.1, p.2 || read.1))

theorem size_traceId (r : Reader) (p : List IdFields × Bool) :
    (traceId r p).2.1.size ≤ r.size :=
  loop_shrinks _ _ r []

/-- What the objects of `ids` carry, and whether there were too many. -/
def traceIds (r : Reader) : Bool × Reader × List IdFields × Bool :=
  parseHandlers [arrayHandler "ids" (objectElement traceId size_traceId)] r ([], false)

/-- The slots in use are overlays of what they held before. -/
def IdsOverlay (slots : List ItemRef) (s : CheckedReplay) (p : List IdFields × Bool) : Prop :=
  s.ids.count = p.1.length ∧ s.truncated = p.2 ∧
    s.ids.slots.toList =
      List.zipWith applyAll p.1 slots ++ slots.drop p.1.length ∧
    ∀ as ∈ p.1, itemRefTable.Within as

private theorem zipWith_snoc {α : Type*} {β γ : Type*} (f : α → β → γ) (a : α) (b : β)
    (as : List α) (bs : List β) (h : bs[as.length]? = some b) :
    List.zipWith f (as ++ [a]) bs = List.zipWith f as bs ++ [f a b] := by
  induction as generalizing bs with
  | nil =>
      cases bs with
      | nil => simp at h
      | cons c cs =>
          obtain rfl : c = b := by simpa using h
          simp
  | cons x as ih =>
      cases bs with
      | nil => simp at h
      | cons c cs =>
          simp only [List.length_cons, List.getElem?_cons_succ] at h
          simp [ih cs h]

/-- Overlaying the next slot extends the overlay by one object. -/
theorem idsOverlay_push {slots : List ItemRef} {s : CheckedReplay} {p : List IdFields × Bool}
    (start : IdsOverlay slots s p) (room : s.ids.count < 128) {as : IdFields}
    (inside : itemRefTable.Within as) :
    IdsOverlay slots { s with ids := s.ids.push (applyAll as s.ids.slots[s.ids.count]) room }
      (p.1 ++ [as], p.2) := by
  obtain ⟨count, truncated, layout, within⟩ := start
  have total : s.ids.slots.toList.length = 128 := Vector.length_toList
  have front : (List.zipWith applyAll p.1 slots).length = p.1.length := by
    have cut := congrArg List.length layout
    simp only [total, List.length_append, List.length_zipWith, List.length_drop] at cut ⊢
    omega
  have at_count : slots[p.1.length]? = some s.ids.slots[s.ids.count] := by
    have here : s.ids.slots.toList[p.1.length]? = slots[p.1.length]? := by
      rw [layout, List.getElem?_append_right (by omega), front, Nat.sub_self,
        List.getElem?_drop, Nat.add_zero]
    rw [← here, ← count]
    simp [room]
  have rest : slots.drop p.1.length =
      s.ids.slots[s.ids.count] :: slots.drop (p.1.length + 1) := by
    obtain ⟨h, e⟩ := List.getElem?_eq_some_iff.1 at_count
    rw [List.drop_eq_getElem_cons h, e]
  refine ⟨by simp [Filled.push, count], truncated, ?_, ?_⟩
  · rw [zipWith_snoc applyAll _ _ _ _ at_count, List.length_append, List.length_singleton,
      List.append_assoc]
    change (s.ids.slots.set s.ids.count _).toList = _
    have first : s.ids.count - p.1.length = 0 := by omega
    rw [Vector.toList_set, layout, List.set_append_right _ _ (by omega), front, first, rest,
      List.set_cons_zero, List.singleton_append]
  · intro bs mem
    rcases List.mem_append.1 mem with old | new
    · exact within bs old
    · exact (List.mem_singleton.1 new) ▸ inside

theorem parseItemRefBody_overlay (r : Reader) (s : ItemRef) :
    (parseItemRefBody r s).1 = (itemRefTable.assignments Reader.fieldKeys (r.size + 1) r).1 ∧
      (parseItemRefBody r s).2.1 =
        (itemRefTable.assignments Reader.fieldKeys (r.size + 1) r).2.1 ∧
      ((parseItemRefBody r s).1 = true →
        (parseItemRefBody r s).2.2 = applyAll (carried itemRefTable r) s ∧
          itemRefTable.Within (carried itemRefTable r)) :=
  parseFields_overlay itemRefTable r s

/-- Reading an object in place overlays the next slot. -/
theorem readId_overlay (slots : List ItemRef) (r : Reader) (s : CheckedReplay)
    (p : List IdFields × Bool) (start : IdsOverlay slots s p) :
    Parses (IdsOverlay slots) (CheckedReplay.readId r s) (traceId r p) := by
  have count := start.1
  by_cases room : s.ids.count < 128
  · have room' : p.1.length < 128 := count ▸ room
    obtain ⟨ok, rest, out⟩ := parseItemRefBody_overlay r s.ids.slots[s.ids.count]
    simp only [CheckedReplay.readId, traceId, dif_pos room, if_pos room']
    refine ⟨ok, rest, fun success => ?_⟩
    obtain ⟨overlay, inside⟩ := out success
    have traced : (itemRefTable.assignments Reader.fieldKeys (r.size + 1) r).1 = true :=
      ok.symm.trans success
    rw [if_pos traced]
    simp only at success
    simp only [success, if_true, overlay]
    exact idsOverlay_push start room inside
  · have room' : ¬ p.1.length < 128 := count ▸ room
    obtain ⟨ok, rest, -⟩ := parseItemRefBody_overlay r default
    simp only [CheckedReplay.readId, traceId, dif_neg room, if_neg room']
    exact ⟨ok, rest, fun _ => ⟨count, by simp only [ok, start.2.1], start.2.2⟩⟩

/-- An object around agreeing bodies. -/
theorem inObject_agree {σ τ : Type*} {R : σ → τ → Prop} {body : Reader → σ → Bool × Reader × σ}
    {body' : Reader → τ → Bool × Reader × τ}
    (bodies : ∀ r s t, R s t → Parses R (body r s) (body' r t)) (r : Reader) (s : σ) (t : τ)
    (start : R s t) : Parses R (inObject body r s) (inObject body' r t) := by
  simp only [inObject]
  by_cases opened : r.enterObject.1 = true
  · rw [if_pos opened, if_pos opened]
    obtain ⟨ok, rest, kept⟩ := bodies r.enterObject.2 s t start
    rw [← ok]
    split_ifs with done
    · exact ⟨by rw [rest], by rw [rest], fun _ => kept done⟩
    · exact ⟨ok, rest, fun success => absurd success done⟩
  · rw [if_neg opened, if_neg opened]
    exact ⟨rfl, rfl, fun h => absurd h Bool.false_ne_true⟩

/-- A parsed replay: each entry overlays the slot it was read into. -/
theorem parseCheckedReplay_overlay (r : Reader) (s : CheckedReplay) :
    Parses (IdsOverlay s.ids.slots.toList) (parseCheckedReplay r s) (traceIds r) := by
  refine parseHandlers_agree (.cons (arrayHandler_agree "ids" ?_) .nil) r ?_
  · exact fun r s t start => inObject_agree (readId_overlay _) r s t start
  · exact ⟨rfl, rfl, by simp [Filled.clear], fun as mem => absurd mem List.not_mem_nil⟩

theorem live_of_overlay {slots : List ItemRef} {s : CheckedReplay} {p : List IdFields × Bool}
    (total : slots.length = 128) (h : IdsOverlay slots s p) :
    s.ids.live = List.zipWith applyAll p.1 slots := by
  obtain ⟨count, -, layout, -⟩ := h
  have bound := s.ids.count_le
  rw [Filled.live, layout, count, List.take_left']
  simp only [List.length_zipWith]
  omega

/-- Overlays of two slot lists coincide when the slots are fresh. -/
theorem zipWith_fresh_iff (ids : List IdFields) (slots : List ItemRef)
    (within : ∀ as ∈ ids, itemRefTable.Within as) :
    List.zipWith applyAll ids slots =
        List.zipWith applyAll ids (List.replicate slots.length default) ↔
      ∀ p ∈ ids.zip slots, Fresh itemRefTable p.1 p.2 := by
  induction ids generalizing slots with
  | nil => simp
  | cons as ids ih =>
      cases slots with
      | nil => simp
      | cons slot slots =>
          have here := overlay_fresh_iff itemRefTable (within as (.head ids)) slot
          have there := ih slots fun bs mem => within bs (.tail as mem)
          simp only [List.zipWith_cons_cons, List.length_cons, List.replicate_succ,
            List.cons.injEq, List.zip_cons_cons, List.forall_mem_cons, here, there]

/-- Parsing a replay into any struct and into a fresh one. -/
theorem parseCheckedReplay_fresh (r : Reader) (s : CheckedReplay) :
    (parseCheckedReplay r s).1 = (parseCheckedReplay r default).1 ∧
      (parseCheckedReplay r s).2.1 = (parseCheckedReplay r default).2.1 ∧
      ((parseCheckedReplay r s).1 = true →
        ((parseCheckedReplay r s).2.2.truncated = (parseCheckedReplay r default).2.2.truncated ∧
          ((parseCheckedReplay r s).2.2.ids.live = (parseCheckedReplay r default).2.2.ids.live ↔
            ∀ p ∈ (traceIds r).2.2.1.zip s.ids.slots.toList, Fresh itemRefTable p.1 p.2))) := by
  obtain ⟨ok, rest, out⟩ := parseCheckedReplay_overlay r s
  obtain ⟨ok', rest', out'⟩ := parseCheckedReplay_overlay r default
  have blank : (default : CheckedReplay).ids.slots.toList = List.replicate 128 default := by
    simp [default, Filled.fill]
  have total : s.ids.slots.toList.length = 128 := Vector.length_toList
  refine ⟨ok.trans ok'.symm, rest.trans rest'.symm, fun success => ?_⟩
  have read := out success
  have read' := out' (ok'.trans (ok.symm.trans success))
  rw [live_of_overlay total read, live_of_overlay (by rw [blank]; simp) read', blank]
  refine ⟨read.2.1.trans read'.2.1.symm, ?_⟩
  have zipped := zipWith_fresh_iff (traceIds r).2.2.1 s.ids.slots.toList read.2.2.2
  rwa [total] at zipped

/-! ## The decoder -/

/-- No field of the struct the line is decoded into outlives an earlier line. -/
def DecodedMsg.NoStaleAs (m : DecodedMsg) (r : Reader) : MsgType → Prop
  | .helloAck => Fresh helloAckTable (carried helloAckTable r) m.helloAck
  | .checkedReplay =>
      ∀ p ∈ (traceIds r).2.2.1.zip m.checkedReplay.ids.slots.toList, Fresh itemRefTable p.1 p.2
  | .item => Fresh itemTable (carried itemTable r) m.item
  | .print => Fresh printTable (carried printTable r) m.print
  | .apState => Fresh apStateTable (carried apStateTable r) m.apState
  | .pong => Fresh pongTable (carried pongTable r) m.pong
  | .err => Fresh errTable (carried errTable r) m.err
  | .kill => Fresh killTable (carried killTable r) m.kill
  | .moonLabel => Fresh moonLabelTable (carried moonLabelTable r) m.moonLabel
  | .cappy => Fresh cappyTable (carried cappyTable r) m.cappy
  | .coinGrant => Fresh coinGrantTable (carried coinGrantTable r) m.coinGrant
  | .shineScouts | .outstanding | .kingdomGates | .talkatooPool | .shopLabels | .abilityState
  | .entranceMap => True

/-- The line carries every field of its type's struct that is not at its default. -/
def NoStale (line : List UInt8) (m : DecodedMsg) : Prop :=
  match decodeTag line with
  | none => True
  | some (t, r) =>
      match MsgType.ofTag t with
      | none => True
      | some type => m.NoStaleAs r type

/-- Parsing a body into any message and into a fresh one of the same tag. -/
theorem parse_fresh (m : DecodedMsg) (t : CStr kCheckFieldCap) (r : Reader) (type : MsgType) :
    let x := DecodedMsg.parse { m with t := t } r type
    let y := DecodedMsg.parse { (default : DecodedMsg) with t := t } r type
    x.1 = y.1 ∧ x.2.1 = y.2.1 ∧ x.2.2.t = t ∧ y.2.2.t = t ∧
      (x.1 = true → (x.2.2.viewAs type = y.2.2.viewAs type ↔ m.NoStaleAs r type)) := by
  cases type with
  | helloAck =>
      obtain ⟨ok, rest, out⟩ := parseFields_fresh helloAckTable r m.helloAck
      exact ⟨ok, rest, rfl, rfl, fun success => (View.helloAck.injEq _ _ ▸ out success)⟩
  | checkedReplay =>
      obtain ⟨ok, rest, out⟩ := parseCheckedReplay_fresh r m.checkedReplay
      refine ⟨ok, rest, rfl, rfl, fun success => ?_⟩
      obtain ⟨truncated, ids⟩ := out success
      refine Iff.trans ?_ ids
      exact ⟨fun h => (View.checkedReplay.inj h).1,
        fun h => (View.checkedReplay.injEq _ _ _ _).mpr ⟨h, truncated⟩⟩
  | item =>
      obtain ⟨ok, rest, out⟩ := parseFields_fresh itemTable r m.item
      exact ⟨ok, rest, rfl, rfl, fun success => (View.item.injEq _ _ ▸ out success)⟩
  | print =>
      obtain ⟨ok, rest, out⟩ := parseFields_fresh printTable r m.print
      exact ⟨ok, rest, rfl, rfl, fun success => (View.print.injEq _ _ ▸ out success)⟩
  | apState =>
      obtain ⟨ok, rest, out⟩ := parseFields_fresh apStateTable r m.apState
      exact ⟨ok, rest, rfl, rfl, fun success => (View.apState.injEq _ _ ▸ out success)⟩
  | pong =>
      obtain ⟨ok, rest, out⟩ := parseFields_fresh pongTable r m.pong
      exact ⟨ok, rest, rfl, rfl, fun success => (View.pong.injEq _ _ ▸ out success)⟩
  | err =>
      obtain ⟨ok, rest, out⟩ := parseFields_fresh errTable r m.err
      exact ⟨ok, rest, rfl, rfl, fun success => (View.err.injEq _ _ ▸ out success)⟩
  | kill =>
      obtain ⟨ok, rest, out⟩ := parseFields_fresh killTable r m.kill
      exact ⟨ok, rest, rfl, rfl, fun success => (View.kill.injEq _ _ ▸ out success)⟩
  | moonLabel =>
      obtain ⟨ok, rest, out⟩ := parseFields_fresh moonLabelTable r m.moonLabel
      exact ⟨ok, rest, rfl, rfl, fun success => (View.moonLabel.injEq _ _ ▸ out success)⟩
  | cappy =>
      obtain ⟨ok, rest, out⟩ := parseFields_fresh cappyTable r m.cappy
      exact ⟨ok, rest, rfl, rfl, fun success => (View.cappy.injEq _ _ ▸ out success)⟩
  | coinGrant =>
      obtain ⟨ok, rest, out⟩ := parseFields_fresh coinGrantTable r m.coinGrant
      exact ⟨ok, rest, rfl, rfl, fun success => (View.coinGrant.injEq _ _ ▸ out success)⟩
  | shineScouts =>
      obtain ⟨ok, rest, out⟩ := parseShineScouts_agree r m.shineScouts default
      refine ⟨ok, rest, rfl, rfl, fun success => iff_of_true ?_ trivial⟩
      exact (View.shineScouts.injEq _ _ _ _).mpr (out success)
  | outstanding =>
      obtain ⟨ok, rest, out⟩ := parseOutstanding_agree r m.outstanding default
      refine ⟨ok, rest, rfl, rfl, fun success => iff_of_true ?_ trivial⟩
      exact congrArg View.outstanding (out success)
  | kingdomGates =>
      obtain ⟨ok, rest, out⟩ := parseKingdomGates_agree r m.kingdomGates default
      refine ⟨ok, rest, rfl, rfl, fun success => iff_of_true ?_ trivial⟩
      exact congrArg View.kingdomGates (out success)
  | talkatooPool =>
      obtain ⟨ok, rest, out⟩ := parseTalkatooPool_agree r m.talkatooPool default
      refine ⟨ok, rest, rfl, rfl, fun success => iff_of_true ?_ trivial⟩
      exact (View.talkatooPool.injEq _ _ _ _ _ _ _ _).mpr (out success)
  | shopLabels =>
      obtain ⟨ok, rest, out⟩ := parseShopLabels_agree r m.shopLabels default
      refine ⟨ok, rest, rfl, rfl, fun success => iff_of_true ?_ trivial⟩
      exact (View.shopLabels.injEq _ _ _ _).mpr (out success)
  | abilityState =>
      obtain ⟨ok, rest, out⟩ := parseAbilityState_agree r m.abilityState default
      refine ⟨ok, rest, rfl, rfl, fun success => iff_of_true ?_ trivial⟩
      exact (View.abilityState.injEq _ _ _ _ _ _).mpr (out success)
  | entranceMap =>
      obtain ⟨ok, rest, out⟩ := parseEntranceMap_agree r m.entranceMap default
      refine ⟨ok, rest, rfl, rfl, fun success => iff_of_true ?_ trivial⟩
      exact (View.entranceMap.injEq _ _ _ _ _ _).mpr (out success)

/-- The verdict of a line does not depend on the message it is decoded into. -/
theorem decode_verdict (line : List UInt8) (m : DecodedMsg) :
    (decode line m).1 = (decode line default).1 := by
  unfold decode
  cases decodeTag line with
  | none => rfl
  | some p =>
      dsimp only
      cases MsgType.ofTag p.1 with
      | none => rfl
      | some type =>
          obtain ⟨ok, rest, -⟩ := parse_fresh m p.1 p.2 type
          simp only at ok rest ⊢
          rw [ok, rest]

/-- The tag of an accepted line does not depend on the message either. -/
theorem decode_tag (line : List UInt8) (m : DecodedMsg) (ok : (decode line m).1 = true) :
    (decode line m).2.t = (decode line default).2.t := by
  unfold decode at ok ⊢
  revert ok
  cases decodeTag line with
  | none => exact fun ok => absurd ok Bool.false_ne_true
  | some p =>
      intro _
      dsimp only
      cases MsgType.ofTag p.1 with
      | none => rfl
      | some type =>
          obtain ⟨-, -, tag, tag', -⟩ := parse_fresh m p.1 p.2 type
          exact tag.trans tag'.symm

/-- An accepted line reads as in a fresh message exactly when nothing is stale. -/
theorem decode_view_iff (line : List UInt8) (m : DecodedMsg) (ok : (decode line m).1 = true) :
    (decode line m).2.view = (decode line default).2.view ↔ NoStale line m := by
  unfold decode at ok ⊢
  unfold NoStale
  revert ok
  cases decodeTag line with
  | none => exact fun ok => absurd ok Bool.false_ne_true
  | some p =>
      dsimp only
      cases type_eq : MsgType.ofTag p.1 with
      | none =>
          intro _
          simp [DecodedMsg.view, type_eq]
      | some type =>
          intro accepted
          obtain ⟨-, -, tag, tag', out⟩ := parse_fresh m p.1 p.2 type
          have parsed := (Bool.and_eq_true_iff.1 accepted).1
          simp only at tag tag' out ⊢
          rw [DecodedMsg.view, DecodedMsg.view, tag, tag', type_eq]
          exact out parsed

/-- `handleLine` over a sequence of lines. -/
def decodeAll (lines : List (List UInt8)) (m : DecodedMsg) : DecodedMsg :=
  lines.foldl (fun m line => (decode line m).2) m

/-- The struct read after any history is the one the line gives in a fresh message
exactly when the history left nothing in a field the line does not carry. -/
theorem decodeAll_view_iff (earlier : List (List UInt8)) (line : List UInt8)
    (accepted : (decode line (decodeAll earlier default)).1 = true) :
    (decode line (decodeAll earlier default)).2.view = (decode line default).2.view ↔
      NoStale line (decodeAll earlier default) :=
  decode_view_iff line (decodeAll earlier default) accepted

/-- A capture item for which the bridge knew the hack name. -/
def frogLine : List UInt8 :=
  ascii "\x7b\"t\":\"item\",\"kind\":\"capture\",\"cap\":\"Frog\",\"hack_name\":\"Frog\",\"from\":\"A\"\x7d"

/-- A capture item for which it knew none. -/
def goombaLine : List UInt8 :=
  ascii "\x7b\"t\":\"item\",\"kind\":\"capture\",\"cap\":\"Goomba\",\"from\":\"A\"\x7d"

theorem decodeAll_view_iff_goomba :
    (decode goombaLine (decodeAll [frogLine] default)).2.view =
        (decode goombaLine default).2.view ↔
      NoStale goombaLine (decodeAll [frogLine] default) :=
  decodeAll_view_iff [frogLine] goombaLine (by decide +kernel)

/-- The second capture is read with the first one's hack name. -/
theorem goomba_keeps_frog_hack_name :
    (decode goombaLine (decodeAll [frogLine] default)).1 = true ∧
      (decode goombaLine (decodeAll [frogLine] default)).2.view ≠
        (decode goombaLine default).2.view ∧
      (decode goombaLine (decodeAll [frogLine] default)).2.item.hackName.bytes = ascii "Frog" ∧
      (decode goombaLine default).2.item.hackName.bytes = [] := by
  decide +kernel

end SmoArchipelago.Switch.ApProtocol
