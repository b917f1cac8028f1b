import SmoArchipelago.Library.Runs
import SmoArchipelago.Library.SortedPrefix
import SmoArchipelago.Bridge.Abilities
import SmoArchipelago.Switch.AbilityTable

/-! # Coins and bubbles for spare abilities

Three places tell a spare copy: the coin total of the bridge, its table of moves and the
table of the Switch, which announces spare copies from the snapshots it is sent.

## Implementation notes

A batch is received in one go and followed by its snapshot. The frame thread takes the
bubbles out of their ring when it draws. -/

namespace SmoArchipelago.Bridge

open Library Runs Switch ApProtocol

inductive AbilityReceipt where
  | item (evt : ItemEvent)
  | bonus (name : String)
  deriving DecidableEq

/-- The ability that a receipt counts for. -/
def AbilityReceipt.ability : AbilityReceipt → Option String
  | .item evt =>
      if evt.item.kind = ItemKind.ability.value ∧ Present evt.item.name then evt.item.name else none
  | .bonus name => some name

def BridgeState.receive (s : BridgeState) : AbilityReceipt → BridgeState
  | .item evt => s.addReceivedItem evt
  | .bonus name => s.grantBonusAbility name

/-- An ability name in its field on the Switch. -/
def wireName (name : String) : CStr kCheckFieldCap := CStr.ofBytes name.toUTF8.data.toList

/-- The entries of a message that the Switch decodes. -/
def AbilityStateMsg.decoded (msg : AbilityStateMsg) : List AbilityEntry :=
  (msg.entries.take kAbilityStateMax).map fun e => ⟨wireName e.1, e.2⟩

namespace AbilityCoins

/-- The bridge, the Switch and the bubbles that it has announced. -/
structure State where
  bridge : BridgeState := {}
  switch : AbilityTable := {}
  announced : ℕ := 0

inductive Event where
  | receive (batch : List AbilityReceipt) (enforce : Bool)
  | otherBubble (bubble : SystemBubble)
  | drawMain

/-- `push_ability_state`, applied by the Switch. -/
def push (enforce : Bool) (s : State) : State :=
  match abilityStateMsg enforce s.bridge with
  | none => s
  | some msg =>
      let applied := applyAbilityState msg.decoded msg.enforce s.switch
      { s with switch := applied.1, announced := s.announced + applied.2 }

def step (s : State) : Event → State
  | .receive batch enforce => push enforce { s with bridge := batch.foldl BridgeState.receive s.bridge }
  | .otherBubble bubble =>
      let ring := s.switch.inboundSystemBubbles
      { s with switch := { s.switch with inboundSystemBubbles := (ring.push bubble).getD ring } }
  | .drawMain =>
      { s with
        switch := { s.switch with inboundSystemBubbles := s.switch.inboundSystemBubbles.drain } }

/-- The coins, the spare copies and the announced bubbles are the same in number. -/
def Agrees (s : State) : Prop :=
  s.bridge.abilityCoins = 100 * s.bridge.spareCopies ∧ s.bridge.spareCopies = s.announced

instance (s : State) : Decidable (Agrees s) := inferInstanceAs (Decidable (_ ∧ _))

/-- The ability names that an event counts for. -/
def Event.names : Event → List String
  | .receive batch _ => batch.filterMap AbilityReceipt.ability
  | .otherBubble _ | .drawMain => []

def receivedNames (events : List Event) : List String := events.flatMap Event.names

/-- In their fields the names differ from each other and from the names of chains. -/
def ToldApart (names : List String) : Prop :=
  ∀ a ∈ names, ∀ b ∈ names ++ "" :: progressiveMoves.keys, wireName a = wireName b → a = b

instance (names : List String) : Decidable (ToldApart names) :=
  inferInstanceAs (Decidable (∀ a ∈ names, ∀ b ∈ names ++ "" :: progressiveMoves.keys, _))

/-- The spare copies between two tables of counts. -/
def newSpareCopies (d d' : Dict String ℕ) (name : String) : ℕ :=
  spareLevels name (d'.getD name 0) - spareLevels name (d.getD name 0)

/-- Each new spare copy is one of a named ability in the part of the snapshot that the
table holds, and the bubbles of all of them find room. -/
def SparesShown (s : State) : Event → Prop
  | .receive batch _ =>
      let d := s.bridge.abilitiesReceived
      let d' := (batch.foldl BridgeState.receive s.bridge).abilitiesReceived
      (∀ name ∈ d'.keys, newSpareCopies d d' name ≠ 0 →
          name ≠ "" ∧ name ∈ smallest kAbilityTableMax d'.keys) ∧
        (d'.keys.map (newSpareCopies d d')).sum ≤
          15 - s.switch.inboundSystemBubbles.toList.length
  | .otherBubble _ | .drawMain => True

/-! ## Counting the receipts -/

theorem receive_abilities (s : BridgeState) (r : AbilityReceipt) :
    (s.receive r).abilitiesReceived =
      match r.ability with
      | some name => s.abilitiesReceived.bump name 1
      | none => s.abilitiesReceived := by
  cases r with
  | bonus name => rfl
  | item evt =>
      simp only [BridgeState.receive, BridgeState.addReceivedItem, AbilityReceipt.ability]
      by_cases ability : evt.item.kind = ItemKind.ability.value ∧ Present evt.item.name
      · obtain ⟨kind, name, named, nonempty⟩ := ability
        have not_capture : ¬ (evt.item.kind = ItemKind.capture.value ∧ Present evt.item.cap) := by
          rw [kind]
          exact fun h => absurd h.1 (by decide)
        rw [if_neg not_capture]
        simp [kind, named, nonempty]
      · rw [if_neg ability, if_neg ability]
        split_ifs <;> rfl

/-- What a batch adds to the count of a name is its number of receipts. -/
theorem foldl_receive_getD (s : BridgeState) (batch : List AbilityReceipt) (name : String) :
    (batch.foldl BridgeState.receive s).abilitiesReceived.getD name 0 =
      s.abilitiesReceived.getD name 0 + (batch.filterMap AbilityReceipt.ability).count name := by
  induction batch generalizing s with
  | nil => simp
  | cons r batch ih =>
      rw [List.foldl_cons, ih, receive_abilities, List.filterMap_cons]
      cases r.ability with
      | none => rfl
      | some other =>
          simp only [Dict.getD_bump, List.count_cons, beq_iff_eq, eq_comm (a := name)]
          omega

theorem foldl_receive_keys (s : BridgeState) (batch : List AbilityReceipt) (name : String) :
    name ∈ (batch.foldl BridgeState.receive s).abilitiesReceived.keys ↔
      name ∈ s.abilitiesReceived.keys ∨ name ∈ batch.filterMap AbilityReceipt.ability := by
  induction batch generalizing s with
  | nil => simp
  | cons r batch ih =>
      rw [List.foldl_cons, ih, receive_abilities, List.filterMap_cons]
      cases r.ability with
      | none => rfl
      | some other =>
          rw [Dict.mem_keys_bump, List.mem_cons]
          exact ⟨fun h => h.elim (fun h => h.elim (fun h => .inr (.inl h)) .inl) fun h => .inr (.inr h),
            fun h => h.elim (fun h => .inl (.inr h)) fun h => h.elim (fun h => .inl (.inl h)) .inr⟩

/-! ## The table of the Switch -/

theorem kChains_eq : kChains = progressiveMoves.entries := rfl

section Fields

variable {names : List String} (apart : ToldApart names)

include apart in
theorem wireName_isEmpty {name : String} (here : name ∈ names) :
    (wireName name).isEmpty = true ↔ name = "" := by
  have blank : wireName "" = ⟨[], by decide, by decide⟩ := by decide
  constructor
  · intro empty
    apply apart name here "" (by simp)
    rw [blank]
    apply CStr.ext
    exact List.isEmpty_iff.1 empty
  · rintro rfl
    rw [blank]
    rfl

include apart in
/-- The two tables of moves agree on a named ability. -/
theorem abilityMoveAtLevel_eq_none {name : String} (here : name ∈ names) (named : name ≠ "")
    {level : ℕ} (pos : 0 < level) :
    abilityMoveAtLevel (wireName name) level = none ↔ newlyUnlockedMove name level = none := by
  have same_key : ∀ c ∈ progressiveMoves.entries,
      (wireName name).bytes = Json.ascii c.1 ↔ c.1 = name := by
    intro c member
    have plain : ∀ c ∈ progressiveMoves.entries, (wireName c.1).bytes = Json.ascii c.1 := by decide
    constructor
    · intro same
      apply Eq.symm
      apply apart name here c.1
      · exact List.mem_append_right _ (List.mem_cons_of_mem _ (List.mem_map_of_mem member))
      · exact CStr.ext (same.trans (plain c member).symm)
    · rintro rfl
      exact plain c member
  rw [newlyUnlockedMove_eq_none pos, abilityMoveAtLevel, if_neg (by omega), chainLength,
    if_neg named, kChains_eq]
  cases found : progressiveMoves.get? name with
  | none =>
      have absent : (progressiveMoves.entries.find? fun c =>
          (wireName name).bytes = Json.ascii c.1) = none := by
        apply List.find?_eq_none.2
        intro c member same
        have key := (same_key c member).1 (of_decide_eq_true same)
        rw [← key, Dict.get?_eq_some.2 member] at found
        cases found
      rw [absent, Option.map_none, Option.getD_none]
      by_cases first : level = 1
      · simp [first]
      · have later : ¬ (level : ℤ) = 1 := by omega
        simp only [if_neg later, true_iff]
        omega
  | some chain =>
      have member := Dict.get?_eq_some.1 found
      cases hit : progressiveMoves.entries.find? fun c =>
          (wireName name).bytes = Json.ascii c.1 with
      | none =>
          have miss := List.find?_eq_none.1 hit (name, chain) member
          exact absurd (decide_eq_true ((same_key (name, chain) member).2 rfl)) miss
      | some c =>
          have held : decide ((wireName name).bytes = Json.ascii c.1) = true :=
            List.find?_some (p := fun c : String × List String =>
              decide ((wireName name).bytes = Json.ascii c.1)) hit
          have key := (same_key c (List.mem_of_find?_eq_some hit)).1 (of_decide_eq_true held)
          have chain_eq : c.2 = chain := by
            have again := Dict.get?_eq_some.2 (List.mem_of_find?_eq_some hit)
            rw [key, found] at again
            exact (Option.some.inj again).symm
          simp only [chain_eq, Option.map_some, Option.getD_some]
          by_cases within : (level : ℤ) ≤ chain.length
          · have unlocks : chain[((level : ℤ) - 1).toNat]? ≠ none := by
              rw [ne_eq, List.getElem?_eq_none_iff]
              omega
            simp only [if_pos within, Option.map_eq_none_iff, unlocks, false_iff]
            omega
          · simp only [if_neg within, true_iff]
            omega

include apart in
/-- The levels announced for an entry are the spare copies beyond the count held. -/
theorem newSpares_eq {name : String} (here : name ∈ names) {prior : CStr kCheckFieldCap → ℤ}
    {p c : ℕ} (le : p ≤ c) (known : prior (wireName name) = p) :
    newSpares prior ⟨wireName name, c⟩ =
      if name = "" then 0 else spareLevels name c - spareLevels name p := by
  rw [newSpares]
  simp only [wireName_isEmpty apart here]
  split_ifs with unnamed
  · rfl
  · have split : List.range' 1 c = List.range' 1 p ++ List.range' (1 + p) (c - p) := by
      rw [List.range'_append_1, Nat.add_sub_cancel' le]
    have levels_eq : levels (prior (wireName name)) c =
        (List.range' (1 + p) (c - p)).map fun n : ℕ => (n : ℤ) := by
      have size : ((c : ℤ) - p).toNat = c - p := by omega
      rw [known, levels, size, List.range'_eq_map_range, List.map_map]
      apply List.map_congr_left
      intro i _
      simp only [Function.comp_apply]
      omega
    rw [levels_eq, List.countP_map, spareLevels, split, List.countP_append, ← spareLevels,
      Nat.add_sub_cancel_left]
    apply List.countP_congr
    intro n member
    have pos : 0 < n := by
      have bound := List.left_le_of_mem_range' member
      omega
    simp only [Function.comp_apply, abilityMoveAtLevel_eq_none apart here unnamed pos]

end Fields

/-- The table that the snapshot of these counts leaves. -/
def tableOf (counts : Dict String ℕ) : List AbilityEntry :=
  ((sortedCounts counts).take kAbilityTableMax).map fun e => ⟨wireName e.1, e.2⟩

theorem decoded_take (counts : Dict String ℕ) (enforce : Bool) :
    (AbilityStateMsg.decoded ⟨sortedCounts counts, enforce⟩).take kAbilityTableMax =
      tableOf counts := by
  rw [AbilityStateMsg.decoded, ← List.map_take, List.take_take, min_self, tableOf]

theorem mem_take_sortedCounts {counts : Dict String ℕ} {name : String} {c : ℕ} :
    (name, c) ∈ (sortedCounts counts).take kAbilityTableMax ↔
      counts.get? name = some c ∧ name ∈ smallest kAbilityTableMax counts.keys := by
  have keys : ((sortedCounts counts).take kAbilityTableMax).map Prod.fst =
      smallest kAbilityTableMax counts.keys := by
    rw [List.map_take, keys_sortedCounts, smallest]
  rw [Dict.get?_eq_some, ← mem_sortedCounts, ← keys]
  constructor
  · intro h
    exact ⟨List.mem_of_mem_take h, List.mem_map_of_mem h⟩
  · intro ⟨member, placed⟩
    obtain ⟨e, held, rfl⟩ := List.mem_map.1 placed
    have here := Dict.get?_eq_some.2 (mem_sortedCounts.1 (List.mem_of_mem_take held))
    rw [Dict.get?_eq_some.2 (mem_sortedCounts.1 member)] at here
    rw [Option.some.inj here]
    exact held

section Growth

variable {names : List String} (apart : ToldApart names) {d d' : Dict String ℕ}

include apart in
/-- For a name with a place in the new table, the old table holds the old count. -/
theorem priorCount_tableOf (old : ∀ k ∈ d.keys, k ∈ names) (sub : ∀ k ∈ d.keys, k ∈ d'.keys)
    {name : String} (here : name ∈ names) (placed : name ∈ smallest kAbilityTableMax d'.keys) :
    priorCount (tableOf d) (wireName name) = d.getD name 0 := by
  have slot_name (slot : AbilityEntry) (member : slot ∈ tableOf d)
      (same : slot.ability = wireName name) : d.get? name = some slot.count.toNat ∧
        (slot.count.toNat : ℤ) = slot.count := by
    obtain ⟨⟨other, c⟩, held, rfl⟩ := List.mem_map.1 member
    have found := (mem_take_sortedCounts.1 held).1
    have known : other ∈ names := old other (List.mem_map_of_mem (Dict.get?_eq_some.1 found))
    have key : other = name := apart other known name (List.mem_append_left _ here) same
    rw [← key]
    exact ⟨found, rfl⟩
  rw [priorCount]
  cases hit : (tableOf d).find? fun slot => slot.ability = wireName name with
  | some slot =>
      have same : decide (slot.ability = wireName name) = true :=
        List.find?_some (p := fun slot : AbilityEntry => decide (slot.ability = wireName name)) hit
      obtain ⟨found, count⟩ := slot_name slot (List.mem_of_find?_eq_some hit) (of_decide_eq_true same)
      rw [Dict.getD, found, Option.getD_some]
      exact count.symm
  | none =>
      cases found : d.get? name with
      | none =>
          rw [Dict.getD, found]
          rfl
      | some c =>
          have member : name ∈ d.keys := List.mem_map_of_mem (Dict.get?_eq_some.1 found)
          have kept := mem_smallest_of_subset d.distinct d'.distinct sub member placed
          have held : ⟨wireName name, c⟩ ∈ tableOf d :=
            List.mem_map_of_mem (mem_take_sortedCounts.2 ⟨found, kept⟩)
          exact absurd (decide_eq_true rfl) (List.find?_eq_none.1 hit _ held)

/-- The share of a name in the announcements of a snapshot. -/
def shownShare (d d' : Dict String ℕ) (name : String) : ℕ :=
  if name ∈ smallest kAbilityTableMax d'.keys then
    if name = "" then 0 else newSpareCopies d d' name
  else 0

include apart in
theorem sum_newSpares (new : ∀ k ∈ d'.keys, k ∈ names) (sub : ∀ k ∈ d.keys, k ∈ d'.keys)
    (le : ∀ k, d.getD k 0 ≤ d'.getD k 0) :
    ((tableOf d').map (newSpares (priorCount (tableOf d)))).sum =
      ∑ k ∈ d'.keys.toFinset, shownShare d d' k := by
  have keys : ((sortedCounts d').take kAbilityTableMax).map Prod.fst =
      smallest kAbilityTableMax d'.keys := by
    rw [List.map_take, keys_sortedCounts, smallest]
  have distinct : (smallest kAbilityTableMax d'.keys).Nodup :=
    ((List.perm_insertionSort _ d'.keys).nodup_iff.2 d'.distinct).sublist (List.take_sublist _ _)
  have inside : (smallest kAbilityTableMax d'.keys).toFinset ⊆ d'.keys.toFinset := by
    intro k member
    have held := List.mem_toFinset.1 member
    exact List.mem_toFinset.2 ((mem_smallest_iff d'.distinct k _).1 held).1
  calc ((tableOf d').map (newSpares (priorCount (tableOf d)))).sum
      = (((sortedCounts d').take kAbilityTableMax).map fun e => shownShare d d' e.1).sum := by
        apply congrArg List.sum
        apply List.map_map.trans
        apply List.map_congr_left
        intro ⟨k, c⟩ held
        obtain ⟨found, placed⟩ := mem_take_sortedCounts.1 held
        have here : k ∈ names := new k (List.mem_map_of_mem (Dict.get?_eq_some.1 found))
        have count : d'.getD k 0 = c := by rw [Dict.getD, found, Option.getD_some]
        have known := priorCount_tableOf apart (fun k h => new k (sub k h)) sub here placed
        rw [Function.comp_apply, newSpares_eq apart here (count ▸ le k) known, shownShare,
          if_pos placed, newSpareCopies, count]
    _ = ((smallest kAbilityTableMax d'.keys).map (shownShare d d')).sum := by
        rw [← keys, List.map_map]
        rfl
    _ = ∑ k ∈ (smallest kAbilityTableMax d'.keys).toFinset, shownShare d d' k :=
        (List.sum_toFinset _ distinct).symm
    _ = ∑ k ∈ d'.keys.toFinset, shownShare d d' k := by
        apply Finset.sum_subset inside
        intro k _ outside
        rw [shownShare, if_neg fun h => outside (List.mem_toFinset.2 h)]

theorem shownShare_le (d d' : Dict String ℕ) (name : String) :
    shownShare d d' name ≤ newSpareCopies d d' name := by
  rw [shownShare]
  split_ifs
  · exact Nat.zero_le _
  · exact le_rfl
  · exact Nat.zero_le _

end Growth

/-! ## Runs -/

/-- The table holds the last snapshot, and no bubble is for an unnamed copy. -/
structure Tracked (names : List String) (s : State) : Prop where
  known : ∀ k ∈ s.bridge.abilitiesReceived.keys, k ∈ names
  table : s.switch.abilityTable = tableOf s.bridge.abilitiesReceived
  announced_le : s.announced + s.bridge.abilitiesReceived.getD "" 0 ≤ s.bridge.spareCopies

theorem push_bridge (enforce : Bool) (s : State) : (push enforce s).bridge = s.bridge := by
  rw [push]
  split <;> rfl

/-- After a push the table is that of the counts, whether or not a message was sent. -/
theorem push_table (enforce : Bool) (s : State)
    (h : s.bridge.abilitiesReceived.entries = [] → s.switch.abilityTable = []) :
    (push enforce s).switch.abilityTable = tableOf s.bridge.abilitiesReceived := by
  rw [push, abilityStateMsg]
  by_cases silent : enforce = true ∧ s.bridge.getAbilityCounts.entries = []
  · have none_received : s.bridge.abilitiesReceived.entries = [] := silent.2
    rw [if_pos silent]
    simp only [h none_received, tableOf, sortedCounts, none_received]
    rfl
  · rw [if_neg silent]
    exact decoded_take _ _

theorem push_announced (enforce : Bool) (s : State) {d : Dict String ℕ}
    (table : s.switch.abilityTable = tableOf d) :
    (push enforce s).announced = s.announced +
      min ((tableOf s.bridge.abilitiesReceived).map (newSpares (priorCount (tableOf d)))).sum
        (15 - s.switch.inboundSystemBubbles.toList.length) := by
  rw [push, abilityStateMsg]
  by_cases silent : enforce = true ∧ s.bridge.getAbilityCounts.entries = []
  · have none_received : s.bridge.abilitiesReceived.entries = [] := silent.2
    have no_table : tableOf s.bridge.abilitiesReceived = [] := by
      rw [tableOf, sortedCounts, none_received]
      rfl
    rw [if_pos silent, no_table, List.map_nil, List.sum_nil, Nat.zero_min, Nat.add_zero]
  · rw [if_neg silent]
    simp only [applyAbilityState_announced, table]
    rw [BridgeState.getAbilityCounts, decoded_take]

section Batch

variable {names : List String} {s : State} {batch : List AbilityReceipt}

theorem newSpareCopies_add (s : BridgeState) (batch : List AbilityReceipt) (k : String) :
    spareLevels k (s.abilitiesReceived.getD k 0) +
        newSpareCopies s.abilitiesReceived (batch.foldl BridgeState.receive s).abilitiesReceived k =
      spareLevels k ((batch.foldl BridgeState.receive s).abilitiesReceived.getD k 0) := by
  apply Nat.add_sub_cancel'
  apply spareLevels_mono
  rw [foldl_receive_getD]
  exact Nat.le_add_right _ _

theorem spareCopies_foldl (s : BridgeState) (batch : List AbilityReceipt) :
    (batch.foldl BridgeState.receive s).spareCopies = s.spareCopies +
      ∑ k ∈ (batch.foldl BridgeState.receive s).abilitiesReceived.keys.toFinset,
        newSpareCopies s.abilitiesReceived
          (batch.foldl BridgeState.receive s).abilitiesReceived k := by
  have before : ∀ k ∈ s.abilitiesReceived.keys,
      k ∈ (batch.foldl BridgeState.receive s).abilitiesReceived.keys.toFinset := by
    intro k here
    exact List.mem_toFinset.2 ((foldl_receive_keys s batch k).2 (.inl here))
  rw [BridgeState.spareCopies_eq s before,
    BridgeState.spareCopies_eq _ fun k h => List.mem_toFinset.2 h, ← Finset.sum_add_distrib]
  apply Finset.sum_congr rfl
  intro k _
  exact (newSpareCopies_add s batch k).symm

/-- What a batch announces: the shares of its names as far as they find room. -/
theorem receive_announced (apart : ToldApart names) (h : Tracked names s) (enforce : Bool)
    (new : ∀ k ∈ batch.filterMap AbilityReceipt.ability, k ∈ names) :
    (step s (.receive batch enforce)).announced = s.announced +
      min (∑ k ∈ (batch.foldl BridgeState.receive s.bridge).abilitiesReceived.keys.toFinset,
        shownShare s.bridge.abilitiesReceived
          (batch.foldl BridgeState.receive s.bridge).abilitiesReceived k)
        (15 - s.switch.inboundSystemBubbles.toList.length) := by
  have pushed := push_announced enforce
    { s with bridge := batch.foldl BridgeState.receive s.bridge } h.table
  rw [step, pushed, sum_newSpares apart]
  · intro k here
    apply ((foldl_receive_keys s.bridge batch k).1 here).elim
    · exact h.known k
    · exact new k
  · exact fun k here => (foldl_receive_keys s.bridge batch k).2 (.inl here)
  · intro k
    rw [foldl_receive_getD]
    exact Nat.le_add_right _ _

theorem receive_tracked (apart : ToldApart names) (h : Tracked names s) (enforce : Bool)
    (new : ∀ k ∈ batch.filterMap AbilityReceipt.ability, k ∈ names) :
    Tracked names (step s (.receive batch enforce)) := by
  have announced := receive_announced apart h enforce new
  have bridge : (step s (.receive batch enforce)).bridge =
      batch.foldl BridgeState.receive s.bridge := push_bridge enforce _
  constructor
  · intro k here
    rw [bridge] at here
    apply ((foldl_receive_keys s.bridge batch k).1 here).elim
    · exact h.known k
    · exact new k
  · rw [bridge]
    apply push_table
    intro none_left
    have none_before : s.bridge.abilitiesReceived.entries = [] := by
      apply List.map_eq_nil_iff.1
      apply List.eq_nil_iff_forall_not_mem.2
      intro k here
      have kept := (foldl_receive_keys s.bridge batch k).2 (.inl here)
      rw [Dict.keys, none_left] at kept
      cases kept
    have table := h.table
    rw [tableOf, sortedCounts, none_before] at table
    exact table
  · rw [announced, bridge, spareCopies_foldl]
    have share : ∀ k ∈ (batch.foldl BridgeState.receive s.bridge).abilitiesReceived.keys.toFinset,
        shownShare s.bridge.abilitiesReceived
            (batch.foldl BridgeState.receive s.bridge).abilitiesReceived k +
          (if k = "" then (batch.filterMap AbilityReceipt.ability).count "" else 0) ≤
        newSpareCopies s.bridge.abilitiesReceived
          (batch.foldl BridgeState.receive s.bridge).abilitiesReceived k := by
      intro k _
      by_cases unnamed : k = ""
      · subst unnamed
        rw [shownShare, if_pos rfl, if_pos rfl, ite_self, newSpareCopies, spareLevels_eq,
          spareLevels_eq, foldl_receive_getD]
        simp [chainLength]
      · rw [if_neg unnamed, Nat.add_zero]
        exact shownShare_le _ _ k
    have total := Finset.sum_le_sum share
    rw [Finset.sum_add_distrib, Finset.sum_ite_eq'] at total
    have unnamed : (batch.filterMap AbilityReceipt.ability).count "" =
        if "" ∈ (batch.foldl BridgeState.receive s.bridge).abilitiesReceived.keys.toFinset then
          (batch.filterMap AbilityReceipt.ability).count "" else 0 := by
      split_ifs with here
      · rfl
      · apply List.count_eq_zero_of_not_mem
        intro member
        exact here (List.mem_toFinset.2 ((foldl_receive_keys s.bridge batch "").2 (.inr member)))
    have before := h.announced_le
    rw [foldl_receive_getD, unnamed]
    omega

/-- A batch announces all its spare copies exactly when they are shown. -/
theorem receive_shown_iff (apart : ToldApart names) (h : Tracked names s) (enforce : Bool)
    (new : ∀ k ∈ batch.filterMap AbilityReceipt.ability, k ∈ names)
    (agree : s.bridge.spareCopies = s.announced) :
    (step s (.receive batch enforce)).bridge.spareCopies =
        (step s (.receive batch enforce)).announced ↔
      SparesShown s (.receive batch enforce) := by
  have bridge : (step s (.receive batch enforce)).bridge =
      batch.foldl BridgeState.receive s.bridge := push_bridge enforce _
  rw [receive_announced apart h enforce new, bridge, spareCopies_foldl, agree, SparesShown]
  generalize (batch.foldl BridgeState.receive s.bridge).abilitiesReceived = d'
  generalize s.bridge.abilitiesReceived = d
  generalize 15 - s.switch.inboundSystemBubbles.toList.length = room
  have shares : ∀ k ∈ d'.keys.toFinset, shownShare d d' k ≤ newSpareCopies d d' k :=
    fun k _ => shownShare_le d d' k
  have le := Finset.sum_le_sum shares
  have all_shown : ∑ k ∈ d'.keys.toFinset, shownShare d d' k =
        ∑ k ∈ d'.keys.toFinset, newSpareCopies d d' k ↔
      ∀ name ∈ d'.keys, newSpareCopies d d' name ≠ 0 →
        name ≠ "" ∧ name ∈ smallest kAbilityTableMax d'.keys := by
    rw [Finset.sum_eq_sum_iff_of_le shares]
    constructor
    · intro same name here spare
      rw [← same name (List.mem_toFinset.2 here), shownShare] at spare
      split_ifs at spare with placed unnamed
      · exact absurd rfl spare
      · exact ⟨unnamed, placed⟩
      · exact absurd rfl spare
    · intro shown k here
      by_cases spare : newSpareCopies d d' k = 0
      · have none_shown := shownShare_le d d' k
        omega
      · obtain ⟨named, placed⟩ := shown k (List.mem_toFinset.1 here) spare
        rw [shownShare, if_pos placed, if_neg named]
  have listed : (d'.keys.map (newSpareCopies d d')).sum =
      ∑ k ∈ d'.keys.toFinset, newSpareCopies d d' k := (List.sum_toFinset _ d'.distinct).symm
  rw [← all_shown, listed]
  omega

end Batch

theorem step_tracked {names : List String} (apart : ToldApart names) (s : State) (e : Event)
    (new : ∀ k ∈ e.names, k ∈ names) (h : Tracked names s) : Tracked names (step s e) := by
  cases e with
  | receive batch enforce => exact receive_tracked apart h enforce new
  | otherBubble bubble => exact ⟨h.known, h.table, h.announced_le⟩
  | drawMain => exact ⟨h.known, h.table, h.announced_le⟩

/-- A copy missed once is missed for good. -/
theorem announced_lt_step {names : List String} (apart : ToldApart names) (s : State) (e : Event)
    (new : ∀ k ∈ e.names, k ∈ names) (h : Tracked names s)
    (missed : s.announced < s.bridge.spareCopies) :
    (step s e).announced < (step s e).bridge.spareCopies := by
  cases e with
  | otherBubble bubble => exact missed
  | drawMain => exact missed
  | receive batch enforce =>
      have bridge : (step s (.receive batch enforce)).bridge =
          batch.foldl BridgeState.receive s.bridge := push_bridge enforce _
      rw [receive_announced apart h enforce new, bridge, spareCopies_foldl]
      generalize (batch.foldl BridgeState.receive s.bridge).abilitiesReceived = d'
      have le := Finset.sum_le_sum fun k (_ : k ∈ d'.keys.toFinset) =>
        shownShare_le s.bridge.abilitiesReceived d' k
      omega

theorem spareCopies_eq_announced_iff (events : List Event)
    (apart : ToldApart (receivedNames events)) :
    (run step {} events).bridge.spareCopies = (run step {} events).announced ↔
      Along step SparesShown {} events := by
  have known : ∀ e ∈ events, ∀ k ∈ e.names, k ∈ receivedNames events :=
    fun e member k here => List.mem_flatMap.2 ⟨e, member, here⟩
  apply end_iff_along_of (P := fun e => ∀ k ∈ e.names, k ∈ receivedNames events)
    (J := Tracked (receivedNames events)) (I := fun s => s.bridge.spareCopies = s.announced)
    (K := fun s => s.announced < s.bridge.spareCopies)
  · exact step_tracked apart
  · intro s e new h agree shown
    cases e with
    | receive batch enforce => exact (receive_shown_iff apart h enforce new agree).2 shown
    | otherBubble bubble => exact agree
    | drawMain => exact agree
  · intro s e new h agree missed
    cases e with
    | receive batch enforce =>
        have tracked := receive_tracked apart h enforce new
        have differ := (receive_shown_iff apart h enforce new agree).not.2 missed
        have le := tracked.announced_le
        omega
    | otherBubble bubble => exact absurd trivial missed
    | drawMain => exact absurd trivial missed
  · exact announced_lt_step apart
  · intro s _ agree missed
    omega
  · exact ⟨fun k here => absurd here List.not_mem_nil, rfl, le_rfl⟩
  · rfl
  · exact known

/-- The count of a name is the number of its receipts in the run. -/
theorem run_getD (s : State) (events : List Event) (name : String) :
    (run step s events).bridge.abilitiesReceived.getD name 0 =
      s.bridge.abilitiesReceived.getD name 0 + (receivedNames events).count name := by
  induction events generalizing s with
  | nil => rfl
  | cons e events ih =>
      have here : (step s e).bridge.abilitiesReceived.getD name 0 =
          s.bridge.abilitiesReceived.getD name 0 + e.names.count name := by
        cases e with
        | receive batch enforce =>
            rw [step, push_bridge]
            exact foldl_receive_getD s.bridge batch name
        | otherBubble bubble => rfl
        | drawMain => rfl
      rw [run_cons, ih, here, receivedNames, receivedNames, List.flatMap_cons, List.count_append]
      omega

/-- Where names differ in their fields, coins, spare copies and bubbles agree if and only
if no chain has gone past its first move and each spare copy was shown when it arrived. -/
theorem coins_and_bubbles_agree_iff (events : List Event)
    (apart : ToldApart (receivedNames events)) :
    Agrees (run step {} events) ↔
      FirstMovesOnly (fun name => (receivedNames events).count name) ∧
        Along step SparesShown {} events := by
  have tracked : Tracked (receivedNames events) (run step {} events) := by
    have known : Along step (fun _ e => ∀ k ∈ e.names, k ∈ receivedNames events) {} events :=
      along_of_forall fun e member _ k here => List.mem_flatMap.2 ⟨e, member, here⟩
    apply throughout_end
    apply guarded_run (fun s e h new => step_tracked apart s e new h) _ known
    exact ⟨fun k here => absurd here List.not_mem_nil, rfl, le_rfl⟩
  have counts : (fun name => (run step {} events).bridge.abilitiesReceived.getD name 0) =
      fun name => (receivedNames events).count name := by
    funext name
    rw [run_getD]
    exact Nat.zero_add _
  rw [← spareCopies_eq_announced_iff events apart, ← counts, Agrees, and_congr_left_iff]
  intro agree
  apply abilityCoins_eq_iff
  have le := tracked.announced_le
  omega

/-- Three copies of a single move and the first of a chain, with a frame between. -/
theorem coins_and_bubbles_agree_iff_wallSlides :
    Agrees (run step {}
        [.receive [.bonus "Wall Slide", .bonus "Progressive Jump"] true, .drawMain,
          .receive [.bonus "Wall Slide", .bonus "Wall Slide"] true]) ↔
      FirstMovesOnly (fun name => (receivedNames
          [.receive [.bonus "Wall Slide", .bonus "Progressive Jump"] true, .drawMain,
            .receive [.bonus "Wall Slide", .bonus "Wall Slide"] true]).count name) ∧
        Along step SparesShown {}
          [.receive [.bonus "Wall Slide", .bonus "Progressive Jump"] true, .drawMain,
            .receive [.bonus "Wall Slide", .bonus "Wall Slide"] true] :=
  coins_and_bubbles_agree_iff _ (by decide)

/-- Two copies unlock two moves, and the coin total counts the second. -/
theorem second_move_pays_coins :
    ¬ Agrees (run step {}
      [.receive [.bonus "Progressive Crouch"] true,
        .receive [.bonus "Progressive Crouch"] true]) := by
  decide

end AbilityCoins

end SmoArchipelago.Bridge
