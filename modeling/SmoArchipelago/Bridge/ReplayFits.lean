import SmoArchipelago.Library.OptionMap
import SmoArchipelago.Bridge.ServerPayload

/-! # The replay and the limits of the wire

The chunked messages stay below the entry caps by their chunk sizes. The others grow with the
state, and the list of checked locations has neither a chunk nor a bound. -/

namespace SmoArchipelago.Bridge

open Library JsonText Switch

/-- No line raises, and the Switch keeps every entry. -/
def ReplayFits (p : ServerPayload) (b : BridgeState) : Prop :=
  ((runPostHelloReplay p b).mapM encode).isSome ∧
    ∀ msg ∈ runPostHelloReplay p b, msg.entries.1 ≤ msg.entries.2

theorem replayFits_iff (p : ServerPayload) (b : BridgeState) :
    ReplayFits p b ↔ ∀ msg ∈ runPostHelloReplay p b, msg.Fits := by
  rw [ReplayFits, mapM_isSome]
  exact forall₂_and.symm

/-- The counts and the texts of the state and of the payload are small enough. -/
structure SmallEnough (p : ServerPayload) (b : BridgeState) : Prop where
  outstanding : ∀ out ∈ b.computeOutstanding, out.size ≤ 17 ∧
    30 + listSize ((outstandingEntries p.festival out).map fun e =>
      23 + textSize (kingdomApToSwitch e.1) + digits e.2) ≤ maxLineBytes
  checkedLocations : b.checkedLocations.length ≤ 128 ∧
    29 + listSize (b.checkedLocations.map fun ref => ref.replaySize) ≤ maxLineBytes
  items : ∀ evt ∈ b.receivedItems, evt.item.kind ≠ ItemKind.moon.value →
    (itemMsg evt).lineSize ≤ maxLineBytes
  captures : p.capturesanityEnabled = false → ∀ c ∈ p.captures,
    63 + textSize c.1 + textSize c.2 ≤ maxLineBytes
  talkatoo : ∀ payload ∈ p.talkatoo, payload.enabled = true →
    (∀ k ∈ talkatooStale p.talkatooEverShipped payload.kingdoms,
      60 + textSize (kingdomApToSwitch k) ≤ maxLineBytes) ∧
    ∀ e ∈ payload.kingdoms.entries, e.2.length ≤ 96 ∧
      58 + textSize (kingdomApToSwitch e.1) + listSize (e.2.map fun m => 2 + textSize m) ≤ maxLineBytes
  shopLabels : ∀ labels ∈ p.shopLabels, labels.length ≤ 32 ∧
    30 + listSize (labels.map fun e => e.entrySize) ≤ maxLineBytes
  kingdomGates : ∀ gates ∈ p.kingdomGates, gates.size ≤ 17 ∧
    32 + listSize (gates.entries.map fun e => 22 + textSize (kingdomApToSwitch e.1) + digits e.2) ≤
      maxLineBytes
  entranceMap : ∀ bijection ∈ p.entranceMap, ∀ i chunk,
    (chunks entranceMapChunk (compileStageRemaps bijection p.entranceStages))[i]? = some chunk →
      40 + listSize (chunk.map fun e => e.entrySize) + boolSize (i = 0) ≤ maxLineBytes
  coins : 27 + digits b.computeTotalCoinGrant ≤ maxLineBytes
  abilities : b.getAbilityCounts.size ≤ kAbilityStateMax ∧
    43 + listSize ((sortedCounts b.getAbilityCounts).map fun e => 23 + textSize e.1 + digits e.2) +
      boolSize p.abilitysanityEnabled ≤ maxLineBytes
  palette : ∀ chunk ∈ chunks scoutChunkSize b.shinePalette.entries,
    31 + listSize (chunk.map fun e => 25 + digits e.1 + digits e.2) ≤ maxLineBytes
  apConn : 26 + textSize b.apConn ≤ maxLineBytes

/-! ## Each part of the replay -/

section Parts

variable (p : ServerPayload) (b : BridgeState)

theorem outstanding_fits (festival : Bool) (out : Dict String ℕ) :
    (WireMsg.outstanding (outstandingEntries festival out)).Fits ↔ out.size ≤ 17 ∧
      30 + listSize ((outstandingEntries festival out).map fun e =>
        23 + textSize (kingdomApToSwitch e.1) + digits e.2) ≤ maxLineBytes := by
  have count : (outstandingEntries festival out).length = out.size := by
    rw [outstandingEntries, List.length_map, sortedCounts, List.length_insertionSort, Dict.size]
  rw [WireMsg.fits_iff, and_comm, WireMsg.entries, count]
  rfl

theorem checkedReplay_fits (ids : List ItemRef) :
    (WireMsg.checkedReplay ids).Fits ↔ ids.length ≤ 128 ∧
      29 + listSize (ids.map fun ref => ref.replaySize) ≤ maxLineBytes := by
  rw [WireMsg.fits_iff, and_comm]
  rfl

theorem apState_fits (conn : String) :
    (WireMsg.apState conn).Fits ↔ 26 + textSize conn ≤ maxLineBytes := by
  rw [WireMsg.fits_iff]
  exact and_iff_left le_rfl

theorem item_fits (msg : ItemMsg) :
    (WireMsg.item msg).Fits ↔ msg.lineSize ≤ maxLineBytes := by
  rw [WireMsg.fits_iff]
  exact and_iff_left le_rfl

theorem items_fit : (∀ evt ∈ b.receivedItems.filter fun evt =>
      evt.item.kind ≠ ItemKind.moon.value, (WireMsg.item (itemMsg evt)).Fits) ↔
    ∀ evt ∈ b.receivedItems, evt.item.kind ≠ ItemKind.moon.value →
      (itemMsg evt).lineSize ≤ maxLineBytes := by
  simp only [List.mem_filter, decide_eq_true_eq, and_imp, item_fits]

theorem captures_fit : (∀ msg ∈ (if p.capturesanityEnabled then []
      else p.captures.map fun c => WireMsg.item (captureUnlock c)), msg.Fits) ↔
    (p.capturesanityEnabled = false → ∀ c ∈ p.captures,
      63 + textSize c.1 + textSize c.2 ≤ maxLineBytes) := by
  have line (c : String × String) :
      (captureUnlock c).lineSize = 63 + textSize c.1 + textSize c.2 := by
    have capture : textSize ItemKind.capture.value = 7 ∧ textSize "" = 0 := by decide
    simp only [captureUnlock, ItemMsg.lineSize, capture.1, capture.2, optionSize, Option.map_none]
    omega
  cases p.capturesanityEnabled with
  | true => simp
  | false =>
      rw [if_neg Bool.false_ne_true, List.forall_mem_map]
      simp only [item_fits, line, true_imp_iff]

theorem talkatoo_fits (payload : TalkatooPayload) (everShipped : List String) :
    (∀ msg ∈ pushTalkatooPool payload everShipped, msg.Fits) ↔ (payload.enabled = true →
      (∀ k ∈ talkatooStale everShipped payload.kingdoms,
        60 + textSize (kingdomApToSwitch k) ≤ maxLineBytes) ∧
      ∀ e ∈ payload.kingdoms.entries, e.2.length ≤ 96 ∧
        58 + textSize (kingdomApToSwitch e.1) + listSize (e.2.map fun m => 2 + textSize m) ≤
          maxLineBytes) := by
  have clear (k : String) :
      (talkatooClear k).Fits ↔ 60 + textSize (kingdomApToSwitch k) ≤ maxLineBytes := by
    have line : (talkatooClear k).lineSize = 60 + textSize (kingdomApToSwitch k) := by
      simp only [talkatooClear, WireMsg.lineSize, boolSize, listSize, List.map_nil, List.sum_nil,
        List.length_nil, if_true]
      omega
    rw [WireMsg.fits_iff, line]
    exact and_iff_left (Nat.zero_le _)
  have pool (e : String × List String) : (talkatooKingdom e).Fits ↔ e.2.length ≤ 96 ∧
      58 + textSize (kingdomApToSwitch e.1) + listSize (e.2.map fun m => 2 + textSize m) ≤
        maxLineBytes := by
    rw [WireMsg.fits_iff, and_comm]
    rfl
  have off : talkatooDisabled.Fits := by
    rw [WireMsg.fits_iff]
    decide
  rw [pushTalkatooPool]
  cases payload.enabled with
  | false => simp [off]
  | true =>
      rw [if_pos rfl, List.forall_mem_append, List.forall_mem_map, List.forall_mem_map]
      simp only [clear, pool, true_imp_iff]

theorem shopLabels_fits (labels : List ShopLabelEntry) :
    (WireMsg.shopLabels labels).Fits ↔ labels.length ≤ 32 ∧
      30 + listSize (labels.map fun e => e.entrySize) ≤ maxLineBytes := by
  rw [WireMsg.fits_iff, and_comm]
  rfl

theorem kingdomGates_fits (gates : Dict String ℤ) :
    (WireMsg.kingdomGates gates.entries).Fits ↔ gates.size ≤ 17 ∧
      32 + listSize (gates.entries.map fun e =>
        22 + textSize (kingdomApToSwitch e.1) + digits e.2) ≤ maxLineBytes := by
  rw [WireMsg.fits_iff, and_comm]
  rfl

/-- A chunk is below the cap in any case. -/
theorem entranceMap_fits (rows : List StageRemap) :
    (∀ msg ∈ pushEntranceMap rows, msg.Fits) ↔ ∀ i chunk,
      (chunks entranceMapChunk rows)[i]? = some chunk →
        40 + listSize (chunk.map fun e => e.entrySize) + boolSize (i = 0) ≤ maxLineBytes := by
  rw [pushEntranceMap]
  split_ifs with none_left
  · have reset : (WireMsg.entranceMap [] true).Fits := by
      rw [WireMsg.fits_iff]
      decide
    rw [none_left]
    refine ⟨fun _ i chunk here => ?_, fun _ msg member => ?_⟩
    · cases here
    · rw [List.mem_singleton.1 member]
      exact reset
  · have fits (i : ℕ) (chunk : List StageRemap) (here : (chunks entranceMapChunk rows)[i]? = some chunk) :
        (WireMsg.entranceMap chunk (i = 0)).Fits ↔
          40 + listSize (chunk.map fun e => e.entrySize) + boolSize (i = 0) ≤ maxLineBytes := by
      have short : chunk.length ≤ 64 :=
        (length_le_of_mem_chunks (List.mem_of_getElem? here)).trans (by decide)
      rw [WireMsg.fits_iff]
      exact and_iff_left short
    constructor
    · intro all i chunk here
      rw [← fits i chunk here]
      apply all
      apply List.mem_of_getElem? (i := i)
      rw [List.getElem?_mapIdx, here]
      rfl
    · intro small msg member
      obtain ⟨i, here⟩ := List.getElem?_of_mem member
      rw [List.getElem?_mapIdx] at here
      obtain ⟨chunk, there, rfl⟩ := Option.map_eq_some_iff.1 here
      exact (fits i chunk there).2 (small i chunk there)

theorem coins_fit : (∀ msg ∈ (if b.computeTotalCoinGrant = 0 then []
      else [WireMsg.coinGrant b.computeTotalCoinGrant]), msg.Fits) ↔
    27 + digits b.computeTotalCoinGrant ≤ maxLineBytes := by
  split_ifs with nothing
  · rw [nothing]
    exact ⟨fun _ => by decide, fun _ => nofun⟩
  · rw [List.forall_mem_singleton, WireMsg.fits_iff]
    exact and_iff_left le_rfl

theorem abilities_fit (enforce : Bool) :
    (∀ msg, abilityStateMsg enforce b = some msg → (WireMsg.abilityState msg).Fits) ↔
      b.getAbilityCounts.size ≤ kAbilityStateMax ∧
        43 + listSize ((sortedCounts b.getAbilityCounts).map fun e =>
          23 + textSize e.1 + digits e.2) + boolSize enforce ≤ maxLineBytes := by
  rw [abilityStateMsg]
  split_ifs with quiet
  · have none_received : b.getAbilityCounts.size = 0 := by
      rw [Dict.size, quiet.2, List.length_nil]
    have none_sorted : sortedCounts b.getAbilityCounts = [] := by
      rw [sortedCounts, quiet.2]
      rfl
    rw [none_received, none_sorted, quiet.1]
    exact ⟨fun _ => by decide, fun _ msg unsent => False.elim unsent⟩
  · have count : (sortedCounts b.getAbilityCounts).length = b.getAbilityCounts.size :=
      List.length_insertionSort _ _
    have msg_fits : (WireMsg.abilityState ⟨sortedCounts b.getAbilityCounts, enforce⟩).Fits ↔
        b.getAbilityCounts.size ≤ kAbilityStateMax ∧
          43 + listSize ((sortedCounts b.getAbilityCounts).map fun e =>
            23 + textSize e.1 + digits e.2) + boolSize enforce ≤ maxLineBytes := by
      rw [WireMsg.fits_iff, and_comm, WireMsg.entries, count]
      rfl
    rw [← msg_fits]
    simp only [Option.some.injEq, forall_eq']

theorem palette_fits (palette : List (ℤ × ℤ)) :
    (∀ chunk ∈ chunks scoutChunkSize palette, (WireMsg.shineScouts chunk).Fits) ↔
      ∀ chunk ∈ chunks scoutChunkSize palette,
        31 + listSize (chunk.map fun e => 25 + digits e.1 + digits e.2) ≤ maxLineBytes := by
  refine forall₂_congr fun chunk member => ?_
  have short : chunk.length ≤ 256 := (length_le_of_mem_chunks member).trans (by decide)
  rw [WireMsg.fits_iff]
  exact and_iff_left short

end Parts

/-- The replay fits the wire exactly when the state and the payload are small enough. -/
theorem replay_fits_wire (p : ServerPayload) (b : BridgeState) :
    ReplayFits p b ↔ SmallEnough p b := by
  rw [replayFits_iff, runPostHelloReplay]
  simp only [List.forall_mem_append, List.forall_mem_map, List.forall_mem_flatMap,
    List.forall_mem_singleton, Option.mem_toList, outstanding_fits, checkedReplay_fits, items_fit,
    captures_fit, talkatoo_fits, shopLabels_fits, kingdomGates_fits, entranceMap_fits, coins_fit,
    abilities_fit, palette_fits, apState_fits]
  constructor
  · rintro ⟨⟨⟨⟨⟨⟨⟨⟨⟨⟨⟨outstanding, checked⟩, items⟩, captures⟩, talkatoo⟩, shop⟩, gates⟩, entrance⟩,
      coins⟩, abilities⟩, palette⟩, apConn⟩
    exact ⟨outstanding, checked, items, captures, talkatoo, shop, gates, entrance, coins, abilities,
      palette, apConn⟩
  · intro h
    exact ⟨⟨⟨⟨⟨⟨⟨⟨⟨⟨⟨h.outstanding, h.checkedLocations⟩, h.items⟩, h.captures⟩, h.talkatoo⟩,
      h.shopLabels⟩, h.kingdomGates⟩, h.entranceMap⟩, h.coins⟩, h.abilities⟩, h.palette⟩, h.apConn⟩

/-! ## Too many checks -/

/-- A moon that a Switch reports by its uid. -/
def rawMoon (uid : ℕ) : ItemRef := { shineUid := some uid }

/-- The mirror after `n` reported moons. -/
def reported (n : ℕ) : BridgeState :=
  ((List.range n).map rawMoon).foldl BridgeState.addCheckedLocation {}

theorem reported_checks (n : ℕ) :
    (reported n).checkedLocations = (List.range n).map rawMoon ∧
      ∀ ref, ref ∈ (reported n).checkedKeys ↔ ∃ uid < n, ref = rawMoon uid := by
  induction n with
  | zero =>
      refine ⟨rfl, fun ref => ⟨fun member => ?_, fun ⟨uid, less, _⟩ => absurd less (Nat.not_lt_zero _)⟩⟩
      exact absurd member (Finset.notMem_empty ref)
  | succ n ih =>
      have last : reported (n + 1) = (reported n).addCheckedLocation (rawMoon n) := by
        rw [reported, List.range_succ, List.map_append, List.foldl_append]
        rfl
      have key : BridgeState.checkKey (rawMoon n) = rawMoon n := rfl
      have fresh : rawMoon n ∉ (reported n).checkedKeys := by
        rw [ih.2]
        rintro ⟨uid, less, same⟩
        have uids := congrArg ItemRef.shineUid same
        simp only [rawMoon, Option.some.injEq, Nat.cast_inj] at uids
        omega
      rw [last, BridgeState.addCheckedLocation, key, if_neg fresh]
      constructor
      · rw [List.range_succ, List.map_append, ← ih.1]
        rfl
      · intro ref
        rw [Finset.mem_insert, ih.2]
        constructor
        · rintro (rfl | ⟨uid, less, rfl⟩)
          · exact ⟨n, Nat.lt_succ_self n, rfl⟩
          · exact ⟨uid, less.trans (Nat.lt_succ_self n), rfl⟩
        · rintro ⟨uid, less, rfl⟩
          cases Nat.lt_succ_iff_lt_or_eq.1 less with
          | inl before => exact .inr ⟨uid, before, rfl⟩
          | inr here => exact .inl (congrArg rawMoon here)

theorem encode_reported {n : ℕ} (many : 510 < n) :
    encode (.checkedReplay (reported n).checkedLocations) = none := by
  have each (uid : ℕ) : (rawMoon uid).replaySize = 15 := by
    have kind : textSize ItemKind.moon.value = 4 := by decide
    simp only [rawMoon, ItemRef.replaySize, kind, optionSize, Option.map_none, Nat.add_zero]
  have sizes : ((reported n).checkedLocations.map fun ref => ref.replaySize) =
      List.replicate n 15 := by
    rw [(reported_checks n).1, List.map_map]
    apply List.eq_replicate_iff.2
    refine ⟨by simp, fun size member => ?_⟩
    obtain ⟨uid, -, rfl⟩ := List.mem_map.1 member
    exact each uid
  rw [encode, size_toWire, WireMsg.lineSize, sizes, if_neg]
  rw [listSize, List.sum_replicate_nat, List.length_replicate, maxLineBytes]
  omega

theorem not_replayFits_of_encode {p : ServerPayload} {b : BridgeState}
    (raises : encode (.checkedReplay b.checkedLocations) = none) : ¬ ReplayFits p b := by
  intro fits
  have here := (replayFits_iff p b).1 fits (.checkedReplay b.checkedLocations) (by
    simp [runPostHelloReplay])
  rw [WireMsg.Fits, raises] at here
  exact Bool.false_ne_true here.1

/-- After 511 reported moons the replay raises. -/
theorem replay_of_511_moons_raises :
    encode (.checkedReplay (reported 511).checkedLocations) = none ∧
      ¬ ReplayFits {} (reported 511) :=
  ⟨encode_reported (by decide), not_replayFits_of_encode (encode_reported (by decide))⟩

end SmoArchipelago.Bridge
