import SmoArchipelago.Bridge.AbilityCoins
import SmoArchipelago.Switch.Kingdoms

/-! # Outstanding moons

The moons received for a kingdom less those paid to it. The bridge keeps its kingdoms under
the names of the item table and translates at the wire, where one kingdom has another
name. -/

namespace SmoArchipelago.Bridge

open Library Switch ApProtocol

/-! ## Kingdom names -/

def apToSwitchKingdom : Dict String String where
  entries := [("Bowser's", "Bowser")]
  distinct := by decide

def kingdomApToSwitch (kingdom : String) : String := apToSwitchKingdom.getD kingdom kingdom

def switchToApKingdom : Dict String String where
  entries := [("Bowser", "Bowser's")]
  distinct := by decide

def kingdomSwitchToAp (kingdom : String) : String := switchToApKingdom.getD kingdom kingdom

/-- The bridge's name of a kingdom of the Switch's table. -/
def apKingdom (bit : Fin 17) : String := kingdomSwitchToAp (kingdomForBit bit)

/-- The bit under which the Switch files a kingdom of the bridge. -/
def bitOf (kingdom : String) : Option (Fin 17) :=
  kingdomBitFor (wireName (kingdomApToSwitch kingdom))

@[simp] theorem bitOf_apKingdom : ∀ bit, bitOf (apKingdom bit) = some bit := by decide

theorem apKingdom_injective : Function.Injective apKingdom := by
  intro bit bit' same
  have bits := congrArg bitOf same
  rw [bitOf_apKingdom, bitOf_apKingdom] at bits
  exact Option.some.inj bits

/-! ## The balance -/

namespace BridgeState

/-- `totals` is the reading of a pay snapshot under the bridge's names. -/
def applyPaySnapshot (s : BridgeState) (totals : Dict String ℕ) : BridgeState :=
  { s with payShineNumByKingdom := some totals }

/-- `out[k] = max(0, lifetime - pay)` for the kingdoms received. -/
def receivedBalances (received pay : Dict String ℕ) : Dict String ℕ :=
  received.entries.foldl (fun out e => out.set e.1 (e.2 - pay.getD e.1 0)) .empty

/-- `out.setdefault(k, 0)` for the kingdoms paid to. -/
def withPaid (out : Dict String ℕ) (paid : List String) : Dict String ℕ :=
  paid.foldl (fun out k => if k ∈ out.keys then out else out.set k 0) out

/-- Nothing until a reading has arrived. -/
def computeOutstanding (s : BridgeState) : Option (Dict String ℕ) :=
  s.payShineNumByKingdom.map fun pay =>
    withPaid (receivedBalances s.moonsReceivedByKingdom pay) pay.keys

theorem addReceivedItem_pay (s : BridgeState) (evt : ItemEvent) :
    (s.addReceivedItem evt).payShineNumByKingdom = s.payShineNumByKingdom := by
  rw [addReceivedItem]
  dsimp only
  split_ifs <;> rfl

theorem get?_receivedBalances_fold (es : List (String × ℕ)) (distinct : (es.map Prod.fst).Nodup)
    (pay out : Dict String ℕ) (k : String) :
    (es.foldl (fun out e => out.set e.1 (e.2 - pay.getD e.1 0)) out).get? k =
      match Dict.find k es with
      | some n => some (n - pay.getD k 0)
      | none => out.get? k := by
  induction es generalizing out with
  | nil => rfl
  | cons e es ih =>
      obtain ⟨fresh, rest⟩ := List.nodup_cons.1 distinct
      rw [List.foldl_cons, ih rest, Dict.find]
      by_cases here : e.1 = k
      · have absent : Dict.find k es = none := by
          cases found : Dict.find k es with
          | none => rfl
          | some n =>
              have member := List.mem_map_of_mem (f := Prod.fst) ((Dict.find_eq_some rest).1 found)
              exact absurd member (here ▸ fresh)
        rw [if_pos here, absent]
        simp only [Dict.get?_set, here, if_true]
      · have other : ¬ k = e.1 := fun same => here same.symm
        rw [if_neg here]
        simp only [Dict.get?_set, other, if_false]

theorem get?_receivedBalances (received pay : Dict String ℕ) (k : String) :
    (receivedBalances received pay).get? k = (received.get? k).map (· - pay.getD k 0) := by
  rw [receivedBalances, get?_receivedBalances_fold _ received.distinct, ← Dict.get?]
  cases received.get? k with
  | none => rfl
  | some n => rfl

theorem get?_withPaid (out : Dict String ℕ) (paid : List String) (k : String) :
    (withPaid out paid).get? k =
      (out.get? k).orElse fun _ => if k ∈ paid then some 0 else none := by
  induction paid generalizing out with
  | nil => simp [withPaid]
  | cons p paid ih =>
      have unfolded : withPaid out (p :: paid) =
          withPaid (if p ∈ out.keys then out else out.set p 0) paid := rfl
      rw [unfolded, ih]
      by_cases known : p ∈ out.keys
      · rw [if_pos known]
        obtain ⟨n, found⟩ := Dict.mem_keys_iff.1 known
        by_cases same : k = p
        · rw [same, found]
          rfl
        · simp [same]
      · rw [if_neg known, Dict.get?_set]
        by_cases same : k = p
        · have absent : out.get? p = none := by
            cases found : out.get? p with
            | none => rfl
            | some n => exact absurd (Dict.mem_keys_iff.2 ⟨n, found⟩) known
          simp [same, absent]
        · simp [same]

/-- The balance of a kingdom, and which kingdoms have one. -/
theorem computeOutstanding_get? {s : BridgeState} {pay : Dict String ℕ}
    (reading : s.payShineNumByKingdom = some pay) {out : Dict String ℕ}
    (computed : s.computeOutstanding = some out) (k : String) :
    out.get? k = if k ∈ s.moonsReceivedByKingdom.keys ∨ k ∈ pay.keys then
      some (s.moonsReceivedByKingdom.getD k 0 - pay.getD k 0) else none := by
  rw [computeOutstanding, reading, Option.map_some] at computed
  rw [← Option.some.inj computed, get?_withPaid, get?_receivedBalances]
  cases received : s.moonsReceivedByKingdom.get? k with
  | some n =>
      have known : k ∈ s.moonsReceivedByKingdom.keys := Dict.mem_keys_iff.2 ⟨n, received⟩
      rw [if_pos (Or.inl known), s.moonsReceivedByKingdom.getD_of_mem (Dict.get?_eq_some.1 received)]
      rfl
  | none =>
      have unknown : k ∉ s.moonsReceivedByKingdom.keys := by
        rw [Dict.mem_keys_iff, received]
        rintro ⟨n, found⟩
        cases found
      simp [unknown, Dict.getD_of_not_mem unknown]

end BridgeState

/-! ## The message -/

def festivalZeroedKingdoms : List String :=
  ["Metro", "Snow", "Seaside", "Luncheon", "Ruined", "Bowser's", "Moon"]

/-- `_outstanding_entries_for_switch`: the balances by name; under the festival goal some
are zero. -/
def outstandingEntries (festival : Bool) (out : Dict String ℕ) : List (String × ℕ) :=
  (sortedCounts out).map fun e =>
    (e.1, if festival ∧ e.1 ∈ festivalZeroedKingdoms then 0 else e.2)

/-- `OutstandingEntry.kMaxEntries` -/
def kMaxOutstanding : ℕ := 17

/-- An entry as the Switch reads it. -/
def decodedEntry (e : String × ℕ) : OutstandingEntry :=
  ⟨wireName (kingdomApToSwitch e.1), Json.Reader.toInt32 (Json.Reader.toInt64 e.2)⟩

/-- The entries of a message that the Switch decodes. -/
def decodedOutstanding (entries : List (String × ℕ)) : List OutstandingEntry :=
  (entries.take kMaxOutstanding).map decodedEntry

/-- A count once it has crossed the wire. -/
def wireCount (n : ℕ) : ℤ := max 0 (Json.Reader.toInt32 (Json.Reader.toInt64 n))

theorem wireCount_of_lt {n : ℕ} (small : n < 2 ^ 31) : wireCount n = n := by
  rw [wireCount, Json.Reader.toInt32, Json.Reader.toInt64, Int.bmod_bmod_of_dvd (by decide)]
  rw [Int.bmod_eq_of_le (by omega) (by omega)]
  omega

theorem applyEntry_decoded (balances : Balances) (bit : Fin 17) (n : ℕ) :
    applyEntry balances (decodedEntry (apKingdom bit, n)) =
      Function.update balances bit (wireCount n) := by
  have named : ∀ bit, (wireName (kingdomApToSwitch (apKingdom bit))).isEmpty = false := by decide
  have known : kingdomBitFor (decodedEntry (apKingdom bit, n)).kingdom = some bit :=
    bitOf_apKingdom bit
  have clamp (count : ℤ) : (if count < 0 then 0 else count) = max 0 count := by
    split_ifs <;> omega
  rw [applyEntry_of_bit balances (named bit) known, clamp, decodedEntry, wireCount]

section Entries

variable {es : List (String × ℕ)} (known : ∀ e ∈ es, ∃ bit, e.1 = apKingdom bit)

include known in
/-- A kingdom without an entry keeps its balance. -/
theorem foldl_applyEntry_of_not_mem (balances : Balances) {bit : Fin 17}
    (absent : apKingdom bit ∉ es.map Prod.fst) :
    (es.map decodedEntry).foldl applyEntry balances bit = balances bit := by
  induction es generalizing balances with
  | nil => rfl
  | cons e es ih =>
      obtain ⟨name, n⟩ := e
      obtain ⟨other, rfl⟩ := known (name, n) List.mem_cons_self
      rw [List.map_cons, List.mem_cons, not_or] at absent
      have distinct : bit ≠ other := fun same => absent.1 (congrArg apKingdom same)
      rw [List.map_cons, List.foldl_cons, applyEntry_decoded,
        ih (fun e member => known e (List.mem_cons_of_mem _ member)) _ absent.2,
        Function.update_of_ne distinct]

include known in
/-- The balance of a kingdom is that of its entry. -/
theorem foldl_applyEntry_of_mem (distinct : (es.map Prod.fst).Nodup) (balances : Balances)
    {bit : Fin 17} {n : ℕ} (member : (apKingdom bit, n) ∈ es) :
    (es.map decodedEntry).foldl applyEntry balances bit = wireCount n := by
  induction es generalizing balances with
  | nil => cases member
  | cons e es ih =>
      have known_rest : ∀ e ∈ es, ∃ bit, e.1 = apKingdom bit :=
        fun e member => known e (List.mem_cons_of_mem _ member)
      obtain ⟨fresh, rest⟩ := List.nodup_cons.1 distinct
      rw [List.map_cons, List.foldl_cons]
      cases List.mem_cons.1 member with
      | inl first =>
          rw [← first] at fresh ⊢
          rw [applyEntry_decoded, foldl_applyEntry_of_not_mem known_rest _ fresh,
            Function.update_self]
      | inr later => exact ih known_rest rest _ later

end Entries

/-- The totals of a pay snapshot under the bridge's names; a nameless entry is skipped. -/
def paySnapshotTotals (entries : List (String × ℤ)) : Dict String ℕ :=
  entries.foldl
    (fun totals e => if e.1 = "" then totals else totals.set (kingdomSwitchToAp e.1) e.2.toNat)
    .empty

end SmoArchipelago.Bridge
