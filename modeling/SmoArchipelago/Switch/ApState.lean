import SmoArchipelago.Library.ProbeTable
import SmoArchipelago.Library.RingBuffer
import SmoArchipelago.Switch.ApProtocol

/-! # Game-state mirror: checks, their hash and the bounded containers

The containers shared by the frame thread and the socket thread, and the hash by
which checks are deduplicated.

## Implementation notes

Each container call is one step: a ring has one producer and one consumer, and the
cursor a call publishes is written once, at its end. -/

namespace SmoArchipelago.Switch

open Library ApProtocol

/-- The single-producer single-consumer ring of the source. -/
abbrev SpscRing (α : Type) (n : ℕ) := RingBuffer α n

instance neZero4096 : NeZero (4096 : ℕ) := ⟨Nat.succ_ne_zero _⟩

/-- The hash set of the source; slot value 0 is free. -/
abbrev FlatHashSet (n : ℕ) [NeZero n] := ProbeTable UInt64 n 0 UInt64.toNat

namespace FlatHashSet

/-- Value 0 is stored as 1. -/
def stored (h : UInt64) : UInt64 := if h = 0 then 1 else h

theorem stored_ne_zero (h : UInt64) : stored h ≠ 0 := by
  unfold stored
  split_ifs with zero
  · decide
  · exact zero

variable {n : ℕ} [NeZero n]

def tryInsert (t : FlatHashSet n) (h : UInt64) : Bool × FlatHashSet n :=
  ProbeTable.tryInsert t (stored h) (stored_ne_zero h)

/-- The probed slot `(h + i) & (n - 1)` of the source is the linear probe when `n`
is a power of two. -/
theorem probe_eq_mask {k : ℕ} (hk : k ≤ 64) (hn : n = 2 ^ k) (h i : UInt64) :
    ((RawTable.probe h.toNat i.toNat : Fin n) : ℕ) = (h + i).toNat &&& (n - 1) := by
  change (h.toNat + i.toNat) % n = _
  rw [hn, Nat.and_two_pow_sub_one_eq_mod, UInt64.toNat_add]
  exact (Nat.mod_mod_of_dvd _ (Nat.pow_dvd_pow 2 hk)).symm

end FlatHashSet

/-- An outbound check. Moons carry raw stage data, captures a hack name. -/
structure Check where
  kind : ItemKind
  kingdom : CStr kCheckFieldCap
  shineId : CStr kCheckFieldCap
  cap : CStr kCheckFieldCap
  stageName : CStr kCheckFieldCap
  objectId : CStr kCheckFieldCap
  shineUid : ℤ
  hackName : CStr kCheckFieldCap
  seq : ℤ
  deriving DecidableEq

instance : Inhabited Check :=
  ⟨⟨.moon, default, default, default, default, default, -1, default, 0⟩⟩

/-! ## `hashCheck` -/

def fnvPrime : UInt64 := 0x100000001b3

/-- One FNV-1a round. -/
def fnvRound (h x : UInt64) : UInt64 := (h ^^^ x) * fnvPrime

/-- Mix the bytes of a field and its separator. -/
def mix {cap : ℕ} (h : UInt64) (s : CStr cap) : UInt64 :=
  fnvRound (s.bytes.foldl (fun h b => fnvRound h b.toUInt64) h) 0x1f

/-- The wire value of a kind. -/
def ItemKind.code : ItemKind → UInt64
  | .moon => 0
  | .capture => 1
  | .other => 4

/-- The hash up to the uid: kind and the five text fields before it. -/
def hashPrefix (c : Check) : UInt64 :=
  mix (mix (mix (mix (mix (fnvRound 0xcbf29ce484222325 (ItemKind.code c.kind)) c.kingdom)
    c.shineId) c.cap) c.stageName) c.objectId

def hashCheck (c : Check) : UInt64 :=
  mix (fnvRound (hashPrefix c) (UInt64.ofInt (c.shineUid + 1))) c.hackName

/-- A round is one-to-one in the hash and in the data, since the prime is odd. -/
theorem fnvRound_cancel {h x h' x' : UInt64} :
    fnvRound h x = fnvRound h' x' ↔ h ^^^ x = h' ^^^ x' := by
  constructor
  · intro same
    have undone := congrArg (· * (0xce965057aff6957b : UInt64)) same
    have inverse : fnvPrime * 0xce965057aff6957b = 1 := by decide
    simpa only [fnvRound, UInt64.mul_assoc, inverse, UInt64.mul_one] using undone
  · intro same
    rw [fnvRound, fnvRound, same]

theorem mix_inj {cap : ℕ} (s : CStr cap) {h h' : UInt64} : mix h s = mix h' s ↔ h = h' := by
  have bytes (bs : List UInt8) (h h' : UInt64) :
      bs.foldl (fun h b => fnvRound h b.toUInt64) h =
        bs.foldl (fun h b => fnvRound h b.toUInt64) h' ↔ h = h' := by
    induction bs generalizing h h' with
    | nil => exact Iff.rfl
    | cons b bs ih =>
        rw [List.foldl_cons, List.foldl_cons, ih, fnvRound_cancel, UInt64.xor_left_inj]
  rw [mix, mix, fnvRound_cancel, UInt64.xor_left_inj, bytes]

/-- Checks that differ only in the uid collide only on equal uids. -/
theorem hashCheck_uid {c d : Check} (prefix_eq : hashPrefix c = hashPrefix d)
    (hack_eq : c.hackName = d.hackName) (same : hashCheck c = hashCheck d) :
    UInt64.ofInt (c.shineUid + 1) = UInt64.ofInt (d.shineUid + 1) := by
  rw [hashCheck, hashCheck, hack_eq, mix_inj, fnvRound_cancel, prefix_eq,
    UInt64.xor_right_inj] at same
  exact same

end SmoArchipelago.Switch
