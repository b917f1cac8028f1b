import SmoArchipelago.Switch.Encoder
import SmoArchipelago.Switch.Json

/-! # Finding the bridge

Before it connects, the Switch module asks for the bridge: one probe to its own machine, then one
to every host of the subnet of a configured address. The first reply that names a bridge wins.

## Implementation notes

What the console's network does in a call is a value: which sends it takes and which datagrams
come in before the call stops waiting. -/

namespace SmoArchipelago.Switch.Json.Reader

/-- A `null` at these bytes is read; otherwise the reader stays where it was. -/
def nullAt (r : Reader) (bs : List UInt8) : Bool × Reader :=
  if bs.take 4 = ascii "null" then (true, markValueDone { r with rest := bs.drop 4 }) else (false, r)

def isNull (r : Reader) : Bool × Reader :=
  if r.error then (false, r)
  else if r.wantsComma then
    match skipWs r.rest with
    | 0x2c :: bs => nullAt r (skipWs bs)
    | _ => (false, r)
  else nullAt r (skipWs r.rest)

/-- `isNull() || nextString(_) || nextInt(_) || nextBool(_)` -/
def skipScalar (r : Reader) : Reader :=
  let null := r.isNull
  if null.1 then null.2
  else
    let string := null.2.nextString
    if string.1.isSome then string.2
    else
      let int := string.2.nextInt
      if int.1.isSome then int.2 else int.2.nextBool.2

theorem size_nullAt (r : Reader) {bs : List UInt8} (shorter : bs.length ≤ r.size) :
    (r.nullAt bs).2.size ≤ r.size := by
  unfold nullAt
  split_ifs
  · rw [size_markValueDone]
    exact (List.drop_suffix _ _).length_le.trans shorter
  · exact le_rfl

theorem size_isNull (r : Reader) : r.isNull.2.size ≤ r.size := by
  have blanks := length_skipWs r.rest
  unfold isNull
  split_ifs
  · exact le_rfl
  · split
    · rename_i bs comma
      apply size_nullAt
      rw [comma, List.length_cons] at blanks
      exact (length_skipWs bs).trans (by simp only [size]; omega)
    · exact le_rfl
  · exact size_nullAt r blanks

theorem size_skipScalar (r : Reader) : r.skipScalar.size ≤ r.size := by
  have null := size_isNull r
  have string := (size_nextString r.isNull.2).1.trans null
  have int := (size_nextInt r.isNull.2.nextString.2).trans string
  unfold skipScalar
  dsimp only
  split_ifs
  · exact null
  · exact string
  · exact int
  · exact (size_nextBool _).trans int

end SmoArchipelago.Switch.Json.Reader

namespace SmoArchipelago.Switch.ApDiscovery

open Library.FieldLoop Json

def kReplyBufBytes : ℕ := 512

def buildProbe (modVersion : List UInt8) (cap : ℕ) : List UInt8 :=
  let e := (Encoder.start.beginObject.key (ascii "t")).value (ascii "discover")
  let e := ((e.key (ascii "mod_ver")).value modVersion).endObject
  (e.out.append [0x0a]).bytes.take cap

/-! ## Replies -/

/-- Where the bridge listens. -/
@[ext]
structure BridgeTarget where
  host : List UInt8
  port : ℕ
  host_named : host ≠ []
  host_short : host.length ≤ 63
  port_valid : 0 < port ∧ port ≤ 0xFFFF
  deriving DecidableEq

/-- What the fields of a reply have set so far; the host is in a buffer of 64 bytes. -/
structure Reply where
  sawBridge : Bool := false
  host : List UInt8 := []
  host_short : host.length ≤ 63 := by decide
  port : ℤ := 0

def Reply.step (r : Reader) (s : Reply) (key : List UInt8) : Turn × Reader × Reply :=
  if key = ascii "t" then
    match r.nextString with
    | (none, r) => (.stop false, r, s)
    | (some t, r) =>
        (.again, r, if t = ascii "bridge" then { s with sawBridge := true } else s)
  else if key = ascii "host" then
    match r.nextString with
    | (none, r) => (.stop false, r, s)
    | (some host, r) => (.again, r, { s with host := host.take 63, host_short := List.length_take_le 63 host })
  else if key = ascii "port" then
    match r.nextInt with
    | (none, r) => (.stop false, r, s)
    | (some p, r) => (.again, r, { s with port := Reader.toInt32 p })
  else (.again, r.skipScalar, s)

theorem Reply.size_step (r : Reader) (s : Reply) (key : List UInt8) :
    (Reply.step r s key).2.1.size ≤ r.size := by
  have string := (Reader.size_nextString r).1
  have int := Reader.size_nextInt r
  have skip := Reader.size_skipScalar r
  unfold Reply.step
  revert string int
  rcases r.nextString with ⟨_ | t, r'⟩ <;> rcases r.nextInt with ⟨_ | p, r''⟩ <;>
    · intro string int
      split_ifs <;> assumption

/-- `while (r.nextField(key))` over the fields of a reply. -/
def Reply.turn (r : Reader) (s : Reply) : Turn × Reader × Reply :=
  match r.nextField with
  | (none, r) => (.stop true, r, s)
  | (some key, r) => Reply.step r s key

def Reply.body : Body Reader.size Reply where
  turn := Reply.turn
  progress r s h := by
    have less := (Reader.size_nextField r).2
    unfold Reply.turn at h ⊢
    revert h less
    rcases r.nextField with ⟨_ | key, r'⟩
    · exact fun stopped => Turn.noConfusion stopped
    · exact fun _ less => (Reply.size_step r' s key).trans_lt (less rfl)
  shrinks r s := by
    have shorter := (Reader.size_nextField r).1
    unfold Reply.turn
    revert shorter
    rcases r.nextField with ⟨_ | key, r'⟩
    · exact id
    · exact (Reply.size_step r' s key).trans

/-- The target that the fields name; a host ends at its first zero. -/
def Reply.target (s : Reply) : Option BridgeTarget :=
  if h : s.sawBridge = true ∧ s.host.takeWhile (· ≠ 0) ≠ [] ∧ 0 < s.port ∧ s.port ≤ 0xFFFF then
    some {
      host := s.host.takeWhile (· ≠ 0)
      port := s.port.toNat
      host_named := h.2.1
      host_short := (List.takeWhile_prefix _).length_le.trans s.host_short
      port_valid := by omega }
  else none

def parseReply (data : List UInt8) : Option BridgeTarget :=
  match (Reader.ofLine (data.take kReplyBufBytes)).enterObject with
  | (false, _) => none
  | (true, r) =>
      match loop Reply.body (r.size + 1) r {} with
      | (false, _) => none
      | (true, _, s) => s.target

/-! ## Probes -/

def kSubnetMask : UInt32 := 0xFFFFFF00

def kMaxSweepHosts : ℕ := 254

def byteswap32 (v : UInt32) : UInt32 :=
  ((v &&& 0x000000FF) <<< 24) ||| ((v &&& 0x0000FF00) <<< 8) |||
    ((v &&& 0x00FF0000) >>> 8) ||| ((v &&& 0xFF000000) >>> 24)

/-- What the console's network does during a call. Addresses are in network byte order. -/
structure Network where
  /-- What comes back in time on the probe to the own machine. -/
  loopback : Option (List UInt8)
  /-- The configured address, if it is one. -/
  seed : Option UInt32
  sweepSocket : Bool
  sendTo : UInt32 → Bool
  /-- The datagrams that come in before the sweep's window closes. -/
  arrivals : List (List UInt8)
  startMs : ℤ
  foundMs : ℤ

structure DiscoveryReport where
  selfIp : UInt32 := 0
  subnetMask : UInt32 := 0
  probedCount : UInt16 := 0
  replies : UInt16 := 0
  lastBridgeHost : List UInt8 := []
  lastBridgePort : ℕ := 0
  lastAttemptMs : ℤ := 0
  lastSuccessMs : ℤ := 0
  loopbackUsed : Bool := false

/-- The report of a call that found the bridge; the host field holds 39 bytes. -/
def DiscoveryReport.found (report : DiscoveryReport) (t : BridgeTarget) (now : ℤ) :
    DiscoveryReport :=
  { report with
    lastBridgeHost := t.host.take 39
    lastBridgePort := t.port
    lastSuccessMs := now }

def oneProbeLiteral (net : Network) : Option BridgeTarget :=
  match net.loopback with
  | none => none
  | some d => if d.isEmpty then none else parseReply d

/-- Probe the addresses from `ip` on: those that were tried, and the number of sends that went out. -/
def sendBurst (sendTo : UInt32 → Bool) (broadcast ip : UInt32) (sent : ℕ) : List UInt32 × ℕ :=
  if ip < broadcast ∧ sent < kMaxSweepHosts then
    let later := sendBurst sendTo broadcast (ip + 1)
      (if sendTo (byteswap32 ip) then sent + 1 else sent)
    (byteswap32 ip :: later.1, later.2)
  else ([], sent)
termination_by broadcast.toNat - ip.toNat
decreasing_by
  rename_i more
  have below : ip.toNat < broadcast.toNat := UInt32.lt_iff_toNat_lt.1 more.1
  have small := broadcast.toNat_lt
  have next : (ip + 1).toNat = ip.toNat + 1 := by
    rw [UInt32.toNat_add, UInt32.toNat_one, Nat.mod_eq_of_lt (by omega)]
  omega

/-- Take replies until one names a bridge, and count them. -/
def collect : List (List UInt8) → UInt16 → Option BridgeTarget × UInt16
  | [], n => (none, n)
  | d :: ds, n =>
      if d.isEmpty then collect ds n
      else
        match parseReply d with
        | some t => (some t, n + 1)
        | none => collect ds (n + 1)

/-- The addresses that are probed around a seed. -/
def sweepSubnet (net : Network) (seed : UInt32) (report : DiscoveryReport) :
    Option BridgeTarget × DiscoveryReport × List UInt32 :=
  let network := byteswap32 seed &&& kSubnetMask
  let broadcast := network ||| ~~~kSubnetMask
  let burst := sendBurst net.sendTo broadcast (network + 1) 0
  let found := collect net.arrivals report.replies
  (found.1, { report with probedCount := burst.2.toUInt16, replies := found.2 }, burst.1)

/-- What a call returns, publishes and has probed. -/
structure Outcome where
  target : Option BridgeTarget
  report : DiscoveryReport
  probed : List UInt32

def resolveBridge (net : Network) : Outcome :=
  let report : DiscoveryReport := { lastAttemptMs := net.startMs }
  match oneProbeLiteral net with
  | some t => ⟨some t, { report.found t net.foundMs with loopbackUsed := true }, []⟩
  | none =>
      match net.seed with
      | none => ⟨none, report, []⟩
      | some seed =>
          let report := { report with selfIp := byteswap32 seed, subnetMask := kSubnetMask }
          if net.sweepSocket then
            match sweepSubnet net seed report with
            | (some t, report, probed) => ⟨some t, report.found t net.foundMs, probed⟩
            | (none, report, probed) => ⟨none, report, probed⟩
          else ⟨none, report, []⟩

end SmoArchipelago.Switch.ApDiscovery
