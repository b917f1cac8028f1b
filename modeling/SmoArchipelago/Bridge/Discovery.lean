import SmoArchipelago.Library.JsonAscii
import SmoArchipelago.Bridge.SnapshotLines
import SmoArchipelago.Switch.Discovery
import SmoArchipelago.Switch.ReadBack

/-! # Discovery of the bridge

The responder of the bridge answers a probe with the address it listens at, and the module reads
the answer back, also where the seed in it is so long that the end of the answer is cut off. -/

namespace SmoArchipelago.Bridge

open Library JsonReader JsonText Switch

def maxProbeBytes : ℕ := 512

/-- An address as the socket library prints it. -/
structure Ipv4 where
  a : UInt8
  b : UInt8
  c : UInt8
  d : UInt8
  deriving DecidableEq

namespace Ipv4

def octet (n : UInt8) : List Char := Nat.toDigits 10 n.toNat

def text (ip : Ipv4) : String :=
  String.ofList (octet ip.a ++ '.' :: (octet ip.b ++ '.' :: (octet ip.c ++ '.' :: octet ip.d)))

end Ipv4

/-- The protocol object of the responder. -/
structure ResponderProtocol where
  tcpPort : ℕ
  seed : String
  lanIp : Ipv4
  tcpPort_valid : 0 < tcpPort ∧ tcpPort ≤ 0xFFFF

namespace ResponderProtocol

/-- `json.dumps(reply, separators=(",", ":")) + "\n"` -/
def reply (r : ResponderProtocol) : List UInt8 :=
  bytes (objectAscii [("t", quotedAscii "bridge"), ("host", quotedAscii r.lanIp.text),
    ("port", int r.tcpPort), ("seed", quotedAscii r.seed)] ++ ['\n'])

/-- What is sent back for a datagram. -/
def datagramReceived (r : ResponderProtocol) (data : List UInt8) : Option (List UInt8) :=
  if maxProbeBytes < data.length then none
  else
    match JsonBytes.parse data with
    | none => none
    | some msg => if getString "t" msg = some "discover" then some r.reply else none

end ResponderProtocol

end SmoArchipelago.Bridge

namespace SmoArchipelago.Switch.Json.Reader

open Library JsonText

/-! ## Strings in ASCII, whole or cut -/

/-- Text that is read onto a string as the value, and as nothing if its end is missing. -/
structure Token (text value : List UInt8) : Prop where
  reads : ∀ rest, stringBody (text ++ rest) = (stringBody rest).map fun p => (value ++ p.1, p.2)
  cut : ∀ k < text.length, stringBody (text.take k) = none

theorem token_nil : Token [] [] where
  reads rest := by
    cases h : stringBody rest with
    | none => exact h
    | some p => exact h
  cut k short := absurd short (Nat.not_lt_zero k)

theorem Token.append {text text' value value' : List UInt8} (h : Token text value)
    (h' : Token text' value') : Token (text ++ text') (value ++ value') where
  reads rest := by
    rw [List.append_assoc, h.reads, h'.reads, Option.map_map]
    congr 1
    funext p
    exact congrArg (·, p.2) (List.append_assoc value value' p.1).symm
  cut k short := by
    rw [List.length_append] at short
    rcases lt_or_ge k text.length with before | after
    · rw [List.take_append_of_le_length before.le]
      exact h.cut k before
    · rw [List.take_append, List.take_of_length_le after, h.reads, h'.cut _ (by omega)]
      rfl

/-- A byte that stands for itself. -/
theorem token_plain {b : UInt8} (plain : Plain b) : Token [b] [b] where
  reads rest := stringBody_plain (fun x member => List.mem_singleton.1 member ▸ plain) rest
  cut k short := by
    obtain rfl : k = 0 := Nat.lt_one_iff.1 short
    rfl

theorem token_escape {esc b : UInt8} (known : escapeByte esc = some b) (letter : esc ≠ 0x75) :
    Token [0x5c, esc] [b] where
  reads rest := by
    have read : stringBody (0x5c :: esc :: rest) = (stringBody rest).map fun p => (b :: p.1, p.2) := by
      rw [stringBody.eq_5 esc rest fun _ _ _ _ _ same _ => letter same, known]
    exact read
  cut k short := by
    change k < 2 at short
    interval_cases k <;> rfl

/-- The escape of a UTF-16 unit. -/
theorem token_unit {n : ℕ} (small : n < 65536) : Token (bytes (unit n)) (utf8 n) := by
  let digit (d : ℕ) : UInt8 := UInt8.ofNat (Nat.digitChar d).toNat
  have read : ∀ d < 16, bytes [Nat.digitChar d] = [digit d] ∧ hexVal (digit d) = some d := by
    decide
  have printed : bytes (unit n) = [0x5c, 0x75, digit (n / 4096 % 16), digit (n / 256 % 16),
      digit (n / 16 % 16), digit (n % 16)] := by
    have parts : unit n = ['\\', 'u'] ++ ([Nat.digitChar (n / 4096 % 16)] ++
        ([Nat.digitChar (n / 256 % 16)] ++ ([Nat.digitChar (n / 16 % 16)] ++
          [Nat.digitChar (n % 16)]))) := rfl
    simp only [parts, bytes_append, (read _ (Nat.mod_lt _ (by decide : 0 < 16))).1]
    rfl
  have value : ((n / 4096 % 16 * 16 + n / 256 % 16) * 16 + n / 16 % 16) * 16 + n % 16 = n := by
    omega
  rw [printed]
  constructor
  · intro rest
    simp only [List.cons_append, List.nil_append, stringBody,
      (read _ (Nat.mod_lt _ (by decide : 0 < 16))).2, value]
  · intro k short
    change k < 6 at short
    interval_cases k <;> rfl

/-- What a character in ASCII is read as: above the basic plane, its units one by one. -/
def unitBytes (c : Char) : List UInt8 :=
  if c.toNat < 0x10000 then utf8 c.toNat
  else utf8 (0xd800 + (c.toNat - 0x10000) / 0x400) ++ utf8 (0xdc00 + (c.toNat - 0x10000) % 0x400)

theorem token_escapeAscii (c : Char) : Token (bytes (escapeAscii c)) (unitBytes c) := by
  have valid : c.toNat < 0x110000 := by
    have bound := c.valid
    simp only [UInt32.isValidChar, Nat.isValidChar] at bound
    change c.val.toNat < 0x110000
    omega
  unfold escapeAscii
  split_ifs with marked newline ret tab back feed plain basic
  · rcases marked with rfl | rfl
    · exact token_escape rfl (by decide)
    · exact token_escape rfl (by decide)
  · subst newline; exact token_escape rfl (by decide)
  · subst ret; exact token_escape rfl (by decide)
  · subst tab; exact token_escape rfl (by decide)
  · subst back; exact token_escape rfl (by decide)
  · subst feed; exact token_escape rfl (by decide)
  · push Not at marked
    have one : String.utf8EncodeChar c = [UInt8.ofNat c.toNat] := by
      unfold String.utf8EncodeChar
      exact if_pos (by change c.toNat ≤ 127; omega)
    have bytes_one : bytes [c] = [UInt8.ofNat c.toNat] := (List.append_nil _).trans one
    have value : unitBytes c = [UInt8.ofNat c.toNat] := by
      rw [unitBytes, if_pos (by omega), utf8, if_pos (by omega)]
    rw [bytes_one, value]
    apply token_plain
    exact plain_utf8EncodeChar marked.1 marked.2 _ (one ▸ List.mem_singleton_self _)
  · rw [unitBytes, if_pos basic]
    exact token_unit basic
  · rw [unitBytes, if_neg basic, bytes_append]
    exact (token_unit (by omega)).append (token_unit (by omega))

theorem token_text (text : List Char) :
    Token (bytes (text.flatMap escapeAscii)) (text.flatMap unitBytes) := by
  induction text with
  | nil => exact token_nil
  | cons c text ih =>
      rw [List.flatMap_cons, bytes_append, List.flatMap_cons]
      exact (token_escapeAscii c).append ih

/-- Of a string and what follows it, only a part is there: without the closing quote it is
refused, and otherwise the rest is what is there of the rest. -/
theorem readString_cut (s : String) (rest : List UInt8) (k : ℕ) :
    readString ((bytes (quotedAscii s) ++ rest).take k) = none ∨
      ∃ v j, readString ((bytes (quotedAscii s) ++ rest).take k) = some (v, rest.take j) := by
  have token := token_text s.toList
  have printed : bytes (quotedAscii s) ++ rest =
      0x22 :: (bytes (s.toList.flatMap escapeAscii) ++ 0x22 :: rest) := by
    rw [quotedAscii, bytes_cons, bytes_append, List.append_assoc, List.append_assoc]
    rfl
  rw [printed]
  cases k with
  | zero => exact .inl rfl
  | succ k =>
      rw [List.take_succ_cons]
      change stringBody _ = none ∨ ∃ v j, stringBody _ = some (v, rest.take j)
      generalize bytes (s.toList.flatMap escapeAscii) = text at token ⊢
      rcases lt_or_ge k text.length with before | after
      · rw [List.take_append_of_le_length before.le]
        exact .inl (token.cut k before)
      · rw [List.take_append, List.take_of_length_le after, token.reads]
        cases k - text.length with
        | zero => exact .inl rfl
        | succ j => exact .inr ⟨_, j, rfl⟩

end SmoArchipelago.Switch.Json.Reader

namespace SmoArchipelago.Switch.ApDiscovery

open Library JsonText FieldLoop Json ApProtocol

/-- The reader within the object of a reply. -/
def within (rest : List UInt8) (comma : Bool) : Reader := ⟨rest, [⟨true, comma⟩], false⟩

theorem turn_member (key : String) {text : List Char} {b : UInt8} {bs : List UInt8}
    (start : bytes text = b :: bs) (no_blank : Reader.isWs b = false) (comma : Bool)
    (rest : List UInt8) (s : Reply) :
    Reply.turn (within (separator comma ++ (memberText (key, text) ++ rest)) comma) s =
      Reply.step (within (bytes text ++ rest) true) s (utf8Bytes key) := by
  have named : Reader.nextField
      (within (separator comma ++ (memberText (key, text) ++ rest)) comma) =
        (some (utf8Bytes key), within (bytes text ++ rest) true) :=
    nextField_member key start no_blank comma rest
  rw [Reply.turn, named]

theorem turn_t (t : String) (comma : Bool) (rest : List UInt8) (s : Reply) :
    Reply.turn (within (separator comma ++ (memberText ("t", quoted t) ++ rest)) comma) s =
      (.again, within rest true,
        if utf8Bytes t = ascii "bridge" then { s with sawBridge := true } else s) := by
  rw [turn_member "t" (b := 0x22) rfl rfl, within, Reply.step, if_pos (by decide),
    Reader.nextString_member]
  rfl

theorem turn_host (host : String) (comma : Bool) (rest : List UInt8) (s : Reply) :
    Reply.turn (within (separator comma ++ (memberText ("host", quoted host) ++ rest)) comma) s =
      (.again, within rest true,
        { s with
          host := (utf8Bytes host).take 63, host_short := List.length_take_le 63 (utf8Bytes host) }) := by
  rw [turn_member "host" (b := 0x22) rfl rfl, within, Reply.step, if_neg (by decide),
    if_pos (by decide), Reader.nextString_member]
  rfl

theorem turn_port (port : ℤ) (comma : Bool) {b : UInt8} (closes : Reader.Closes b)
    (rest : List UInt8) (s : Reply) :
    Reply.turn (within (separator comma ++ (memberText ("port", int port) ++ b :: rest)) comma) s =
      (.again, within (b :: rest) true,
        { s with port := Reader.toInt32 (Reader.toInt64 port) }) := by
  obtain ⟨c, cs, start, no_blank⟩ := (scans_int64 port).start
  rw [turn_member "port" start no_blank, within, Reply.step, if_neg (by decide),
    if_neg (by decide), if_pos (by decide), Reader.nextInt_member port closes]
  rfl

/-! ## A seed that is cut off -/

/-- After a read that failed there is no further field. -/
theorem nextField_error {r : Reader} (error : r.error = true) : r.nextField = (none, r) := by
  unfold Reader.nextField
  exact if_pos error

theorem prepareValue_error {r : Reader} (error : r.error = true) : r.prepareValue = (false, r) := by
  unfold Reader.prepareValue
  exact if_pos error

/-- A string that cannot be read ends the fields. -/
theorem skipScalar_refused {r : Reader} (no_null : r.isNull = (false, r))
    (refused : r.nextString.1 = none) (error : r.nextString.2.error = true) :
    r.skipScalar.error = true := by
  have int : r.nextString.2.nextInt = (none, r.nextString.2.fail) := by
    unfold Reader.nextInt
    rw [prepareValue_error error]
  have bool : r.nextString.2.fail.nextBool = (none, r.nextString.2.fail.fail) := by
    unfold Reader.nextBool
    rw [prepareValue_error rfl]
  unfold Reader.skipScalar
  simp only [no_null, refused, int, bool]
  rfl

theorem isNull_within {body : List UInt8} (starts : body = [] ∨ ∃ bs, body = 0x22 :: bs) :
    (within body true).isNull = (false, within body true) := by
  rcases starts with rfl | ⟨bs, rfl⟩
  · rfl
  · have quote : Reader.skipWs (0x22 :: bs) = 0x22 :: bs := rfl
    have other : (0x22 :: bs).take 4 ≠ ascii "null" := fun same => by cases bs <;> cases same
    change Reader.nullAt _ (Reader.skipWs (0x22 :: bs)) = _
    rw [quote, Reader.nullAt, if_neg other]

/-- The seed is skipped, and what is left of the object holds no further field. -/
theorem nextField_skipped (seed : String) (k : ℕ) :
    ∃ r, (within ((bytes (quotedAscii seed) ++ [0x7d, 0x0a]).take k) true).skipScalar.nextField =
      (none, r) := by
  have starts : (bytes (quotedAscii seed) ++ [0x7d, 0x0a]).take k = [] ∨
      ∃ bs, (bytes (quotedAscii seed) ++ [0x7d, 0x0a]).take k = 0x22 :: bs := by
    cases k with
    | zero => exact .inl rfl
    | succ k => exact .inr ⟨_, rfl⟩
  have cut := Reader.readString_cut seed [0x7d, 0x0a] k
  generalize (bytes (quotedAscii seed) ++ [0x7d, 0x0a]).take k = body at starts cut
  have no_null := isNull_within starts
  have prepared (bs : List UInt8) :
      (within (0x22 :: bs) true).prepareValue = (true, within (0x22 :: bs) true) := rfl
  have refused (h : (within body true).nextString = (none, (within body true).fail)) :
      ∃ r, (within body true).skipScalar.nextField = (none, r) :=
    ⟨_, nextField_error (skipScalar_refused no_null (congrArg Prod.fst h)
      (congrArg (fun p => p.2.error) h))⟩
  rcases starts with rfl | ⟨bs, rfl⟩
  · exact refused rfl
  · rcases cut with none_read | ⟨v, j, read⟩
    · apply refused
      rw [Reader.nextString, prepared]
      dsimp only [within]
      rw [none_read]
    · have string : (within (0x22 :: bs) true).nextString =
          (some v, within ([0x7d, 0x0a].take j) true) := by
        rw [Reader.nextString, prepared]
        dsimp only [within]
        rw [read]
        rfl
      have skipped : (within (0x22 :: bs) true).skipScalar = within ([0x7d, 0x0a].take j) true := by
        unfold Reader.skipScalar
        simp only [no_null, string]
        rfl
      rw [skipped]
      rcases j with _ | _ | _ | j <;> exact ⟨_, rfl⟩

theorem turn_seed (seed : String) (k : ℕ) (s : Reply) :
    ∃ r, Reply.turn (within (0x2c :: (bytes (quoted "seed") ++
        0x3a :: (bytes (quotedAscii seed) ++ [0x7d, 0x0a]).take k)) true) s = (.again, r, s) ∧
      ∃ r', Reply.turn r s = (.stop true, r', s) := by
  obtain ⟨r, ended⟩ := nextField_skipped seed k
  have starts : (bytes (quotedAscii seed) ++ [0x7d, 0x0a]).take k = [] ∨
      ∃ bs, (bytes (quotedAscii seed) ++ [0x7d, 0x0a]).take k = 0x22 :: bs := by
    cases k with
    | zero => exact .inl rfl
    | succ k => exact .inr ⟨_, rfl⟩
  generalize (bytes (quotedAscii seed) ++ [0x7d, 0x0a]).take k = body at starts ended
  have at_value : Reader.skipWs body = body := by
    rcases starts with rfl | ⟨bs, rfl⟩ <;> rfl
  have key : Reader.fieldKey (bytes (quoted "seed") ++ 0x3a :: body) =
      some (utf8Bytes "seed", body) := by
    rw [Reader.fieldKey, Reader.readString_quoted]
    change some (utf8Bytes "seed", Reader.skipWs body) = _
    rw [at_value]
  have named : Reader.nextField (within (0x2c :: (bytes (quoted "seed") ++ 0x3a :: body)) true) =
      (some (utf8Bytes "seed"), within body true) := by
    have at_comma : Reader.skipWs (0x2c :: (bytes (quoted "seed") ++ 0x3a :: body)) =
        0x2c :: (bytes (quoted "seed") ++ 0x3a :: body) := rfl
    have at_key : Reader.skipWs (bytes (quoted "seed") ++ 0x3a :: body) =
        bytes (quoted "seed") ++ 0x3a :: body := rfl
    simp [Reader.nextField, within, at_comma, at_key, key]
  refine ⟨(within body true).skipScalar, ?_, r, ?_⟩
  · rw [Reply.turn, named]
    change Reply.step (within body true) s (utf8Bytes "seed") = _
    rw [Reply.step, if_neg (by decide), if_neg (by decide), if_neg (by decide)]
  · rw [Reply.turn, ended]

/-- The fields of a target make it. -/
theorem Reply.target_eq {s : Reply} {t : BridgeTarget} (bridge : s.sawBridge = true)
    (host : s.host.takeWhile (· ≠ 0) = t.host) (port : s.port = t.port) : s.target = some t := by
  have valid := t.port_valid
  have named : s.sawBridge = true ∧ s.host.takeWhile (· ≠ 0) ≠ [] ∧ 0 < s.port ∧ s.port ≤ 0xFFFF :=
    ⟨bridge, host ▸ t.host_named, by omega, by omega⟩
  rw [Reply.target, dif_pos named]
  congr 1
  ext1
  · exact host
  · exact (congrArg Int.toNat port).trans (Int.toNat_natCast t.port)

/-! ## Runs of the field loop -/

/-- A turn that goes on leaves enough fuel for the next. -/
theorem loop_turn {r r' : Reader} {s s' : Reply} {n : ℕ} (turn : Reply.turn r s = (.again, r', s'))
    (fuel : r.size < n) :
    loop Reply.body n r s = loop Reply.body (n - 1) r' s' ∧ r'.size < n - 1 := by
  obtain ⟨n, rfl⟩ : ∃ m, n = m + 1 := ⟨n - 1, by omega⟩
  have less := Reply.body.progress r s (congrArg Prod.fst turn)
  change (Reply.turn r s).2.1.size < r.size at less
  rw [turn] at less
  dsimp only at less
  have next := @loop_again _ _ _ Reply.body _ _ n (congrArg Prod.fst turn)
  change _ = loop Reply.body n (Reply.turn r s).2.1 (Reply.turn r s).2.2 at next
  rw [turn] at next
  exact ⟨next, by change r'.size < n; omega⟩

theorem loop_turn_stop {r r' : Reader} {s s' : Reply} {n : ℕ} {ok : Bool}
    (turn : Reply.turn r s = (.stop ok, r', s')) (fuel : r.size < n) :
    loop Reply.body n r s = (ok, r', s') := by
  obtain ⟨n, rfl⟩ : ∃ m, n = m + 1 := ⟨n - 1, by omega⟩
  have last := @loop_stop _ _ _ Reply.body _ _ _ n (congrArg Prod.fst turn)
  change _ = (ok, (Reply.turn r s).2) at last
  rwa [turn] at last

end SmoArchipelago.Switch.ApDiscovery

namespace SmoArchipelago.Bridge

open Library JsonText FieldLoop Switch Json ApProtocol ApDiscovery

/-! ## The host -/

theorem utf8EncodeChar_printable {c : Char} (h : printable c = true) :
    String.utf8EncodeChar c = [UInt8.ofNat c.toNat] ∧ UInt8.ofNat c.toNat ≠ 0 := by
  simp only [printable, Bool.and_eq_true, decide_eq_true_eq] at h
  constructor
  · unfold String.utf8EncodeChar
    exact if_pos (by change c.toNat ≤ 127; omega)
  · intro zero
    have value : (UInt8.ofNat c.toNat).toNat = c.toNat := UInt8.toNat_ofNat_of_lt' (by
      change c.toNat < 256
      omega)
    rw [zero] at value
    change 0 = c.toNat at value
    omega

theorem bytes_printable {text : List Char} (h : ∀ c ∈ text, printable c = true) :
    (bytes text).length = text.length ∧ ∀ b ∈ bytes text, b ≠ 0 := by
  induction text with
  | nil => exact ⟨rfl, fun b member => absurd member List.not_mem_nil⟩
  | cons c text ih =>
      obtain ⟨length, none_zero⟩ := ih fun d member => h d (List.mem_cons_of_mem c member)
      obtain ⟨one, not_zero⟩ := utf8EncodeChar_printable (h c List.mem_cons_self)
      rw [bytes_cons, one]
      refine ⟨congrArg (· + 1) length, fun b member => ?_⟩
      rcases List.mem_cons.1 member with rfl | later
      · exact not_zero
      · exact none_zero b later

theorem textSize_printable {s : String} (h : ∀ c ∈ s.toList, printable c = true) :
    textSize s = s.toList.length := by
  have one : (s.toList.map fun c => size (escape c)) = s.toList.map fun _ => 1 := by
    apply List.map_congr_left
    intro c member
    rw [(escapes_printable (h c member)).1, ← length_bytes]
    exact (congrArg List.length (List.append_nil _)).trans
      (congrArg List.length (utf8EncodeChar_printable (h c member)).1)
  rw [textSize, one, List.map_const', List.sum_replicate, smul_eq_mul, mul_one]

namespace Ipv4

theorem octet_printable (n : UInt8) :
    (octet n).all printable = true ∧ (octet n).length ≤ 3 ∧ octet n ≠ [] := by
  revert n
  apply Utf8.forall_byte
  decide +kernel

theorem text_printable (ip : Ipv4) :
    (∀ c ∈ ip.text.toList, printable c = true) ∧ ip.text.toList.length ≤ 15 ∧ ip.text.toList ≠ [] := by
  obtain ⟨a, la, start⟩ := octet_printable ip.a
  obtain ⟨b, lb, -⟩ := octet_printable ip.b
  obtain ⟨c, lc, -⟩ := octet_printable ip.c
  obtain ⟨d, ld, -⟩ := octet_printable ip.d
  have dot : printable '.' = true := rfl
  rw [text, String.toList_ofList]
  refine ⟨?_, ?_, ?_⟩
  · rw [← List.all_eq_true]
    simp only [List.all_append, List.all_cons, a, b, c, d, dot, Bool.and_true]
  · simp only [List.length_append, List.length_cons]
    omega
  · exact List.append_ne_nil_of_left_ne_nil start _

end Ipv4

namespace ResponderProtocol

variable (r : ResponderProtocol)

/-- Where a module that has the reply connects to. -/
def target : BridgeTarget where
  host := utf8Bytes r.lanIp.text
  port := r.tcpPort
  host_named := by
    have length := (bytes_printable (Ipv4.text_printable r.lanIp).1).1
    intro empty
    have none_left : (bytes r.lanIp.text.toList).length = 0 := congrArg List.length empty
    exact (Ipv4.text_printable r.lanIp).2.2 (List.eq_nil_of_length_eq_zero (length.symm.trans none_left))
  host_short := by
    have length := (bytes_printable (Ipv4.text_printable r.lanIp).1).1
    have short := (Ipv4.text_printable r.lanIp).2.1
    change (bytes r.lanIp.text.toList).length ≤ 63
    omega
  port_valid := r.tcpPort_valid

/-- The reply up to the seed. -/
def opening : List UInt8 :=
  0x7b :: (memberText ("t", quoted "bridge") ++ 0x2c :: (memberText ("host", quoted r.lanIp.text) ++
    0x2c :: (memberText ("port", int r.tcpPort) ++ 0x2c :: (bytes (quoted "seed") ++ [0x3a]))))

theorem reply_eq : r.reply = r.opening ++ (bytes (quotedAscii r.seed) ++ [0x7d, 0x0a]) := by
  have host := quotedAscii_eq (Ipv4.text_printable r.lanIp).1
  have names : quotedAscii "t" = quoted "t" ∧ quotedAscii "host" = quoted "host" ∧
      quotedAscii "port" = quoted "port" ∧ quotedAscii "seed" = quoted "seed" ∧
      quotedAscii "bridge" = quoted "bridge" := ⟨rfl, rfl, rfl, rfl, rfl⟩
  have text : objectAscii [("t", quotedAscii "bridge"), ("host", quotedAscii r.lanIp.text),
      ("port", int r.tcpPort), ("seed", quotedAscii r.seed)] ++ ['\n'] =
        ['\x7b'] ++ (member ("t", quoted "bridge") ++ ([','] ++ (member ("host", quoted r.lanIp.text) ++
          ([','] ++ (member ("port", int r.tcpPort) ++ ([','] ++ (quoted "seed" ++ ([':'] ++
            (quotedAscii r.seed ++ ['\x7d', '\n']))))))))) := by
    rw [host, names.2.2.2.2, objectAscii]
    simp [names, commas, member]
  rw [reply, text]
  simp only [bytes_append]
  simp only [opening, memberText, List.cons_append, List.append_assoc]
  rfl

theorem length_opening_le : r.opening.length ≤ 512 := by
  have host : textSize r.lanIp.text ≤ 15 :=
    (textSize_printable (Ipv4.text_printable r.lanIp).1).trans_le (Ipv4.text_printable r.lanIp).2.1
  have port : size (int r.tcpPort) ≤ 5 := by
    have digits : (Nat.toDigits 10 r.tcpPort).length ≤ 5 :=
      Nat.toDigits_length 10 r.tcpPort 5 (by decide) (by have := r.tcpPort_valid; omega)
    have text : int r.tcpPort = Nat.toDigits 10 r.tcpPort := by
      rw [JsonReader.int_eq, if_neg (Int.not_lt.2 (Int.natCast_nonneg _)), Int.natAbs_natCast,
        List.nil_append]
    have one : (int r.tcpPort).map Char.utf8Size = (int r.tcpPort).map fun _ => 1 := by
      apply List.map_congr_left
      intro c member
      have ascii := of_decide_eq_true (List.all_eq_true.1 (JsonBytes.ascii_int r.tcpPort) c member)
      unfold Char.utf8Size
      exact if_pos (by change c.toNat ≤ 127; omega)
    rw [size, one, List.map_const', List.sum_replicate, smul_eq_mul, mul_one, text]
    exact digits
  have names : textSize "t" = 1 ∧ textSize "host" = 4 ∧ textSize "port" = 4 ∧ textSize "seed" = 4 ∧
      textSize "bridge" = 6 := by decide
  simp only [opening, memberText, List.length_cons, List.length_append, length_bytes, size_member,
    size_quoted, names, List.length_nil]
  omega

/-- What the module reads from a reply is where the bridge listens. -/
theorem parseReply_reply : parseReply r.reply = some r.target := by
  have short : r.opening.length ≤ kReplyBufBytes := r.length_opening_le
  obtain ⟨k, text⟩ : ∃ k, r.reply.take kReplyBufBytes =
      r.opening ++ (bytes (quotedAscii r.seed) ++ [0x7d, 0x0a]).take k := by
    refine ⟨kReplyBufBytes - r.opening.length, ?_⟩
    rw [reply_eq, List.take_append, List.take_of_length_le short]
  generalize body_eq : (bytes (quotedAscii r.seed) ++ [0x7d, 0x0a]).take k = body at text
  let afterPort := 0x2c :: (bytes (quoted "seed") ++ 0x3a :: body)
  let afterHost := memberText ("port", int r.tcpPort) ++ afterPort
  let afterT := memberText ("host", quoted r.lanIp.text) ++ 0x2c :: afterHost
  let start := memberText ("t", quoted "bridge") ++ 0x2c :: afterT
  have whole : r.reply.take kReplyBufBytes = 0x7b :: start := by
    rw [text, opening]
    simp only [List.cons_append, List.append_assoc, List.nil_append, start, afterT, afterHost, afterPort]
  have entered : (Reader.ofLine (r.reply.take kReplyBufBytes)).enterObject =
      (true, within start false) := by
    rw [whole]
    rfl
  let s₁ : Reply := { sawBridge := true }
  let s₂ : Reply := { s₁ with
    host := (utf8Bytes r.lanIp.text).take 63
    host_short := List.length_take_le 63 (utf8Bytes r.lanIp.text) }
  let s₃ : Reply := { s₂ with port := Reader.toInt32 (Reader.toInt64 r.tcpPort) }
  have first : Reply.turn (within start false) {} = (.again, within (0x2c :: afterT) true, s₁) :=
    turn_t "bridge" false (0x2c :: afterT) {}
  have second : Reply.turn (within (0x2c :: afterT) true) s₁ =
      (.again, within (0x2c :: afterHost) true, s₂) :=
    turn_host r.lanIp.text true (0x2c :: afterHost) s₁
  have third : Reply.turn (within (0x2c :: afterHost) true) s₂ =
      (.again, within afterPort true, s₃) :=
    turn_port r.tcpPort true (.inl rfl) _ s₂
  obtain ⟨rest, fourth, last, stopped⟩ := turn_seed r.seed k s₃
  rw [body_eq] at fourth
  have run : loop Reply.body ((within start false).size + 1) (within start false) {} =
      (true, last, s₃) := by
    obtain ⟨e₁, m₁⟩ := loop_turn first (Nat.lt_succ_self _)
    obtain ⟨e₂, m₂⟩ := loop_turn second m₁
    obtain ⟨e₃, m₃⟩ := loop_turn third m₂
    obtain ⟨e₄, m₄⟩ := loop_turn fourth m₃
    rw [e₁, e₂, e₃, e₄]
    exact loop_turn_stop stopped m₄
  have host : ((utf8Bytes r.lanIp.text).take 63).takeWhile (· ≠ 0) = utf8Bytes r.lanIp.text := by
    have none_zero := (bytes_printable (Ipv4.text_printable r.lanIp).1).2
    have short : (utf8Bytes r.lanIp.text).length ≤ 63 := r.target.host_short
    rw [List.take_of_length_le short]
    exact List.takeWhile_eq_self_iff.2 fun b member => decide_eq_true (none_zero b member)
  have port : Reader.toInt32 (Reader.toInt64 r.tcpPort) = r.tcpPort := by
    have valid := r.tcpPort_valid
    have low : -2 ^ 31 ≤ (r.tcpPort : ℤ) := by omega
    have high : (r.tcpPort : ℤ) < 2 ^ 31 := by omega
    exact (toInt32_toInt64 low high).1
  rw [parseReply, entered]
  dsimp only
  rw [run]
  apply Reply.target_eq
  · rfl
  · exact host
  · rw [show r.target.port = r.tcpPort from rfl, ← port]

end ResponderProtocol

end SmoArchipelago.Bridge

namespace SmoArchipelago.Switch.ApDiscovery

open Library Json ApProtocol

/-! ## The probe -/

def probePiece (modVersion : List UInt8) : Piece :=
  .dict (setFields [("t", some (.str (ascii "discover"))), ("mod_ver", some (.str modVersion))])

theorem buildProbe_eq (modVersion : List UInt8) (cap : ℕ) :
    buildProbe modVersion cap =
      (((probePiece modVersion).bytes ++ [0x0a]).take LineBuffer.kCap).take cap := by
  have start : Encoder.start.beginObject = withFields [0x7b] [] [] := Encoder.start_beginObject
  rw [buildProbe, start, put_str, put_str, List.nil_append, finish_fields]
  rfl

theorem buildProbe_of_fits {modVersion : List UInt8}
    (fits : (probePiece modVersion).bytes.length < kReplyBufBytes) :
    buildProbe modVersion kReplyBufBytes = (probePiece modVersion).bytes ++ [0x0a] := by
  have length : ((probePiece modVersion).bytes ++ [0x0a]).length ≤ kReplyBufBytes := by
    rw [List.length_append]
    exact fits
  have room : kReplyBufBytes ≤ LineBuffer.kCap := by decide
  rw [buildProbe_eq, List.take_take, List.take_of_length_le]
  exact length.trans (le_min le_rfl room)

theorem good_probe (modVersion : List UInt8) : (probePiece modVersion).Good 2 := by
  apply Piece.good_present
  · intro f member
    rcases List.mem_cons.1 member with rfl | member
    · exact Piece.good_some (Piece.good_str _)
    · cases List.mem_singleton.1 member
      exact Piece.good_some (Piece.good_str _)
  · simp only [List.map_cons, List.map_nil]
    decide +kernel

/-! ## The addresses of a sweep -/

theorem getLsbD_byteswap32 (v : BitVec 32) {i : ℕ} (h : i < 32) :
    (byteswap32 ⟨v⟩).toBitVec.getLsbD i =
      v.getLsbD (if i < 8 then i + 24 else if i < 16 then i + 8 else if i < 24 then i - 8 else i - 24) := by
  simp only [byteswap32, UInt32.toBitVec_or, UInt32.toBitVec_and, UInt32.toBitVec_shiftLeft,
    UInt32.toBitVec_shiftRight]
  interval_cases i <;> simp

theorem byteswap32_involutive : Function.Involutive byteswap32 := by
  intro v
  apply UInt32.toBitVec_inj.1
  apply BitVec.eq_of_getLsbD_eq
  intro i h
  have once : byteswap32 v = byteswap32 ⟨v.toBitVec⟩ := rfl
  rw [getLsbD_byteswap32 _ h, once, getLsbD_byteswap32 _ (by split_ifs <;> omega)]
  congr 1
  split_ifs <;> omega

/-- The network of an address is the address with its low byte cleared. -/
theorem toNat_network (v : UInt32) : (v &&& kSubnetMask).toNat = v.toNat / 256 * 256 := by
  have shifted : (v &&& kSubnetMask) = (v >>> 8) <<< 8 := by
    apply UInt32.toBitVec_inj.1
    simp only [kSubnetMask, UInt32.toBitVec_and, UInt32.toBitVec_shiftLeft, UInt32.toBitVec_shiftRight]
    apply BitVec.eq_of_getLsbD_eq
    intro i h
    interval_cases i <;> simp
  have small := v.toNat_lt
  rw [shifted, UInt32.toNat_shiftLeft, UInt32.toNat_shiftRight, Nat.shiftLeft_eq,
    Nat.shiftRight_eq_div_pow]
  change v.toNat / 2 ^ 8 * 2 ^ 8 % 2 ^ 32 = _
  omega

theorem toNat_broadcast (v : UInt32) :
    ((v &&& kSubnetMask) ||| ~~~kSubnetMask).toNat = v.toNat / 256 * 256 + 255 := by
  have sum : ((v &&& kSubnetMask) ||| ~~~kSubnetMask) = (v &&& kSubnetMask) + 255 := by
    apply UInt32.toBitVec_inj.1
    rw [UInt32.toBitVec_add, UInt32.toBitVec_or, BitVec.add_eq_or_of_and_eq_zero]
    · rfl
    · apply BitVec.eq_of_getLsbD_eq
      intro i h
      simp only [kSubnetMask, UInt32.toBitVec_and]
      interval_cases i <;> simp
  have small := v.toNat_lt
  rw [sum, UInt32.toNat_add, toNat_network]
  change (_ + 255) % 2 ^ 32 = _
  omega

/-- A burst that has sends enough left goes through all addresses below the broadcast address,
whether or not the sends go out. -/
theorem sendBurst_hosts (sendTo : UInt32 → Bool) (broadcast : UInt32) {n sent : ℕ} {ip : UInt32}
    (left : ip.toNat + n = broadcast.toNat) (enough : sent + n ≤ kMaxSweepHosts) :
    ((sendBurst sendTo broadcast ip sent).1.map fun a => (byteswap32 a).toNat) =
      List.range' ip.toNat n := by
  induction n generalizing ip sent with
  | zero =>
      have done : ¬ (ip < broadcast ∧ sent < kMaxSweepHosts) := fun more =>
        absurd (UInt32.lt_iff_toNat_lt.1 more.1) (by omega)
      rw [sendBurst, if_neg done]
      rfl
  | succ n ih =>
      have more : ip < broadcast ∧ sent < kMaxSweepHosts :=
        ⟨UInt32.lt_iff_toNat_lt.2 (by omega), by omega⟩
      have small := broadcast.toNat_lt
      have next : (ip + 1).toNat = ip.toNat + 1 := by
        rw [UInt32.toNat_add, UInt32.toNat_one, Nat.mod_eq_of_lt (by omega)]
      have later : (if sendTo (byteswap32 ip) then sent + 1 else sent) + n ≤ kMaxSweepHosts := by
        split_ifs <;> omega
      rw [sendBurst, if_pos more]
      change (byteswap32 (byteswap32 ip)).toNat :: _ = _
      rw [byteswap32_involutive, ih (by omega) later, next, List.range'_succ]

/-- A sweep tries each host address of the seed's network once, in order. -/
theorem sweepSubnet_hosts (net : Network) (seed : UInt32) (report : DiscoveryReport) :
    ((sweepSubnet net seed report).2.2.map fun a => (byteswap32 a).toNat) =
      List.range' ((byteswap32 seed).toNat / 256 * 256 + 1) 254 := by
  have network := toNat_network (byteswap32 seed)
  have broadcast := toNat_broadcast (byteswap32 seed)
  have small := (byteswap32 seed).toNat_lt
  have first : ((byteswap32 seed &&& kSubnetMask) + 1).toNat =
      (byteswap32 seed).toNat / 256 * 256 + 1 := by
    rw [UInt32.toNat_add, network, UInt32.toNat_one, Nat.mod_eq_of_lt (by omega)]
  have left : ((byteswap32 seed &&& kSubnetMask) + 1).toNat + 254 =
      ((byteswap32 seed &&& kSubnetMask) ||| ~~~kSubnetMask).toNat := by
    omega
  have burst := sendBurst_hosts net.sendTo _ left (show 0 + 254 ≤ kMaxSweepHosts by decide)
  rw [first] at burst
  exact burst

/-! ## Replies that come in -/

theorem collect_eq (arrivals : List (List UInt8)) (n : UInt16) :
    (collect arrivals n).1 = arrivals.findSome? parseReply := by
  induction arrivals generalizing n with
  | nil => rfl
  | cons d ds ih =>
      rw [collect, List.findSome?_cons]
      split_ifs with empty
      · obtain rfl := List.isEmpty_iff.1 empty
        exact ih n
      · cases parseReply d with
        | none => exact ih (n + 1)
        | some t => rfl

/-- The datagrams that a call can read: the sweep comes only where no bridge answers before. -/
def Network.heard (net : Network) : List (List UInt8) :=
  net.loopback.toList ++ if net.seed.isSome && net.sweepSocket then net.arrivals else []

theorem oneProbeLiteral_eq (net : Network) : oneProbeLiteral net = net.loopback.bind parseReply := by
  rw [oneProbeLiteral]
  cases net.loopback with
  | none => rfl
  | some d =>
      dsimp only
      split_ifs with empty
      · obtain rfl := List.isEmpty_iff.1 empty
        rfl
      · rfl

theorem resolveBridge_target (net : Network) :
    (resolveBridge net).target = net.heard.findSome? parseReply := by
  have loopback : net.loopback.toList.findSome? parseReply = oneProbeLiteral net := by
    rw [oneProbeLiteral_eq]
    cases net.loopback with
    | none => rfl
    | some d =>
        rw [Option.toList_some, List.findSome?_cons, Option.bind_some]
        cases parseReply d <;> rfl
  rw [Network.heard, List.findSome?_append, loopback, resolveBridge]
  cases oneProbeLiteral net with
  | some t => rfl
  | none =>
      cases net.seed with
      | none => rfl
      | some seed =>
          dsimp only
          cases net.sweepSocket with
          | false => rfl
          | true =>
              have found (report : DiscoveryReport) : (sweepSubnet net seed report).1 =
                  net.arrivals.findSome? parseReply := collect_eq net.arrivals report.replies
              change _ = net.arrivals.findSome? parseReply
              rw [if_pos rfl]
              split
              · rename_i swept
                exact (congrArg Prod.fst swept).symm.trans (found _)
              · rename_i swept
                exact (congrArg Prod.fst swept).symm.trans (found _)

/-- A call that hears no bridge on its own machine sweeps the network of a configured address. -/
theorem resolveBridge_probed {net : Network} {seed : UInt32}
    (unheard : net.loopback.bind parseReply = none) (configured : net.seed = some seed)
    (opened : net.sweepSocket = true) :
    ((resolveBridge net).probed.map fun a => (byteswap32 a).toNat) =
      List.range' ((byteswap32 seed).toNat / 256 * 256 + 1) 254 := by
  rw [resolveBridge, oneProbeLiteral_eq, unheard, configured]
  dsimp only
  rw [if_pos opened]
  -- whether or not the sweep finds a bridge
  split
  all_goals
    rename_i swept
    exact (congrArg (fun p => p.2.2.map fun a => (byteswap32 a).toNat) swept).symm.trans
      (sweepSubnet_hosts net seed _)

/-- Any other call probes no host. -/
theorem resolveBridge_unprobed {net : Network}
    (kept : net.loopback.bind parseReply ≠ none ∨ net.seed = none ∨ net.sweepSocket = false) :
    (resolveBridge net).probed = [] := by
  rw [resolveBridge, oneProbeLiteral_eq]
  cases heard : net.loopback.bind parseReply with
  | some t => rfl
  | none =>
      rcases kept with loopback | unconfigured | closed
      · exact absurd heard loopback
      · rw [unconfigured]
      · rw [closed]
        cases net.seed with
        | none => rfl
        | some seed => rfl

end SmoArchipelago.Switch.ApDiscovery

namespace SmoArchipelago.Bridge

open Library Switch Json ApProtocol ApDiscovery

/-- The probe of the module is answered by every responder. -/
theorem datagramReceived_probe (r : ResponderProtocol) {modVersion : List UInt8}
    (clean : modVersion.all cleanByte = true)
    (fits : (probePiece modVersion).bytes.length < kReplyBufBytes) :
    r.datagramReceived (buildProbe modVersion kReplyBufBytes) = some r.reply := by
  have short : ¬ maxProbeBytes < ((probePiece modVersion).bytes ++ [0x0a]).length := by
    rw [List.length_append]
    exact not_lt.2 fits
  have all_clean : (probePiece modVersion).clean = true := by
    change ((ascii "discover" :: modVersion :: []).all fun s => s.all cleanByte) = true
    rw [List.all_cons, List.all_cons, clean]
    decide +kernel
  have written := (good_probe modVersion).writes
  rw [if_pos all_clean] at written
  obtain ⟨c, cs, start, -⟩ := written.reads.visible
  have read : JsonBytes.parse ((probePiece modVersion).bytes ++ [0x0a]) =
      some (probePiece modVersion).value :=
    written.parse_line (by rw [start, List.length_cons]; omega)
  rw [buildProbe_of_fits fits, ResponderProtocol.datagramReceived, if_neg short, read]
  exact if_pos rfl

/-- Every responder answers the probe, and its answer is read back. A call finds the bridge exactly
when it hears an answer, and returns where a responder listens that it has probed: on its own
machine, or at one of the 254 host addresses around the configured one, which it goes through when
nothing answered on its own machine, and only then. -/
theorem resolveBridge_finds (modVersion : List UInt8) (clean : modVersion.all cleanByte = true)
    (fits : (probePiece modVersion).bytes.length < kReplyBufBytes) (net : Network)
    (own : Set ResponderProtocol) (there : UInt32 → Set ResponderProtocol)
    (loopback : ∀ d ∈ net.loopback, parseReply d = none ∨
      ∃ r ∈ own, r.datagramReceived (buildProbe modVersion kReplyBufBytes) = some d)
    (arrivals : ∀ d ∈ net.arrivals, parseReply d = none ∨ ∃ a ∈ (resolveBridge net).probed,
      ∃ r ∈ there a, r.datagramReceived (buildProbe modVersion kReplyBufBytes) = some d) :
    (∀ r : ResponderProtocol,
      r.datagramReceived (buildProbe modVersion kReplyBufBytes) = some r.reply ∧
        parseReply r.reply = some r.target) ∧
    ((resolveBridge net).target.isSome ↔ ∃ d ∈ net.heard, ∃ r : ResponderProtocol,
      r.datagramReceived (buildProbe modVersion kReplyBufBytes) = some d) ∧
    (∀ t ∈ (resolveBridge net).target, (∃ r ∈ own, r.target = t) ∨
      ∃ a ∈ (resolveBridge net).probed, ∃ r ∈ there a, r.target = t) ∧
    (∀ seed, net.loopback.bind parseReply = none → net.seed = some seed → net.sweepSocket = true →
      ((resolveBridge net).probed.map fun a => (byteswap32 a).toNat) =
        List.range' ((byteswap32 seed).toNat / 256 * 256 + 1) 254) ∧
    (net.loopback.bind parseReply ≠ none ∨ net.seed = none ∨ net.sweepSocket = false →
      (resolveBridge net).probed = []) := by
  have answer {r : ResponderProtocol} {d : List UInt8}
      (sent : r.datagramReceived (buildProbe modVersion kReplyBufBytes) = some d) :
      parseReply d = some r.target := by
    rw [datagramReceived_probe r clean fits] at sent
    obtain rfl := Option.some.inj sent
    exact r.parseReply_reply
  have heard {d : List UInt8} (member : d ∈ net.heard) : d ∈ net.loopback ∨ d ∈ net.arrivals := by
    rcases List.mem_append.1 member with own | sweep
    · exact .inl (Option.mem_toList.1 own)
    · split_ifs at sweep
      · exact .inr sweep
      · cases sweep
  refine ⟨fun r => ⟨datagramReceived_probe r clean fits, r.parseReply_reply⟩, ⟨?_, ?_⟩, ?_,
    fun seed => resolveBridge_probed, resolveBridge_unprobed⟩
  · intro found
    rw [resolveBridge_target] at found
    obtain ⟨d, member, named⟩ := List.findSome?_isSome_iff.1 found
    refine ⟨d, member, ?_⟩
    rcases heard member with own | sweep
    · rcases loopback d own with nothing | ⟨r, -, sent⟩
      · rw [nothing] at named
        cases named
      · exact ⟨r, sent⟩
    · rcases arrivals d sweep with nothing | ⟨a, -, r, -, sent⟩
      · rw [nothing] at named
        cases named
      · exact ⟨r, sent⟩
  · rintro ⟨d, member, r, sent⟩
    rw [resolveBridge_target]
    exact List.findSome?_isSome_iff.2 ⟨d, member, by rw [answer sent]; rfl⟩
  · intro t found
    rw [resolveBridge_target] at found
    obtain ⟨d, member, named⟩ := List.exists_of_findSome?_eq_some found
    rcases heard member with own | sweep
    · rcases loopback d own with nothing | ⟨r, here, sent⟩
      · rw [nothing] at named
        cases named
      · exact .inl ⟨r, here, Option.some.inj ((answer sent).symm.trans named)⟩
    · rcases arrivals d sweep with nothing | ⟨a, probed, r, here, sent⟩
      · rw [nothing] at named
        cases named
      · exact .inr ⟨a, probed, r, here, Option.some.inj ((answer sent).symm.trans named)⟩

/-- A responder on another machine of the module's network. -/
def homeResponder : ResponderProtocol := ⟨17777, "seed 7", ⟨192, 168, 1, 20⟩, by decide⟩

/-- Something else answers on the own machine, and the responder to the sweep. -/
def homeNetwork : Network :=
  ⟨some [0x21], some 0x0101a8c0, true, fun _ => true, [[0x7b], homeResponder.reply], 0, 5⟩

theorem resolveBridge_finds_home :
    (resolveBridge homeNetwork).target = some homeResponder.target ∧
    ((resolveBridge homeNetwork).probed.map fun a => (byteswap32 a).toNat) =
      List.range' 0xc0a80101 254 := by
  have clean : (ascii "0.2.0").all cleanByte = true := by decide
  have fits : (probePiece (ascii "0.2.0")).bytes.length < kReplyBufBytes := by decide +kernel
  have answered := datagramReceived_probe homeResponder clean fits
  have unheard : homeNetwork.loopback.bind parseReply = none := rfl
  have swept : ((resolveBridge homeNetwork).probed.map fun a => (byteswap32 a).toNat) =
      List.range' 0xc0a80101 254 := resolveBridge_probed unheard rfl rfl
  have probed : (0x1401a8c0 : UInt32) ∈ (resolveBridge homeNetwork).probed := by
    have listed : 0xc0a80114 ∈
        ((resolveBridge homeNetwork).probed.map fun a => (byteswap32 a).toNat) := by
      rw [swept, List.mem_range'_1]
      decide
    obtain ⟨a, member, value⟩ := List.mem_map.1 listed
    have address : a = 0x1401a8c0 := byteswap32_involutive.injective (UInt32.toNat_inj.1 value)
    exact address ▸ member
  have found := resolveBridge_finds (ascii "0.2.0") clean fits homeNetwork ∅
    (fun a => if a = 0x1401a8c0 then {homeResponder} else ∅)
    (fun d back => .inl (by rw [← Option.some.inj back]; rfl)) ?_
  · obtain ⟨-, heard, named, sweep, -⟩ := found
    have some_target : (resolveBridge homeNetwork).target.isSome := heard.2
      ⟨homeResponder.reply, List.mem_cons_of_mem _ (List.mem_cons_of_mem _ List.mem_cons_self),
        homeResponder, answered⟩
    obtain ⟨t, target⟩ := Option.isSome_iff_exists.1 some_target
    rcases named t target with ⟨r, nobody, -⟩ | ⟨a, -, r, here, listens⟩
    · exact absurd nobody (Set.notMem_empty r)
    · split_ifs at here
      · rw [target, ← listens, Set.mem_singleton_iff.1 here]
        exact ⟨rfl, sweep _ unheard rfl rfl⟩
      · exact absurd here (Set.notMem_empty r)
  · intro d arrived
    rcases List.mem_cons.1 arrived with junk | reply
    · exact .inl (by rw [junk]; rfl)
    · refine .inr ⟨0x1401a8c0, probed, homeResponder, ?_, ?_⟩
      · rw [if_pos rfl]
        rfl
      · rw [List.mem_singleton.1 reply]
        exact answered

end SmoArchipelago.Bridge
