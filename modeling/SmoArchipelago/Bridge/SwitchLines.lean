import SmoArchipelago.Bridge.LineReader
import SmoArchipelago.Switch.Messages

/-! # Lines from the Switch module, read by the bridge

A session of the module is a stream of lines, which comes in chunks of any size. The bridge cuts
it into lines and reads each as a dictionary.

## Implementation notes

A message is clean if no string in it holds a control character that the writer leaves as it is.
The bytes of a string need not be UTF-8. -/

namespace SmoArchipelago.Switch.ApProtocol

open Library JsonReader Utf8 Json

/-- A byte that a string may hold. -/
def cleanByte (b : UInt8) : Bool := 0x20 ≤ b.toNat || b = 0x0a || b = 0x0d || b = 0x09

namespace Piece

def clean (p : Piece) : Bool := p.strings.all fun s => s.all cleanByte

/-- The text has one line, and is read as the value or refused. -/
structure Good (depth : ℕ) (p : Piece) : Prop where
  writes : JsonBytes.Writes depth p.bytes (if p.clean then some p.value else none)
  oneLine : (0x0a : UInt8) ∉ p.bytes

theorem Good.mono {depth depth' : ℕ} {p : Piece} (h : p.Good depth) (deeper : depth ≤ depth') :
    p.Good depth' :=
  ⟨h.writes.mono deeper, h.oneLine⟩

theorem clean_decoded (s : List UInt8) :
    (decodeReplacing s).all Encoder.clean = s.all cleanByte := by
  have byte (b : UInt8) :
      (if b.toNat < 0x80 then Encoder.clean (Char.ofNat b.toNat) else true) = cleanByte b := by
    revert b
    apply forall_byte
    decide +kernel
  have above (c : Char) (high : isAscii c = false) : Encoder.clean c = true := by
    have far : ¬ c.toNat < 0x80 := of_decide_eq_false high
    simp only [Encoder.clean, Bool.or_eq_true, decide_eq_true_eq]
    exact .inl (.inl (.inl (by omega)))
  rw [decodeReplacing, all_decodeFrom above]
  exact congrArg s.all (funext byte)

theorem good_str (s : List UInt8) : (str s).Good 1 where
  writes := by
    have same : (str s).clean = (decodeReplacing s).all Encoder.clean := by
      rw [clean_decoded, clean]
      exact Bool.and_true _
    rw [same]
    exact JsonBytes.writes_quoted Encoder.escapeChar_escapes Encoder.escapeChar_ascii s
  oneLine member := by
    have escaped (b : UInt8) : (0x0a : UInt8) ∉ escapeByte Encoder.escapeChar b := by
      rw [← Encoder.escape_eq]
      revert b
      apply forall_byte
      decide +kernel
    rcases List.mem_cons.1 member with same | member
    · cases same
    · rcases List.mem_append.1 member with member | last
      · obtain ⟨b, -, here⟩ := List.mem_flatMap.1 member
        exact escaped b here
      · cases List.mem_singleton.1 last

/-- No newline is written for ASCII characters that are none. -/
theorem oneLine_asciiBytes {text : List Char} (ascii : text.all isAscii = true)
    (none_new : '\n' ∉ text) : (0x0a : UInt8) ∉ asciiBytes text := by
  intro member
  obtain ⟨c, here, byte⟩ := List.mem_map.1 member
  have back := (byte_of_ascii (List.all_eq_true.1 ascii c here)).2
  rw [byte] at back
  rw [← back] at here
  exact none_new here

theorem good_int (z : ℤ) : (int z).Good 1 where
  writes := JsonBytes.writes_int z
  oneLine := by
    apply oneLine_asciiBytes (JsonBytes.ascii_int z)
    intro member
    rw [int_eq] at member
    rcases List.mem_append.1 member with sign | digit
    · split_ifs at sign
      · cases List.mem_singleton.1 sign
      · cases sign
    · cases Nat.isDigit_of_mem_toDigits (by decide) (by decide) digit

theorem good_bool (b : Bool) : (bool b).Good 1 where
  writes := JsonBytes.writes_bool b
  oneLine := by cases b <;> decide

/-- A list of results, if all of them are there. -/
theorem mapM_ite {α β : Type} (xs : List α) (p : α → Bool) (f : α → β) :
    (xs.mapM fun x => if p x then some (f x) else none) =
      if xs.all p then some (xs.map f) else none := by
  induction xs with
  | nil => rfl
  | cons x xs ih =>
      rw [List.mapM_cons, ih, List.all_cons, List.map_cons]
      cases p x
      · rfl
      · cases xs.all p <;> rfl

theorem oneLine_commas {parts : List (List UInt8)} (each : ∀ p ∈ parts, (0x0a : UInt8) ∉ p) :
    (0x0a : UInt8) ∉ JsonBytes.commas parts := by
  cases parts with
  | nil => exact List.not_mem_nil
  | cons part parts =>
      intro member
      rcases List.mem_append.1 member with here | later
      · exact each part List.mem_cons_self here
      · obtain ⟨p, among, here⟩ := List.mem_flatMap.1 later
        rcases List.mem_cons.1 here with same | inside
        · cases same
        · exact each p (List.mem_cons_of_mem _ among) inside

theorem oneLine_between {b c : UInt8} {s : List UInt8} (hb : b ≠ 0x0a) (hc : c ≠ 0x0a)
    (hs : (0x0a : UInt8) ∉ s) : (0x0a : UInt8) ∉ b :: (s ++ [c]) := by
  intro member
  rcases List.mem_cons.1 member with same | member
  · exact hb same.symm
  · rcases List.mem_append.1 member with inside | last
    · exact hs inside
    · exact hc (List.mem_singleton.1 last).symm

/-- A piece as a part of an array. -/
def part (p : Piece) : JsonBytes.Part := (p.bytes, if p.clean then some p.value else none)

theorem good_list {depth : ℕ} {ps : List Piece} (each : ∀ p ∈ ps, p.Good depth) :
    (list ps).Good (depth + 1) where
  writes := by
    have parts : ps.map bytes = (ps.map part).map Prod.fst := by
      rw [List.map_map]
      rfl
    have values : JsonBytes.valuesOf (ps.map part) =
        if ps.all clean then some (ps.map value) else none := by
      rw [JsonBytes.valuesOf, List.mapM_map]
      exact mapM_ite ps clean value
    have all_clean : (list ps).clean = ps.all clean := by
      rw [clean, list, List.all_flatMap]
      rfl
    have each_part : ∀ q ∈ ps.map part, JsonBytes.Writes depth q.1 q.2 := by
      intro q member
      obtain ⟨p, here, rfl⟩ := List.mem_map.1 member
      exact (each p here).writes
    have written := JsonBytes.writes_array each_part
    rw [← parts, values] at written
    rw [all_clean]
    cases all : ps.all clean <;> rw [all] at written <;> exact written
  oneLine := by
    apply oneLine_between (by decide) (by decide)
    apply oneLine_commas
    intro s member
    obtain ⟨p, here, rfl⟩ := List.mem_map.1 member
    exact (each p here).oneLine

/-- A name that is written as it is. -/
def plainName (name : String) : Bool :=
  name.toList.all plain && name.toList.all isAscii && name.toList.all (· ≠ '\n')

/-- A piece as a member of an object. -/
def member (f : String × Piece) : JsonBytes.Member :=
  ⟨f.1.toList, f.2.bytes, if f.2.clean then some f.2.value else none⟩

theorem written_member (f : String × Piece) : (member f).written = written f := by
  change 0x22 :: (asciiBytes f.1.toList ++ 0x22 :: 0x3a :: f.2.bytes) =
    [0x22] ++ ascii f.1 ++ [0x22] ++ [0x3a] ++ f.2.bytes
  simp only [List.append_assoc, List.singleton_append]
  rfl

theorem good_dict {depth : ℕ} {fields : List (String × Piece)}
    (each : ∀ f ∈ fields, f.2.Good depth) (names : ∀ f ∈ fields, plainName f.1 = true)
    (apart : (fields.map Prod.fst).Nodup) : (dict fields).Good (depth + 1) where
  writes := by
    have text : (dict fields).bytes = JsonBytes.object (fields.map member) := by
      have same : (fields.map member).map JsonBytes.Member.written = fields.map written := by
        rw [List.map_map]
        exact List.map_congr_left fun f _ => written_member f
      rw [dict, JsonBytes.object, same]
    have values : JsonBytes.namedValues (fields.map member) =
        if fields.all (fun f => f.2.clean) then
          some (fields.map fun f => (f.1.toList, f.2.value)) else none := by
      rw [JsonBytes.namedValues, List.mapM_map, ← mapM_ite]
      congr 1
      funext f
      change Option.map _ (if f.2.clean then some f.2.value else none) = _
      cases f.2.clean <;> rfl
    have all_clean : (dict fields).clean = fields.all fun f => f.2.clean := by
      rw [clean, dict, List.all_flatMap]
      rfl
    have each_member : ∀ m ∈ fields.map member, m.Writes depth := by
      intro m here
      obtain ⟨f, among, rfl⟩ := List.mem_map.1 here
      have name := names f among
      simp only [plainName, Bool.and_eq_true] at name
      exact ⟨name.1, (each f among).writes⟩
    have members_apart : ((fields.map member).map JsonBytes.Member.name).Nodup := by
      have labels : (fields.map member).map JsonBytes.Member.name =
          (fields.map Prod.fst).map String.toList := by
        rw [List.map_map, List.map_map]
        rfl
      rw [labels]
      exact apart.map fun _ _ same => String.toList_injective same
    have written := JsonBytes.writes_object each_member members_apart
    rw [← text, values] at written
    rw [all_clean]
    cases all : fields.all (fun f => f.2.clean) <;> rw [all] at written <;> exact written
  oneLine := by
    apply oneLine_between (by decide) (by decide)
    apply oneLine_commas
    intro s among
    obtain ⟨f, here, rfl⟩ := List.mem_map.1 among
    have name := names f here
    simp only [plainName, Bool.and_eq_true, List.all_eq_true, decide_eq_true_eq] at name
    have label : (0x0a : UInt8) ∉ ascii f.1 :=
      oneLine_asciiBytes (List.all_eq_true.2 name.1.2) fun there => name.2 _ there rfl
    simp only [written, Encoder.nameText, List.mem_append, List.mem_singleton, not_or]
    exact ⟨⟨⟨⟨by decide, label⟩, by decide⟩, by decide⟩, (each f here).oneLine⟩

/-- The names of a record are plain, and no name comes twice. -/
def namesFine (names : List String) : Bool := names.all plainName && decide names.Nodup

/-- The fields of a record that are set make a dictionary. -/
theorem good_present {depth : ℕ} {fields : List (String × Option Piece)}
    (each : ∀ f ∈ fields, ∀ p ∈ f.2, p.Good depth)
    (fine : namesFine (fields.map Prod.fst) = true) : (dict (setFields fields)).Good (depth + 1) := by
  simp only [namesFine, Bool.and_eq_true, List.all_eq_true, decide_eq_true_eq] at fine
  obtain ⟨names, apart⟩ := fine
  have among {g : String × Piece} (member : g ∈ setFields fields) : ∃ f ∈ fields, f.1 = g.1 ∧ g.2 ∈ f.2 := by
    obtain ⟨f, here, set⟩ := List.mem_filterMap.1 member
    obtain ⟨p, value, rfl⟩ := Option.map_eq_some_iff.1 set
    exact ⟨f, here, rfl, value⟩
  have labels : ((setFields fields).map Prod.fst).Sublist (fields.map Prod.fst) := by
    clear each names apart among
    induction fields with
    | nil => exact List.Sublist.slnil
    | cons f fields ih =>
        obtain ⟨name, value⟩ := f
        cases value with
        | none => exact ih.cons name
        | some p => exact ih.cons_cons name
  apply good_dict
  · intro g member
    obtain ⟨f, here, -, value⟩ := among member
    exact each f here g.2 value
  · intro g member
    obtain ⟨f, here, same, -⟩ := among member
    exact same ▸ names f.1 (List.mem_map_of_mem here)
  · exact apart.sublist labels

theorem good_given {c : Prop} [Decidable c] {p : Piece} {depth : ℕ} (h : p.Good depth) :
    ∀ q ∈ given c p, q.Good depth := by
  intro q member
  unfold given at member
  split_ifs at member
  · cases Option.some.inj member
    exact h
  · cases member

theorem good_some {p : Piece} {depth : ℕ} (h : p.Good depth) : ∀ q ∈ some p, q.Good depth := by
  intro q member
  cases Option.some.inj member
  exact h

end Piece

open Piece

theorem good_shine (sh : ShineEntry) : (Piece.dict (setFields sh.fields)).Good 2 := by
  have fine : namesFine (sh.fields.map Prod.fst) = true := by
    simp only [ShineEntry.fields, List.map_cons, List.map_nil]
    decide +kernel
  apply good_present _ fine
  simp only [ShineEntry.fields, List.forall_mem_cons]
  exact ⟨good_given (good_str _), good_given (good_int _), fun _ none => absurd none List.not_mem_nil⟩

theorem good_payEntry (entry : PaySnapshotEntry) : (Piece.dict (setFields entry.fields)).Good 2 := by
  have fine : namesFine (entry.fields.map Prod.fst) = true := by
    simp only [PaySnapshotEntry.fields, List.map_cons, List.map_nil]
    decide +kernel
  apply good_present _ fine
  simp only [PaySnapshotEntry.fields, List.forall_mem_cons]
  exact ⟨good_some (good_str _), good_some (good_int _), fun _ none => absurd none List.not_mem_nil⟩

theorem namesFine_fields (m : Outgoing) : namesFine (m.fields.map Prod.fst) = true := by
  cases m <;>
    simp only [Outgoing.fields, Hello.fields, checkFields, Status.fields, StateBegin.fields,
      StateChunk.fields, PaySnapshot.fields, List.map_cons, List.map_nil] <;>
    decide +kernel

/-- Every message is the text of its value, if it is clean. -/
theorem good_piece (m : Outgoing) : m.piece.Good 4 := by
  have str (s : List UInt8) : (Piece.str s).Good 3 := (good_str s).mono (by decide)
  have int (z : ℤ) : (Piece.int z).Good 3 := (good_int z).mono (by decide)
  have bool (b : Bool) : (Piece.bool b).Good 3 := (good_bool b).mono (by decide)
  have done : ∀ f ∈ ([] : List (String × Option Piece)), ∀ p ∈ f.2, p.Good 3 :=
    fun _ none => absurd none List.not_mem_nil
  apply good_present _ (namesFine_fields m)
  cases m <;>
    simp only [Outgoing.fields, Hello.fields, checkFields, Status.fields, StateBegin.fields,
      StateChunk.fields, PaySnapshot.fields, List.forall_mem_cons]
  case hello h => exact ⟨good_some (str _), good_some (str _), good_some (str _), good_some (str _),
    good_given (str _), done⟩
  case check c => exact ⟨good_some (str _), good_some (str _), good_given (str _),
    good_given (str _), good_given (str _), good_given (str _), good_given (str _),
    good_given (int _), good_given (str _), good_given (int _), done⟩
  case status s => exact ⟨good_some (str _), good_given (str _), good_given (int _),
    good_given (int _), good_given (str _), done⟩
  case goal => exact ⟨good_some (str _), done⟩
  case death d => exact ⟨good_some (str _), good_some (int _), done⟩
  case ping p => exact ⟨good_some (str _), good_some (int _), done⟩
  case log lg => exact ⟨good_some (str _), good_some (str _), good_some (str _), done⟩
  case stateBegin s => exact ⟨good_some (str _), good_some (str _), good_given (int _), done⟩
  case stateEnd => exact ⟨good_some (str _), done⟩
  case stateChunk s =>
      have shines : (Piece.list (s.shines.map fun sh => .dict (setFields sh.fields))).Good 3 :=
        good_list fun p member => by
          obtain ⟨sh, -, rfl⟩ := List.mem_map.1 member
          exact good_shine sh
      have captures : (Piece.list (s.captures.map fun cap => .str cap.bytes)).Good 3 :=
        good_list fun p member => by
          obtain ⟨cap, -, rfl⟩ := List.mem_map.1 member
          exact (good_str _).mono (by decide)
      exact ⟨good_some (str _), good_some (str _), good_given shines, good_given captures,
        good_given (bool _), done⟩
  case paySnapshot s =>
      have entries : (Piece.list (s.entries.map fun entry => .dict (setFields entry.fields))).Good 3 :=
        good_list fun p member => by
          obtain ⟨entry, -, rfl⟩ := List.mem_map.1 member
          exact good_payEntry entry
      exact ⟨good_some (str _), good_given (int _), good_some (bool _), good_some entries, done⟩

end SmoArchipelago.Switch.ApProtocol

namespace SmoArchipelago.Bridge

open Library JsonReader Switch ApProtocol Bridge.LineReader Framing

/-- `decode` of a line: the dictionary, unless the text is refused. -/
def decodeLine (line : List UInt8) : Option JsonValue := JsonBytes.parse line

/-- The line of a message fits the buffer of the module with its newline. -/
def Fits (m : Outgoing) : Prop := m.piece.bytes.length < Json.LineBuffer.kCap

instance (m : Outgoing) : Decidable (Fits m) := inferInstanceAs (Decidable (_ < _))

/-- What the module sends of a session. -/
def sent (ms : List Outgoing) : List UInt8 := ms.flatMap fun m => m.encode.bytes

theorem encode_bytes (m : Outgoing) :
    m.encode.bytes = (m.piece.bytes ++ [newline]).take Json.LineBuffer.kCap := by
  rw [encode_eq]
  rfl

theorem encode_of_fits {m : Outgoing} (fits : Fits m) : m.encode.bytes = m.piece.bytes ++ [newline] := by
  rw [encode_bytes, List.take_of_length_le]
  rw [List.length_append]
  exact fits

theorem decodeLine_piece (m : Outgoing) :
    decodeLine m.piece.bytes = if m.piece.clean then some m.piece.value else none := by
  have good := (good_piece m).writes
  have first : ∃ more, m.piece.bytes = 0x7b :: 0x22 :: 0x74 :: more := by
    cases m <;> exact ⟨_, rfl⟩
  obtain ⟨more, start⟩ := first
  apply good.parse
  rw [start, JsonBytes.decodeReplacing_cons (by decide), JsonBytes.decodeReplacing_cons (by decide),
    JsonBytes.decodeReplacing_cons (by decide)]
  simp only [List.length_cons]
  omega

theorem wanted_piece {m : Outgoing} (fits : Fits m) : wanted m.piece.bytes = true := by
  have short : m.piece.bytes.length ≤ maxLineBytes := Nat.le_of_lt fits
  have no_blank : blank m.piece.bytes = false := rfl
  rw [wanted, no_blank, decide_eq_true short]
  rfl

/-- A newline is sent for every message that fits, and for no other. -/
theorem count_sent (ms : List Outgoing) : (sent ms).count newline = ms.countP (Fits ·) := by
  induction ms with
  | nil => rfl
  | cons m ms ih =>
      have none_within : newline ∉ m.piece.bytes := (good_piece m).oneLine
      change (m.encode.bytes ++ sent ms).count newline = _
      rw [List.count_append, ih, List.countP_cons, Nat.add_comm]
      congr 1
      by_cases fits : Fits m
      · rw [encode_of_fits fits, List.count_append, List.count_eq_zero_of_not_mem none_within,
          if_pos (decide_eq_true fits)]
        rfl
      · have cut : (m.piece.bytes ++ [newline]).take Json.LineBuffer.kCap =
            m.piece.bytes.take Json.LineBuffer.kCap := by
          rw [List.take_append, Nat.sub_eq_zero_of_le (Nat.le_of_not_lt fits), List.take_zero,
            List.append_nil]
        rw [encode_bytes, cut, decide_eq_false fits, if_neg Bool.false_ne_true]
        exact List.count_eq_zero_of_not_mem fun member => none_within (List.mem_of_mem_take member)

/-- If all messages of a session fit, the bridge gets their texts, however the stream comes in. -/
theorem handleClient_sent {ms : List Outgoing} {chunks : List (List UInt8)}
    (stream : chunks.flatten = sent ms) (fit : ∀ m ∈ ms, Fits m) :
    handleClient [] chunks = ms.map fun m => m.piece.bytes := by
  have whole : lines newline chunks.flatten = ms.map fun m => m.piece.bytes := by
    have text : sent ms = ms.flatMap fun m => m.piece.bytes ++ [newline] :=
      List.flatMap_congr fun m member => encode_of_fits (fit m member)
    rw [stream, text]
    exact lines_flatMap fun m _ => (good_piece m).oneLine
  have cuts : (cut newline [] chunks).map CutLine.whole = ms.map fun m => m.piece.bytes :=
    (map_whole_cut List.not_mem_nil chunks).trans whole
  rw [(handleClient_eq_lines_iff chunks).2, whole]
  · apply List.filter_eq_self.2
    intro line member
    obtain ⟨m, here, rfl⟩ := List.mem_map.1 member
    exact wanted_piece (fit m here)
  · intro l member long
    have among : l.whole ∈ ms.map fun m => m.piece.bytes := cuts ▸ List.mem_map_of_mem member
    obtain ⟨m, here, same⟩ := List.mem_map.1 among
    have short : l.whole.length < maxLineBytes := same ▸ fit m here
    omega

theorem length_handleClient_le (chunks : List (List UInt8)) :
    (handleClient [] chunks).length ≤ chunks.flatten.count newline := by
  have cuts : (cut newline [] chunks).map CutLine.whole = lines newline chunks.flatten :=
    map_whole_cut List.not_mem_nil chunks
  calc (handleClient [] chunks).length
      ≤ ((cut newline [] chunks).map (CutLine.given maxLineBytes)).length := by
        rw [handleClient_eq]
        exact List.length_filter_le _ _
    _ = ((cut newline [] chunks).map CutLine.whole).length := by
        rw [List.length_map, List.length_map]
    _ = chunks.flatten.count newline := by rw [cuts, length_lines]

/-- The bridge reads every message of a session as the dictionary of its fields, in order and
however the stream is cut, exactly when each of them fits its line and is clean. -/
theorem session_read_iff (ms : List Outgoing) (chunks : List (List UInt8))
    (stream : chunks.flatten = sent ms) :
    (handleClient [] chunks).map decodeLine = ms.map (fun m => some m.piece.value) ↔
      ∀ m ∈ ms, Fits m ∧ m.piece.clean = true := by
  have read (fit : ∀ m ∈ ms, Fits m) : (handleClient [] chunks).map decodeLine =
      ms.map fun m => if m.piece.clean then some m.piece.value else none := by
    rw [handleClient_sent stream fit, List.map_map]
    exact List.map_congr_left fun m _ => decodeLine_piece m
  constructor
  · intro same
    have lengths := congrArg List.length same
    rw [List.length_map, List.length_map] at lengths
    have enough := length_handleClient_le chunks
    rw [lengths, stream, count_sent] at enough
    have fit : ∀ m ∈ ms, Fits m := fun m member =>
      of_decide_eq_true (List.countP_eq_length.1
        (le_antisymm List.countP_le_length enough) m member)
    rw [read fit] at same
    intro m member
    refine ⟨fit m member, ?_⟩
    have here := List.map_inj_left.1 same m member
    by_contra dirty
    rw [if_neg dirty] at here
    cases here
  · intro all
    rw [read fun m member => (all m member).1]
    exact List.map_congr_left fun m member => if_pos (all m member).2

/-- A ping and a goal, whose lines come in two pieces. -/
theorem session_read_goal :
    (handleClient [] [(sent [.ping ⟨5⟩, .goal]).take 9, (sent [.ping ⟨5⟩, .goal]).drop 9]).map
        decodeLine =
      [.ping ⟨5⟩, .goal].map fun m : Outgoing => some m.piece.value :=
  (session_read_iff [.ping ⟨5⟩, .goal] _ (by rw [List.flatten_cons, List.flatten_singleton,
    List.take_append_drop])).2 (by decide +kernel)

end SmoArchipelago.Bridge
