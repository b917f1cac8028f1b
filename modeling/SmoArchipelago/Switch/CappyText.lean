import SmoArchipelago.Switch.ApProtocol
import SmoArchipelago.Switch.MsgFontSafe

/-! # Text of Cappy's speech bubble

The name of an item and its sender are shortened, folded to the font and put together, so that
the line is not too long, and the line is converted to UTF-16 for the game.

## Implementation notes

Texts are lists of bytes without the terminator. A conversion that reads a character to its end
or to the first byte that is none of it leaves what it has read behind. -/

namespace SmoArchipelago.Switch.CappyText

open Library Utf8 JsonText Json ApProtocol MsgFontSafe

/-! ## The line -/

structure ShortenRule where
  suffix : List UInt8
  replacement : List UInt8

def kShortenRules : List ShortenRule :=
  [⟨ascii " Kingdom Power Moon", ascii " Power Moon"⟩,
    ⟨ascii " Kingdom Multi-Moon", ascii " Multi-Moon"⟩,
    ⟨ascii " Kingdom Sticker", ascii " Sticker"⟩]

/-- The suffix follows something. -/
def ShortenRule.Applies (rule : ShortenRule) (src : List UInt8) : Prop :=
  rule.suffix.length < src.length ∧ src.drop (src.length - rule.suffix.length) = rule.suffix

instance (rule : ShortenRule) (src : List UInt8) : Decidable (rule.Applies src) :=
  inferInstanceAs (Decidable (_ ∧ _))

def ShortenRule.rewrite (rule : ShortenRule) (src : List UInt8) : List UInt8 :=
  src.take (src.length - rule.suffix.length) ++ rule.replacement

/-- A rewrite that does not fit leaves the name as it is; that is cut to the buffer. -/
def shortenItemNameForBubble (src : List UInt8) (dstCap : ℕ) : List UInt8 :=
  match kShortenRules.find? fun rule => rule.Applies src with
  | none => src.take (dstCap - 1)
  | some rule =>
      if dstCap < (rule.rewrite src).length + 1 then src.take (dstCap - 1) else rule.rewrite src

def kReconcileFromSentinel : List UInt8 := ascii "(offline)"

def kManualGrantSentinel : List UInt8 := ascii "(self)"

def IsSentinel (sender : List UInt8) : Prop :=
  sender = kReconcileFromSentinel ∨ sender = kManualGrantSentinel

instance (sender : List UInt8) : Decidable (IsSentinel sender) := inferInstanceAs (Decidable (_ ∨ _))

def kSoftMaxChars : ℕ := 60

def kOverhead : ℕ := 4 + 6 + 4

/-- An empty text is shown as a question mark. -/
def orMark (s : List UInt8) : List UInt8 := if s = [] then ascii "?" else s

/-- The name and the sender as they are shown. -/
def shownName (item : Item) : List UInt8 :=
  orMark (sanitizeForMsgFont (shortenItemNameForBubble (orMark item.name.bytes) 64) 64)

def shownSender (item : Item) : List UInt8 :=
  orMark (sanitizeForMsgFont (orMark item.from.bytes) kCheckFieldCap)

def gotLine (name : List UInt8) : List UInt8 := ascii "Got " ++ name ++ ascii "!"

def gotFromLine (name sender : List UInt8) : List UInt8 :=
  ascii "Got " ++ name ++ ascii " from " ++ sender ++ ascii "!"

def gotFromCutLine (name sender : List UInt8) : List UInt8 :=
  ascii "Got " ++ name ++ ascii " from " ++ sender ++ ascii "...!"

/-- The capacity of a queued text. -/
def kEntryTextCap : ℕ := 128

instance neZeroEntryTextCap : NeZero kEntryTextCap := neZero128

def formatCappyMsg (item : Item) : CStr kEntryTextCap :=
  let name := shownName item
  let sender := shownSender item
  if IsSentinel sender then CStr.ofBytes (gotLine name)
  else if (gotFromLine name sender).length ≤ kSoftMaxChars then
    CStr.ofBytes (gotFromLine name sender)
  else if kSoftMaxChars < name.length + kOverhead then CStr.ofBytes (gotLine name)
  else
    CStr.ofBytes (gotFromCutLine name (sender.take (kSoftMaxChars - name.length - kOverhead)))

/-! ## UTF-16 -/

/-- `readOn`, with what follows the bytes that were read. -/
def readThrough : ℕ → ℕ → List UInt8 → Option ℕ × List UInt8
  | 0, cp, bs => (some cp, bs)
  | _ + 1, _, [] => (none, [])
  | extra + 1, cp, b :: bs =>
      if IsContinuation b then readThrough extra (pushBits cp b) bs else (none, b :: bs)

theorem length_readThrough (extra high : ℕ) (bs : List UInt8) :
    (readThrough extra high bs).2.length ≤ bs.length := by
  induction extra generalizing high bs with
  | zero => exact le_rfl
  | succ extra ih =>
      cases bs with
      | nil => exact le_rfl
      | cons b bs =>
          rw [readThrough]
          split_ifs with continuation
          · exact (ih (pushBits high b) bs).trans (Nat.le_succ _)
          · exact le_rfl

/-- The first bits of a character, and how many bytes hold the others. -/
def leadBits (b : UInt8) : Option (ℕ × ℕ) := if b < 0x80 then some (b.toNat, 0) else lead b

/-- The words of a code point. -/
def utf16Words (cp : ℕ) : List UInt16 :=
  if cp < 0x10000 then [UInt16.ofNat cp]
  else
    [UInt16.ofNat (0xD800 ||| (cp - 0x10000) >>> 10),
      UInt16.ofNat (0xDC00 ||| (cp - 0x10000) &&& 0x3FF)]

/-- The loop of `utf8ToUtf16`. -/
def convertAll (dstCapWords : ℕ) (src : List UInt8) (out : List UInt16) : List UInt16 :=
  match src with
  | [] => out
  | b :: rest =>
      if b = 0 ∨ dstCapWords ≤ out.length + 1 then out
      else
        match leadBits b with
        | none => convertAll dstCapWords rest out
        | some (bits, extra) =>
            match (readThrough extra bits rest).1 with
            | none => convertAll dstCapWords (readThrough extra bits rest).2 out
            | some cp =>
                if cp < 0x10000 ∨ out.length + 2 < dstCapWords then
                  convertAll dstCapWords (readThrough extra bits rest).2 (out ++ utf16Words cp)
                else out
termination_by src.length
decreasing_by
  · exact Nat.lt_succ_self _
  · exact Nat.lt_succ_of_le (length_readThrough extra bits rest)
  · exact Nat.lt_succ_of_le (length_readThrough extra bits rest)

def utf8ToUtf16 (src : List UInt8) (dstCapWords : ℕ) : List UInt16 :=
  if dstCapWords = 0 then [] else convertAll dstCapWords src []

def kBufferUtf16Words : ℕ := 160

/-- The words of a text. -/
def words (text : List Char) : List UInt16 := text.flatMap fun c => utf16Words c.toNat

theorem convertAll_nil (cap : ℕ) (out : List UInt16) : convertAll cap [] out = out := by
  rw [convertAll.eq_def]

/-- A first byte with the bits that follow it, where the buffer has room for two words. -/
theorem convertAll_cons {cap : ℕ} {b : UInt8} {bits extra : ℕ} {rest : List UInt8}
    {out : List UInt16} (no_nul : b ≠ 0) (room : out.length + 2 < cap)
    (leads : leadBits b = some (bits, extra)) :
    convertAll cap (b :: rest) out =
      convertAll cap (readThrough extra bits rest).2
        (out ++ ((readThrough extra bits rest).1.map utf16Words).getD []) := by
  have going : ¬ (b = 0 ∨ cap ≤ out.length + 1) := by
    rintro (nul | full)
    · exact no_nul nul
    · omega
  rw [convertAll.eq_def]
  dsimp only
  rw [if_neg going, leads]
  dsimp only
  cases (readThrough extra bits rest).1 with
  | none => exact congrArg _ (List.append_nil out).symm
  | some cp => exact if_pos (.inr room)

theorem readThrough_of_readOn {extra high cp : ℕ} {bs rest : List UInt8}
    (read : readOn extra high bs = some (cp, rest)) :
    readThrough extra high bs = (some cp, rest) := by
  induction extra generalizing high bs with
  | zero =>
      cases read
      rfl
  | succ extra ih =>
      cases bs with
      | nil => cases read
      | cons b bs =>
          rw [readOn] at read
          rw [readThrough]
          split_ifs at read ⊢ with continuation
          exact ih read

theorem leadBits_lead {b : UInt8} {bits extra : ℕ} (leads : lead b = some (bits, extra)) :
    leadBits b = some (bits, extra) ∧ b ≠ 0 := by
  have bound : ¬ b.toNat < 0xC0 := fun low => by
    rw [lead_ascii low] at leads
    cases leads
  have high : ¬ b < 0x80 := fun low => bound ((toNat_lt_of_byte low).trans (by decide))
  exact ⟨(if_neg high).trans leads, fun zero => bound (by rw [zero]; decide)⟩

/-- A character becomes its words. -/
theorem convertAll_char {cap : ℕ} {c : Char} (no_nul : c.toNat ≠ 0) (rest : List UInt8)
    {out : List UInt16} (room : out.length + 2 < cap) :
    convertAll cap (String.utf8EncodeChar c ++ rest) out =
      convertAll cap rest (out ++ utf16Words c.toNat) := by
  by_cases high : 0x80 ≤ c.toNat
  · obtain ⟨b, bits, extra, tail, split, leads, read, -⟩ := read_utf8EncodeChar high rest
    obtain ⟨leads, nonzero⟩ := leadBits_lead leads
    rw [split, convertAll_cons nonzero room leads, readThrough_of_readOn read]
    rfl
  · have low := not_le.1 high
    have value : (UInt8.ofNat c.toNat).toNat = c.toNat :=
      UInt8.toNat_ofNat_of_lt' (low.trans (by decide))
    have nonzero : UInt8.ofNat c.toNat ≠ 0 := fun zero => by
      rw [zero] at value
      exact no_nul value.symm
    have leads : leadBits (UInt8.ofNat c.toNat) = some (c.toNat, 0) := by
      rw [leadBits, if_pos (by rw [UInt8.lt_iff_toNat_lt, value]; exact low), value]
    rw [utf8EncodeChar_ascii low, List.singleton_append, convertAll_cons nonzero room leads]
    rfl

theorem length_utf16Words (c : Char) :
    (utf16Words c.toNat).length ≤ (String.utf8EncodeChar c).length := by
  rw [String.length_utf8EncodeChar]
  have := Char.utf8Size_pos c
  unfold utf16Words
  split_ifs with one
  · exact this
  · have four : c.utf8Size = 4 := by
      rw [Char.utf8Size_eq_four_iff, UInt32.lt_iff_toNat_lt]
      exact not_lt.1 one
    rw [four]
    exact Nat.le_add_left 2 2

theorem length_words_le (text : List Char) : (words text).length ≤ (bytes text).length := by
  induction text with
  | nil => exact le_rfl
  | cons c text ih =>
      have short := length_utf16Words c
      rw [words, bytes, List.flatMap_cons, List.flatMap_cons, List.length_append, List.length_append]
      exact Nat.add_le_add short ih

/-- A text becomes its words where there are no more bytes than room. -/
theorem convertAll_text {cap : ℕ} {text : List Char} (no_nul : ∀ c ∈ text, c.toNat ≠ 0)
    (rest : List UInt8) {out : List UInt16} (room : out.length + (bytes text).length + 2 < cap) :
    convertAll cap (bytes text ++ rest) out = convertAll cap rest (out ++ words text) := by
  induction text generalizing out with
  | nil => exact congrArg _ (List.append_nil out).symm
  | cons c text ih =>
      obtain ⟨first, others⟩ := List.forall_mem_cons.1 no_nul
      have split : bytes (c :: text) = String.utf8EncodeChar c ++ bytes text := List.flatMap_cons
      have short := length_utf16Words c
      rw [split, List.length_append] at room
      rw [split, List.append_assoc, convertAll_char first _ (by omega), ih others]
      · rw [words, words, List.flatMap_cons, List.append_assoc]
      · rw [List.length_append]
        omega

/-- Continuation bytes that are too few are read and left behind. -/
theorem readThrough_cut {extra j : ℕ} (few : j < extra) (cp high : ℕ) {b : UInt8}
    (none : ¬ IsContinuation b) (rest : List UInt8) :
    readThrough extra high ((continuations extra cp).take j ++ b :: rest) = (Option.none, b :: rest) := by
  induction extra generalizing j high with
  | zero => exact absurd few (Nat.not_lt_zero _)
  | succ extra ih =>
      cases j with
      | zero => exact if_neg none
      | succ j =>
          have continuation := (isContinuation_ofNat cp extra).1
          rw [continuations, List.take_succ_cons, List.cons_append, readThrough, if_pos continuation]
          exact ih (Nat.lt_of_succ_lt_succ few) _

/-- The first bytes of a character that is cut become nothing. -/
theorem convertAll_cut {cap : ℕ} {c : Char} {part : List UInt8}
    (front : part <+: String.utf8EncodeChar c) (cut : part.length < (String.utf8EncodeChar c).length)
    {b : UInt8} (none : ¬ IsContinuation b) (rest : List UInt8) {out : List UInt16}
    (room : out.length + 2 < cap) :
    convertAll cap (part ++ b :: rest) out = convertAll cap (b :: rest) out := by
  cases part with
  | nil => rfl
  | cons b' part =>
      have high : 0x80 ≤ c.toNat := by
        by_contra low
        rw [utf8EncodeChar_ascii (not_le.1 low), List.length_singleton, List.length_cons] at cut
        omega
      obtain ⟨extra, known, enough, limit, encoding⟩ := utf8EncodeChar_eq high
      rw [encoding] at front cut
      obtain ⟨rfl, conts⟩ := List.cons_prefix_cons.1 front
      have leads : lead (UInt8.ofNat (c.toNat / 64 ^ extra + leadBase extra)) =
          some (c.toNat / 64 ^ extra, extra) := lead_eq_some.2 ⟨known, limit, rfl⟩
      obtain ⟨leads, nonzero⟩ := leadBits_lead leads
      have length : (continuations extra c.toNat).length = extra := length_continuations extra c.toNat
      have few : part.length < extra := by
        rw [List.length_cons, List.length_cons, length] at cut
        exact Nat.lt_of_succ_lt_succ cut
      have through := readThrough_cut few c.toNat (c.toNat / 64 ^ extra) none rest
      rw [← List.prefix_iff_eq_take.1 conts] at through
      rw [List.cons_append, convertAll_cons nonzero room leads, through]
      exact congrArg _ (List.append_nil out)

/-! ## What the line is to be -/

/-- Cut a text to so many bytes: whole characters, and a part of the next one. -/
theorem take_bytes (text : List Char) (n : ℕ) :
    (bytes text).take n = bytes text ∨ ∃ kept c after part, text = kept ++ c :: after ∧
      (bytes text).take n = bytes kept ++ part ∧ part <+: String.utf8EncodeChar c ∧
      part.length < (String.utf8EncodeChar c).length := by
  induction text generalizing n with
  | nil => exact .inl List.take_nil
  | cons c text ih =>
      have split : bytes (c :: text) = String.utf8EncodeChar c ++ bytes text := List.flatMap_cons
      by_cases inside : n < (String.utf8EncodeChar c).length
      · refine .inr ⟨[], c, text, (String.utf8EncodeChar c).take n, rfl, ?_, List.take_prefix _ _, ?_⟩
        · rw [split, List.take_append_of_le_length inside.le]
          rfl
        · rw [List.length_take]
          exact (min_le_left _ _).trans_lt inside
      · have taken : (bytes (c :: text)).take n = String.utf8EncodeChar c ++
            (bytes text).take (n - (String.utf8EncodeChar c).length) := by
          rw [split, List.take_append, List.take_of_length_le (not_lt.1 inside)]
        rcases ih (n - (String.utf8EncodeChar c).length) with
          whole | ⟨kept, c', after, part, shape, cut, rest⟩
        · left
          rw [taken, whole, split]
        · refine .inr ⟨c :: kept, c', after, part, by rw [shape]; rfl, ?_, rest⟩
          rw [taken, cut, ← List.append_assoc]
          exact congrArg (· ++ part) List.flatMap_cons.symm

/-- The line as the source describes it: what the sender loses is a part of a character, and the
conversion loses just that. -/
structure Formatted (item : Item) : Prop where
  sentinel : IsSentinel item.from.bytes →
    (formatCappyMsg item).bytes = gotLine (shownName item)
  whole : ¬ IsSentinel (shownSender item) →
    (gotFromLine (shownName item) (shownSender item)).length ≤ kSoftMaxChars →
    (formatCappyMsg item).bytes = gotFromLine (shownName item) (shownSender item)
  cut : ¬ IsSentinel (shownSender item) →
    kSoftMaxChars < (gotFromLine (shownName item) (shownSender item)).length →
    (shownName item).length + kOverhead ≤ kSoftMaxChars →
    (formatCappyMsg item).bytes = gotFromCutLine (shownName item)
      ((shownSender item).take (kSoftMaxChars - (shownName item).length - kOverhead)) ∧
    (formatCappyMsg item).bytes.length ≤ kSoftMaxChars
  noRoom : ¬ IsSentinel (shownSender item) →
    kSoftMaxChars < (gotFromLine (shownName item) (shownSender item)).length →
    kSoftMaxChars < (shownName item).length + kOverhead →
    (formatCappyMsg item).bytes = gotLine (shownName item)
  converted : ∃ front part back, (∀ c ∈ front ++ back, HasGlyph c) ∧
    (formatCappyMsg item).bytes = bytes front ++ part ++ bytes back ∧
    utf8ToUtf16 (formatCappyMsg item).bytes kBufferUtf16Words = words (front ++ back) ∧
    (part = [] ∨ ¬ IsSentinel (shownSender item) ∧
      kSoftMaxChars < (gotFromLine (shownName item) (shownSender item)).length ∧
      ∃ kept c after, shownSender item = bytes (kept ++ c :: after) ∧
        (shownSender item).take (kSoftMaxChars - (shownName item).length - kOverhead) =
          bytes kept ++ part ∧ part.length < (String.utf8EncodeChar c).length)

theorem orMark_text {s : List UInt8}
    (text : ∃ text, (∀ c ∈ text, HasGlyph c) ∧ s = bytes text) (short : s.length < 64) :
    (∃ text, (∀ c ∈ text, HasGlyph c) ∧ orMark s = bytes text) ∧ (orMark s).length < 64 := by
  unfold orMark
  split_ifs
  · obtain ⟨mark, length, -⟩ := glyphs_of_row mark_fits
    exact ⟨mark, length.trans_lt (by decide)⟩
  · exact ⟨text, short⟩

theorem shownName_text (item : Item) :
    (∃ text, (∀ c ∈ text, HasGlyph c) ∧ shownName item = bytes text) ∧
      (shownName item).length < 64 := by
  obtain ⟨short, text⟩ := sanitizeForMsgFont_glyphs_only (by decide : 0 < 64)
    (shortenItemNameForBubble (orMark item.name.bytes) 64)
  exact orMark_text text short

theorem shownSender_text (item : Item) :
    ∃ text, (∀ c ∈ text, HasGlyph c) ∧ shownSender item = bytes text := by
  obtain ⟨short, text⟩ := sanitizeForMsgFont_glyphs_only (by decide : 0 < kCheckFieldCap)
    (orMark item.from.bytes)
  exact (orMark_text text short).1

/-- A literal of the source is text of the font. -/
def IsLiteral (s : String) : Bool :=
  s.toList.all fun c => decide (HasGlyph c) && decide (c.toNat < 0x80)

theorem literal_text {s : String} (literal : IsLiteral s = true) :
    (∀ c ∈ s.toList, HasGlyph c) ∧ ascii s = bytes s.toList := by
  simp only [IsLiteral, List.all_eq_true, Bool.and_eq_true, decide_eq_true_eq] at literal
  exact ⟨fun c member => (literal c member).1, ascii_eq_bytes fun c member => (literal c member).2⟩

theorem literals : ∀ s ∈ ["Got ", " from ", "!", "...!", "(offline)", "(self)"],
    IsLiteral s = true := by
  decide +kernel

theorem length_literals : (ascii "Got ").length = 4 ∧ (ascii " from ").length = 6 ∧
    (ascii "!").length = 1 ∧ (ascii "...!").length = 4 := by
  decide +kernel

theorem gotLine_text {name : List Char} (glyphs : ∀ c ∈ name, HasGlyph c) :
    ∃ text, (∀ c ∈ text, HasGlyph c) ∧ gotLine (bytes name) = bytes text := by
  obtain ⟨got, gotText⟩ := literal_text (literals "Got " (by decide))
  obtain ⟨mark, markText⟩ := literal_text (literals "!" (by decide))
  refine ⟨"Got ".toList ++ name ++ "!".toList, ?_, ?_⟩
  · exact List.forall_mem_append.2 ⟨List.forall_mem_append.2 ⟨got, glyphs⟩, mark⟩
  · rw [gotLine, gotText, markText, ← bytes_append, ← bytes_append]

/-- What stands before the sender. -/
theorem gotFrom_text {name : List Char} (glyphs : ∀ c ∈ name, HasGlyph c) :
    ∃ text, (∀ c ∈ text, HasGlyph c) ∧ ascii "Got " ++ bytes name ++ ascii " from " = bytes text := by
  obtain ⟨got, gotText⟩ := literal_text (literals "Got " (by decide))
  obtain ⟨from', fromText⟩ := literal_text (literals " from " (by decide))
  refine ⟨"Got ".toList ++ name ++ " from ".toList, ?_, ?_⟩
  · exact List.forall_mem_append.2 ⟨List.forall_mem_append.2 ⟨got, glyphs⟩, from'⟩
  · rw [gotText, fromText, ← bytes_append, ← bytes_append]

theorem length_gotLine (name : List UInt8) : (gotLine name).length = name.length + 5 := by
  obtain ⟨got, -, mark, -⟩ := length_literals
  rw [gotLine, List.length_append, List.length_append, got, mark]
  omega

theorem length_gotFromCutLine (name sender : List UInt8) :
    (gotFromCutLine name sender).length = name.length + sender.length + 14 := by
  obtain ⟨got, from', -, cut⟩ := length_literals
  rw [gotFromCutLine, List.length_append, List.length_append, List.length_append,
    List.length_append, got, from', cut]
  omega

theorem ofBytes_eq {s : List UInt8} (short : s.length < kEntryTextCap) (no_nul : 0 ∉ s) :
    (CStr.ofBytes s : CStr kEntryTextCap).bytes = s := by
  change (s.take (kEntryTextCap - 1)).takeWhile (· != 0) = s
  rw [List.take_of_length_le (Nat.le_sub_one_of_lt short), List.takeWhile_eq_self_iff]
  intro b member
  exact bne_iff_ne.2 fun zero => no_nul (zero ▸ member)

/-- A text with no more bytes than a line has is converted as a whole. -/
theorem utf8ToUtf16_text {text : List Char} (glyphs : ∀ c ∈ text, HasGlyph c)
    (short : (bytes text).length < kEntryTextCap) :
    utf8ToUtf16 (bytes text) kBufferUtf16Words = words text := by
  have room : ([] : List UInt16).length + (bytes text).length + 2 < kBufferUtf16Words := by
    rw [List.length_nil]
    unfold kEntryTextCap at short
    unfold kBufferUtf16Words
    omega
  have converted := convertAll_text (fun c member => (emitted_glyph (glyphs c member)).2) [] room
  rw [List.append_nil, convertAll_nil] at converted
  exact converted

/-- A line that is text of the font is kept and converted as a whole. -/
theorem line_text {line : List UInt8} (text : ∃ text, (∀ c ∈ text, HasGlyph c) ∧ line = bytes text)
    (short : line.length < kEntryTextCap) :
    (CStr.ofBytes line : CStr kEntryTextCap).bytes = line ∧
      ∃ front, (∀ c ∈ front, HasGlyph c) ∧ line = bytes front ∧
        utf8ToUtf16 line kBufferUtf16Words = words front := by
  obtain ⟨text, glyphs, rfl⟩ := text
  exact ⟨ofBytes_eq short (zero_notMem_bytes glyphs), text, glyphs, rfl, utf8ToUtf16_text glyphs short⟩

/-! ## The four lines -/

section
variable {item : Item}

theorem shownSender_sentinel (sentinel : IsSentinel item.from.bytes) :
    IsSentinel (shownSender item) := by
  have kept {s : String} (literal : IsLiteral s = true) (short : (ascii s).length < 64)
      (some : ascii s ≠ []) (same : item.from.bytes = ascii s) : shownSender item = ascii s := by
    obtain ⟨glyphs, text⟩ := literal_text literal
    have stays : sanitizeForMsgFont (ascii s) 64 = ascii s := by
      rw [text] at short ⊢
      exact sanitizeForMsgFont_glyphs glyphs short
    rw [shownSender, same, orMark, orMark, if_neg some]
    change (if sanitizeForMsgFont (ascii s) 64 = [] then _ else _) = _
    rw [stays, if_neg some]
  refine sentinel.imp (kept (literals _ (by decide)) ?_ ?_) (kept (literals _ (by decide)) ?_ ?_) <;>
    decide +kernel

theorem gotLine_spec (item : Item) :
    (CStr.ofBytes (gotLine (shownName item)) : CStr kEntryTextCap).bytes = gotLine (shownName item) ∧
      ∃ front, (∀ c ∈ front, HasGlyph c) ∧ gotLine (shownName item) = bytes front ∧
        utf8ToUtf16 (gotLine (shownName item)) kBufferUtf16Words = words front := by
  obtain ⟨⟨name, glyphs, same⟩, short⟩ := shownName_text item
  apply line_text
  · rw [same]
    exact gotLine_text glyphs
  · rw [length_gotLine]
    unfold kEntryTextCap
    omega

theorem gotFromLine_spec
    (fits : (gotFromLine (shownName item) (shownSender item)).length ≤ kSoftMaxChars) :
    (CStr.ofBytes (gotFromLine (shownName item) (shownSender item)) : CStr kEntryTextCap).bytes =
        gotFromLine (shownName item) (shownSender item) ∧
      ∃ front, (∀ c ∈ front, HasGlyph c) ∧
        gotFromLine (shownName item) (shownSender item) = bytes front ∧
        utf8ToUtf16 (gotFromLine (shownName item) (shownSender item)) kBufferUtf16Words =
          words front := by
  obtain ⟨⟨name, nameGlyphs, nameText⟩, -⟩ := shownName_text item
  obtain ⟨sender, senderGlyphs, senderText⟩ := shownSender_text item
  apply line_text
  · obtain ⟨start, startGlyphs, startText⟩ := gotFrom_text nameGlyphs
    obtain ⟨mark, markText⟩ := literal_text (literals "!" (by decide))
    refine ⟨start ++ sender ++ "!".toList, ?_, ?_⟩
    · exact List.forall_mem_append.2 ⟨List.forall_mem_append.2 ⟨startGlyphs, senderGlyphs⟩, mark⟩
    · rw [gotFromLine, nameText, senderText, startText, markText, ← bytes_append, ← bytes_append]
  · exact fits.trans_lt (by decide)

/-- The line with a sender that is cut. -/
theorem gotFromCutLine_spec (room : (shownName item).length + kOverhead ≤ kSoftMaxChars) :
    let kept := (shownSender item).take (kSoftMaxChars - (shownName item).length - kOverhead)
    let line := gotFromCutLine (shownName item) kept
    (CStr.ofBytes line : CStr kEntryTextCap).bytes = line ∧ line.length ≤ kSoftMaxChars ∧
      ∃ front part back, (∀ c ∈ front ++ back, HasGlyph c) ∧ line = bytes front ++ part ++ bytes back ∧
        utf8ToUtf16 line kBufferUtf16Words = words (front ++ back) ∧
        (part = [] ∨ ∃ text c after, shownSender item = bytes (text ++ c :: after) ∧
          kept = bytes text ++ part ∧ part.length < (String.utf8EncodeChar c).length) := by
  intro kept line
  obtain ⟨⟨name, nameGlyphs, nameText⟩, -⟩ := shownName_text item
  obtain ⟨sender, senderGlyphs, senderText⟩ := shownSender_text item
  obtain ⟨start, startGlyphs, startText⟩ := gotFrom_text nameGlyphs
  obtain ⟨dots, dotsText⟩ := literal_text (literals "...!" (by decide))
  have length : line.length ≤ kSoftMaxChars := by
    have taken : kept.length ≤ kSoftMaxChars - (shownName item).length - kOverhead :=
      (List.length_take_le _ _)
    rw [length_gotFromCutLine]
    unfold kOverhead at room taken
    omega
  have short : line.length < kEntryTextCap := length.trans_lt (by decide)
  have shape {text : List Char} {part : List UInt8} (split : kept = bytes text ++ part) :
      line = bytes (start ++ text) ++ part ++ bytes "...!".toList := by
    have open' : line = ascii "Got " ++ shownName item ++ ascii " from " ++ kept ++ ascii "...!" := rfl
    rw [open', nameText, startText, split, dotsText, ← List.append_assoc, ← bytes_append]
  rcases take_bytes sender (kSoftMaxChars - (shownName item).length - kOverhead) with
    whole | ⟨text, c, after, part, split, taken, front, cut⟩
  · have glyphs : ∀ c ∈ start ++ sender ++ "...!".toList, HasGlyph c :=
      List.forall_mem_append.2 ⟨List.forall_mem_append.2 ⟨startGlyphs, senderGlyphs⟩, dots⟩
    have all : line = bytes (start ++ sender ++ "...!".toList) := by
      have split : kept = bytes sender ++ [] := by
        rw [List.append_nil, ← whole, ← senderText]
      rw [shape split, List.append_nil, ← bytes_append]
    obtain ⟨stored, front, frontGlyphs, text, converted⟩ := line_text ⟨_, glyphs, all⟩ short
    refine ⟨stored, length, front, [], [], ?_, ?_, ?_, .inl rfl⟩
    · rwa [List.append_nil]
    · rw [text, List.append_nil]
      exact (List.append_nil _).symm
    · rwa [List.append_nil]
  · rw [← senderText] at taken
    have all := shape taken
    have textGlyphs : ∀ c ∈ start ++ text, HasGlyph c := by
      refine List.forall_mem_append.2 ⟨startGlyphs, fun c member => senderGlyphs c ?_⟩
      rw [split]
      exact List.mem_append_left _ member
    have no_nul : 0 ∉ line := by
      have glyph : HasGlyph c := senderGlyphs c (by rw [split]; simp)
      rw [all]
      intro zero
      rcases List.mem_append.1 zero with start | back
      · rcases List.mem_append.1 start with start | inside
        · exact zero_notMem_bytes textGlyphs start
        · exact @zero_notMem_bytes [c] (List.forall_mem_singleton.2 glyph)
            (by rw [bytes, List.flatMap_singleton]; exact front.subset inside)
      · exact zero_notMem_bytes dots back
    refine ⟨ofBytes_eq short no_nul, length, start ++ text, part, "...!".toList,
      List.forall_mem_append.2 ⟨textGlyphs, dots⟩, all, ?_,
      .inr ⟨text, c, after, by rw [senderText, split], taken, cut⟩⟩
    have room : (bytes (start ++ text)).length + (bytes "...!".toList).length < kEntryTextCap := by
      rw [all, List.length_append, List.length_append] at short
      omega
    obtain ⟨b, tail, dot, none⟩ : ∃ b tail, bytes "...!".toList = b :: tail ∧ ¬ IsContinuation b :=
      ⟨0x2E, [0x2E, 0x2E, 0x21], by decide +kernel, by decide⟩
    have wordsLe := length_words_le (start ++ text)
    unfold kEntryTextCap at room
    have start_room : ([] : List UInt16).length + (bytes (start ++ text)).length + 2 <
        kBufferUtf16Words := by
      rw [List.length_nil]
      unfold kBufferUtf16Words
      omega
    have dot_room : (words (start ++ text)).length + (bytes "...!".toList).length + 2 <
        kBufferUtf16Words := by
      unfold kBufferUtf16Words
      omega
    calc utf8ToUtf16 line kBufferUtf16Words
        = convertAll kBufferUtf16Words (bytes (start ++ text) ++ (part ++ bytes "...!".toList)) [] := by
          rw [all, List.append_assoc]
          rfl
      _ = convertAll kBufferUtf16Words (part ++ bytes "...!".toList) (words (start ++ text)) :=
          convertAll_text (fun c member => (emitted_glyph (textGlyphs c member)).2) _ start_room
      _ = convertAll kBufferUtf16Words (bytes "...!".toList) (words (start ++ text)) := by
          rw [dot]
          exact convertAll_cut front cut none tail (by omega)
      _ = words (start ++ text) ++ words "...!".toList := by
          have last := convertAll_text (fun c member => (emitted_glyph (dots c member)).2) [] dot_room
          rwa [List.append_nil, convertAll_nil] at last
      _ = words (start ++ text ++ "...!".toList) := List.flatMap_append.symm

/-- Every line is formatted so. -/
theorem formatCappyMsg_formatted (item : Item) : Formatted item := by
  obtain ⟨plainStored, plain, plainGlyphs, plainText, plainWords⟩ := gotLine_spec item
  have plainConverted (same : (formatCappyMsg item).bytes = gotLine (shownName item)) :
      ∃ front part back, (∀ c ∈ front ++ back, HasGlyph c) ∧
        (formatCappyMsg item).bytes = bytes front ++ part ++ bytes back ∧
        utf8ToUtf16 (formatCappyMsg item).bytes kBufferUtf16Words = words (front ++ back) ∧
        part = [] := by
    refine ⟨plain, [], [], by rwa [List.append_nil], ?_, by rwa [same, List.append_nil], rfl⟩
    rw [same, plainText, List.append_nil]
    exact (List.append_nil _).symm
  have asSentinel (sentinel : IsSentinel (shownSender item)) :
      (formatCappyMsg item).bytes = gotLine (shownName item) := by
    unfold formatCappyMsg
    dsimp only
    rw [if_pos sentinel]
    exact plainStored
  have asWhole (real : ¬ IsSentinel (shownSender item))
      (fits : (gotFromLine (shownName item) (shownSender item)).length ≤ kSoftMaxChars) :
      (formatCappyMsg item).bytes = gotFromLine (shownName item) (shownSender item) := by
    unfold formatCappyMsg
    dsimp only
    rw [if_neg real, if_pos fits]
    exact (gotFromLine_spec fits).1
  have asNoRoom (real : ¬ IsSentinel (shownSender item))
      (long : kSoftMaxChars < (gotFromLine (shownName item) (shownSender item)).length)
      (full : kSoftMaxChars < (shownName item).length + kOverhead) :
      (formatCappyMsg item).bytes = gotLine (shownName item) := by
    unfold formatCappyMsg
    dsimp only
    rw [if_neg real, if_neg (not_le.2 long), if_pos full]
    exact plainStored
  have asCut (real : ¬ IsSentinel (shownSender item))
      (long : kSoftMaxChars < (gotFromLine (shownName item) (shownSender item)).length)
      (room : (shownName item).length + kOverhead ≤ kSoftMaxChars) :
      (formatCappyMsg item).bytes = gotFromCutLine (shownName item)
        ((shownSender item).take (kSoftMaxChars - (shownName item).length - kOverhead)) := by
    unfold formatCappyMsg
    dsimp only
    rw [if_neg real, if_neg (not_le.2 long), if_neg (not_lt.2 room)]
    exact (gotFromCutLine_spec room).1
  refine ⟨fun sentinel => asSentinel (shownSender_sentinel sentinel), asWhole,
    fun real long room => ⟨asCut real long room, ?_⟩, asNoRoom, ?_⟩
  · rw [asCut real long room]
    exact (gotFromCutLine_spec room).2.1
  · by_cases sentinel : IsSentinel (shownSender item)
    · obtain ⟨front, part, back, glyphs, shape, converted, none⟩ :=
        plainConverted (asSentinel sentinel)
      exact ⟨front, part, back, glyphs, shape, converted, .inl none⟩
    · by_cases fits : (gotFromLine (shownName item) (shownSender item)).length ≤ kSoftMaxChars
      · obtain ⟨-, front, glyphs, text, converted⟩ := gotFromLine_spec fits
        rw [asWhole sentinel fits]
        refine ⟨front, [], [], by rwa [List.append_nil], ?_, by rwa [List.append_nil], .inl rfl⟩
        rw [text, List.append_nil]
        exact (List.append_nil _).symm
      · have long := not_le.1 fits
        by_cases room : (shownName item).length + kOverhead ≤ kSoftMaxChars
        · obtain ⟨-, -, front, part, back, glyphs, shape, converted, cut⟩ := gotFromCutLine_spec room
          rw [asCut sentinel long room]
          exact ⟨front, part, back, glyphs, shape, converted,
            cut.imp id fun inside => ⟨sentinel, long, inside⟩⟩
        · obtain ⟨front, part, back, glyphs, shape, converted, none⟩ :=
            plainConverted (asNoRoom sentinel long (not_le.1 room))
          exact ⟨front, part, back, glyphs, shape, converted, .inl none⟩

end

/-! ## A sender that is cut within a character -/

/-- The line as one might expect it: the sender is cut between characters, nothing is lost in the
conversion, and only the two marks leave the sender out. -/
structure CutBetween (item : Item) : Prop where
  converted : ∃ text, (formatCappyMsg item).bytes = bytes text ∧
    utf8ToUtf16 (formatCappyMsg item).bytes kBufferUtf16Words = words text
  sentinel : IsSentinel item.from.bytes →
    (formatCappyMsg item).bytes = gotLine (shownName item)
  whole : ¬ IsSentinel item.from.bytes →
    (gotFromLine (shownName item) (shownSender item)).length ≤ kSoftMaxChars →
    (formatCappyMsg item).bytes = gotFromLine (shownName item) (shownSender item)
  cut : ¬ IsSentinel item.from.bytes →
    kSoftMaxChars < (gotFromLine (shownName item) (shownSender item)).length →
    (shownName item).length + kOverhead ≤ kSoftMaxChars →
    ∃ kept dropped, shownSender item = bytes (kept ++ dropped) ∧
      (formatCappyMsg item).bytes = gotFromCutLine (shownName item) (bytes kept) ∧
      (formatCappyMsg item).bytes.length ≤ kSoftMaxChars
  noRoom : ¬ IsSentinel item.from.bytes →
    kSoftMaxChars < (gotFromLine (shownName item) (shownSender item)).length →
    kSoftMaxChars < (shownName item).length + kOverhead →
    (formatCappyMsg item).bytes = gotLine (shownName item)

/-- A long name from a sender whose characters have two bytes each. -/
def accentedItem : Item :=
  { (default : Item) with
    name := CStr.ofBytes (List.replicate 45 0x61)
    «from» := CStr.ofBytes (bytes ['é', 'é', 'é']) }

theorem accentedItem_shown : shownName accentedItem = List.replicate 45 0x61 ∧
    shownSender accentedItem = bytes ['é', 'é', 'é'] := by
  have name : shortenItemNameForBubble (orMark accentedItem.name.bytes) 64 =
      bytes (List.replicate 45 'a') := by
    decide +kernel
  have sender : orMark accentedItem.from.bytes = bytes ['é', 'é', 'é'] := by
    decide +kernel
  have plain : HasGlyph 'a' := by
    decide +kernel
  have accented : HasGlyph 'é' := by
    decide +kernel
  constructor
  · rw [shownName, name, sanitizeForMsgFont_glyphs _ (by decide +kernel)]
    · decide +kernel
    · intro c member
      rw [List.eq_of_mem_replicate member]
      exact plain
  · rw [shownSender, sender, sanitizeForMsgFont_glyphs _ (by decide +kernel)]
    · decide +kernel
    · intro c member
      have accent : c = 'é' := by simpa using member
      rw [accent]
      exact accented

/-- A lead byte alone is no text. -/
theorem bytes_ne_lead {text : List Char} {b : UInt8} (high : 0x80 ≤ b.toNat) :
    bytes text ≠ [b] := by
  intro lone
  cases text with
  | nil => cases lone
  | cons c text =>
      have split : String.utf8EncodeChar c ++ bytes text = [b] := List.flatMap_cons.symm.trans lone
      by_cases wide : 0x80 ≤ c.toNat
      · obtain ⟨extra, known, -, -, encoding⟩ := utf8EncodeChar_eq wide
        have length := congrArg List.length split
        rw [encoding, List.length_append, List.length_cons, length_continuations,
          List.length_singleton] at length
        omega
      · have low := not_le.1 wide
        rw [utf8EncodeChar_ascii low, List.singleton_append] at split
        have value := congrArg UInt8.toNat (List.cons.inj split).1
        rw [UInt8.toNat_ofNat'] at value
        omega

/-- The first byte of the sender alone is shown. -/
theorem accentedItem_cut : ¬ CutBetween accentedItem := by
  obtain ⟨name, sender⟩ := accentedItem_shown
  have line : (formatCappyMsg accentedItem).bytes =
      gotFromCutLine (List.replicate 45 0x61) [0xC3] := by
    unfold formatCappyMsg
    rw [name, sender]
    decide +kernel
  intro between
  obtain ⟨kept, dropped, -, shape, -⟩ := between.cut (by decide +kernel)
    (by rw [name, sender]; decide +kernel) (by rw [name]; decide)
  rw [line, name, gotFromCutLine, gotFromCutLine] at shape
  exact bytes_ne_lead (by decide)
    (List.append_cancel_left (List.append_cancel_right shape)).symm

end SmoArchipelago.Switch.CappyText
