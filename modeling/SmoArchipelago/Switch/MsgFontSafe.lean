import SmoArchipelago.Library.JsonText
import SmoArchipelago.Library.Utf8
import SmoArchipelago.Switch.Json

/-! # Text for the message font

Text from outside is folded to the characters that the font of the speech bubbles has. What is
not UTF-8 becomes question marks.

## Implementation notes

A C string is the list of its bytes before the terminator. The substitution table is that of the
source, row by row. -/

namespace SmoArchipelago.Switch.MsgFontSafe

open Library Utf8 JsonText Json

def kBadCp : ℕ := 0xFFFFFFFF

/-- `decodeUtf8`: a code point and what follows it. Code point 0 is the end of the input. -/
def decodeUtf8 : List UInt8 → ℕ × List UInt8
  | [] => (0, [])
  | b0 :: rest =>
      if b0 = 0 then (0, b0 :: rest)
      else if b0 < 0x80 then (b0.toNat, rest)
      else ((lead b0).bind fun l => readOn l.2 l.1 rest).getD (kBadCp, rest)

def isMissingAscii (cp : ℕ) : Bool :=
  cp ∈ [0x23, 0x24, 0x3B, 0x3C, 0x3D, 0x3E, 0x5B, 0x5C, 0x5D, 0x5E, 0x60, 0x7B, 0x7C, 0x7D, 0x7E]

def isPassthroughNonAscii (cp : ℕ) : Bool :=
  cp ∈ [0x00A9, 0x00C5, 0x00E1, 0x00E8, 0x00E9, 0x00ED, 0x00F3, 0x2014, 0x2026]

def encodeUtf8Short (cp : ℕ) : List UInt8 :=
  if cp < 0x800 then [UInt8.ofNat (0xC0 ||| cp >>> 6), UInt8.ofNat (0x80 ||| cp &&& 0x3F)]
  else
    [UInt8.ofNat (0xE0 ||| cp >>> 12), UInt8.ofNat (0x80 ||| (cp >>> 6) &&& 0x3F),
      UInt8.ofNat (0x80 ||| cp &&& 0x3F)]

def kSubs : List (ℕ × String) :=
  [(0x23, "No."), (0x24, "S"), (0x3B, ","), (0x3C, "("), (0x3D, "-"), (0x3E, ")"), (0x5B, "("),
    (0x5C, "/"), (0x5D, ")"), (0x5E, "'"), (0x60, "'"), (0x7B, "("), (0x7C, "/"), (0x7D, ")"),
    (0x7E, "-"), (0x00A0, " "), (0x00A1, "!"), (0x00A2, "c"), (0x00A3, "L"), (0x00A5, "Y"),
    (0x00A7, "S"), (0x00AB, "\""), (0x00AC, "-"), (0x00AD, ""), (0x00AE, "(R)"), (0x00AF, "-"),
    (0x00B0, " deg"), (0x00B1, "+/-"), (0x00B2, "2"), (0x00B3, "3"), (0x00B4, "'"),
    (0x00B5, "u"), (0x00B6, "P"), (0x00B7, "."), (0x00B8, ""), (0x00B9, "1"), (0x00BB, "\""),
    (0x00BC, "1/4"), (0x00BD, "1/2"), (0x00BE, "3/4"), (0x00BF, "?"), (0x00D7, "x"),
    (0x00F7, "/"), (0x00C0, "A"), (0x00C1, "A"), (0x00C2, "A"), (0x00C3, "A"), (0x00C4, "A"),
    (0x00C6, "AE"), (0x00C7, "C"), (0x00C8, "E"), (0x00C9, "E"), (0x00CA, "E"), (0x00CB, "E"),
    (0x00CC, "I"), (0x00CD, "I"), (0x00CE, "I"), (0x00CF, "I"), (0x00D0, "D"), (0x00D1, "N"),
    (0x00D2, "O"), (0x00D3, "O"), (0x00D4, "O"), (0x00D5, "O"), (0x00D6, "O"), (0x00D8, "O"),
    (0x00D9, "U"), (0x00DA, "U"), (0x00DB, "U"), (0x00DC, "U"), (0x00DD, "Y"), (0x00DE, "Th"),
    (0x00DF, "ss"), (0x00E0, "a"), (0x00E2, "a"), (0x00E3, "a"), (0x00E4, "a"), (0x00E5, "a"),
    (0x00E6, "ae"), (0x00E7, "c"), (0x00EA, "e"), (0x00EB, "e"), (0x00EC, "i"), (0x00EE, "i"),
    (0x00EF, "i"), (0x00F0, "d"), (0x00F1, "n"), (0x00F2, "o"), (0x00F4, "o"), (0x00F5, "o"),
    (0x00F6, "o"), (0x00F8, "o"), (0x00F9, "u"), (0x00FA, "u"), (0x00FB, "u"), (0x00FC, "u"),
    (0x00FD, "y"), (0x00FE, "th"), (0x00FF, "y"), (0x2010, "-"), (0x2011, "-"), (0x2012, "-"),
    (0x2013, "-"), (0x2015, "-"), (0x2018, "'"), (0x2019, "'"), (0x201A, ","), (0x201B, "'"),
    (0x201C, "\""), (0x201D, "\""), (0x201E, "\""), (0x201F, "\""), (0x2022, "*"), (0x2032, "'"),
    (0x2033, "\""), (0x2034, "\"'"), (0x2039, "'"), (0x203A, "'"), (0x2122, "(TM)"),
    (0x2120, "(SM)")]

def findSubstitution (cp : ℕ) : Option (List UInt8) :=
  (kSubs.find? fun row => row.1 = cp).map fun row => ascii row.2

/-- What is emitted for a code point. -/
def emitted (cp : ℕ) : List UInt8 :=
  if cp = 0x20 ∨ 0x21 ≤ cp ∧ cp ≤ 0x7E ∧ isMissingAscii cp = false then [UInt8.ofNat cp]
  else if isPassthroughNonAscii cp then encodeUtf8Short cp
  else (findSubstitution cp).getD (ascii "?")

/-- Append what fits with a terminator behind it, or nothing. -/
def appendBytes (dstCap : ℕ) (out src : List UInt8) : Option (List UInt8) :=
  if dstCap < out.length + src.length + 1 then none else some (out ++ src)

theorem length_readOn {extra high cp : ℕ} {bs rest : List UInt8}
    (read : readOn extra high bs = some (cp, rest)) : rest.length ≤ bs.length := by
  obtain ⟨split, -⟩ := eq_of_readOn read
  rw [split, List.length_append]
  exact Nat.le_add_left _ _

theorem decodeUtf8_cons (b0 : UInt8) (rest : List UInt8) :
    decodeUtf8 (b0 :: rest) =
      if b0 = 0 then (0, b0 :: rest)
      else if b0 < 0x80 then (b0.toNat, rest)
      else ((lead b0).bind fun l => readOn l.2 l.1 rest).getD (kBadCp, rest) := rfl

/-- Decoding goes on unless it ends the input. -/
theorem length_decodeUtf8 {b : UInt8} {rest : List UInt8} (more : (decodeUtf8 (b :: rest)).1 ≠ 0) :
    (decodeUtf8 (b :: rest)).2.length < (b :: rest).length := by
  rw [decodeUtf8_cons] at more ⊢
  split_ifs at more ⊢ with nul one
  · exact absurd rfl more
  · exact Nat.lt_succ_self _
  · cases read : (lead b).bind fun l => readOn l.2 l.1 rest with
    | none => exact Nat.lt_succ_self _
    | some r =>
        obtain ⟨l, -, read⟩ := Option.bind_eq_some_iff.1 read
        exact Nat.lt_succ_of_le (@length_readOn _ _ r.1 _ _ read)

/-- The loop of `sanitizeForMsgFont`. -/
def emitAll (dstCap : ℕ) (src out : List UInt8) : List UInt8 :=
  match src with
  | [] => out
  | b :: rest =>
      if _more : (decodeUtf8 (b :: rest)).1 = 0 then out
      else
        match appendBytes dstCap out (emitted (decodeUtf8 (b :: rest)).1) with
        | none => out
        | some out => emitAll dstCap (decodeUtf8 (b :: rest)).2 out
termination_by src.length
decreasing_by exact length_decodeUtf8 _more

def sanitizeForMsgFont (src : List UInt8) (dstCap : ℕ) : List UInt8 :=
  if dstCap = 0 then [] else emitAll dstCap src []

/-! ## What the text is to be -/

/-- The characters of the font that are used. -/
def HasGlyph (c : Char) : Prop :=
  c.toNat = 0x20 ∨ 0x21 ≤ c.toNat ∧ c.toNat ≤ 0x7E ∧ isMissingAscii c.toNat = false ∨
    isPassthroughNonAscii c.toNat = true

instance (c : Char) : Decidable (HasGlyph c) := inferInstanceAs (Decidable (_ ∨ _))

/-- A part of the input: a character, or a byte that does not start one. -/
inductive InputUnit where
  | char (c : Char)
  | malformed (b : UInt8)

/-- No character stands at the front. -/
def NoChar (src : List UInt8) : Prop := ∀ c rest, src ≠ String.utf8EncodeChar c ++ rest

inductive Reads : List UInt8 → List InputUnit → Prop where
  | nil : Reads [] []
  | char {rest : List UInt8} {us : List InputUnit} (c : Char) (tail : Reads rest us) :
      Reads (String.utf8EncodeChar c ++ rest) (.char c :: us)
  | malformed {rest : List UInt8} {us : List InputUnit} (b : UInt8) (none : NoChar (b :: rest))
      (tail : Reads rest us) : Reads (b :: rest) (.malformed b :: us)

def replacement : InputUnit → List UInt8
  | .char c => emitted c.toNat
  | .malformed _ => ascii "?"

/-- The text is terminated and has only characters of the font, it is what the longest front of the
units that fits is replaced by, and it stays as it is. -/
structure Folded (src : List UInt8) (dstCap : ℕ) : Prop where
  terminated : (sanitizeForMsgFont src dstCap).length < dstCap ∧ 0 ∉ sanitizeForMsgFont src dstCap
  glyphs : ∃ text, (∀ c ∈ text, HasGlyph c) ∧ sanitizeForMsgFont src dstCap = bytes text
  folds : ∃ read unread, Reads src (read ++ unread) ∧
    sanitizeForMsgFont src dstCap = read.flatMap replacement ∧
    ∀ u ∈ unread.head?, dstCap ≤ (sanitizeForMsgFont src dstCap).length + (replacement u).length
  again : sanitizeForMsgFont (sanitizeForMsgFont src dstCap) dstCap = sanitizeForMsgFont src dstCap

/-- A byte string, which ends where a NUL follows. -/
structure CString where
  bytes : List UInt8
  noNul : 0 ∉ bytes

/-- A lead byte with the continuation bytes that it announces, which encode no character: they are
too many, or make a surrogate or a number above the last code point. -/
def Misread (src : List UInt8) : Prop :=
  ∃ b rest bits extra cp after, src = b :: rest ∧ lead b = some (bits, extra) ∧
    readOn extra bits rest = some (cp, after) ∧ ¬ (least extra ≤ cp ∧ cp.isValidChar)

/-! ## Reading -/

/-- The code points up to one that ends the input. -/
def codePoints (src : List UInt8) : List ℕ :=
  match src with
  | [] => []
  | b :: rest =>
      if _more : (decodeUtf8 (b :: rest)).1 = 0 then []
      else (decodeUtf8 (b :: rest)).1 :: codePoints (decodeUtf8 (b :: rest)).2
termination_by src.length
decreasing_by exact length_decodeUtf8 _more

/-- Append replacements while they fit. -/
def fillUp (dstCap : ℕ) : List UInt8 → List (List UInt8) → List UInt8
  | out, [] => out
  | out, r :: rs => (appendBytes dstCap out r).elim out fun out => fillUp dstCap out rs

theorem codePoints_nil : codePoints [] = [] := by
  rw [codePoints.eq_def]

theorem codePoints_end {b : UInt8} {rest : List UInt8} (ends : (decodeUtf8 (b :: rest)).1 = 0) :
    codePoints (b :: rest) = [] := by
  rw [codePoints.eq_def]
  exact dif_pos ends

theorem codePoints_more {b : UInt8} {rest : List UInt8} (more : (decodeUtf8 (b :: rest)).1 ≠ 0) :
    codePoints (b :: rest) =
      (decodeUtf8 (b :: rest)).1 :: codePoints (decodeUtf8 (b :: rest)).2 := by
  rw [codePoints.eq_def]
  exact dif_neg more

theorem emitAll_eq (dstCap : ℕ) (src out : List UInt8) :
    emitAll dstCap src out = fillUp dstCap out ((codePoints src).map emitted) := by
  induction src, out using emitAll.induct dstCap with
  | case1 out => rw [emitAll.eq_def, codePoints_nil]; rfl
  | case2 out b rest ends =>
      rw [emitAll.eq_def, codePoints_end ends]
      exact dif_pos ends
  | case3 out b rest more full =>
      rw [emitAll.eq_def, codePoints_more more, List.map_cons, fillUp, full]
      simp only [dif_neg more, full, Option.elim_none]
  | case4 out b rest more out' fits ih =>
      rw [emitAll.eq_def, codePoints_more more, List.map_cons, fillUp, fits, Option.elim_some, ← ih]
      simp only [dif_neg more, fits]

theorem sanitizeForMsgFont_eq {dstCap : ℕ} (pos : 0 < dstCap) (src : List UInt8) :
    sanitizeForMsgFont src dstCap = fillUp dstCap [] ((codePoints src).map emitted) :=
  (if_neg pos.ne').trans (emitAll_eq dstCap src [])

theorem appendBytes_fits {dstCap : ℕ} {out r : List UInt8}
    (fits : (out ++ r).length < dstCap) : appendBytes dstCap out r = some (out ++ r) := by
  rw [List.length_append] at fits
  exact if_neg (not_lt.2 fits)

theorem appendBytes_full {dstCap : ℕ} {out r : List UInt8}
    (full : dstCap ≤ (out ++ r).length) : appendBytes dstCap out r = none := by
  rw [List.length_append] at full
  exact if_pos (Nat.lt_succ_of_le full)

/-- The longest front that fits is appended. -/
theorem fillUp_spec {dstCap : ℕ} (rs : List (List UInt8)) (out : List UInt8)
    (room : out.length < dstCap) :
    ∃ k, fillUp dstCap out rs = out ++ (rs.take k).flatten ∧
      (out ++ (rs.take k).flatten).length < dstCap ∧
      ∀ r ∈ (rs.drop k).head?, dstCap ≤ (out ++ (rs.take k).flatten).length + r.length := by
  induction rs generalizing out with
  | nil => exact ⟨0, (List.append_nil _).symm, by simpa using room, fun r member => by cases member⟩
  | cons r rs ih =>
      by_cases fits : (out ++ r).length < dstCap
      · obtain ⟨k, filled, short, next⟩ := ih (out ++ r) fits
        refine ⟨k + 1, ?_, ?_, ?_⟩
        · rw [fillUp, appendBytes_fits fits, Option.elim_some, filled, List.append_assoc]
          rfl
        · simpa [List.append_assoc] using short
        · simpa [List.append_assoc] using next
      · refine ⟨0, ?_, by simpa using room, ?_⟩
        · rw [fillUp, appendBytes_full (not_lt.1 fits), Option.elim_none]
          exact (List.append_nil _).symm
        · intro r' member
          cases member
          simpa using fits

/-- What fits as a whole is appended as a whole. -/
theorem fillUp_all {dstCap : ℕ} (rs : List (List UInt8)) {out : List UInt8}
    (fits : (out ++ rs.flatten).length < dstCap) : fillUp dstCap out rs = out ++ rs.flatten := by
  induction rs generalizing out with
  | nil => exact (List.append_nil _).symm
  | cons r rs ih =>
      rw [List.flatten_cons, ← List.append_assoc] at fits ⊢
      have first : (out ++ r).length < dstCap := by
        rw [List.length_append] at fits
        exact (Nat.le_add_right _ _).trans_lt fits
      rw [fillUp, appendBytes_fits first, Option.elim_some, ih fits]

/-! ## One unit -/

theorem toNat_lt_of_byte {b : UInt8} (low : b < 0x80) : b.toNat < 0x80 := low

theorem lead_ascii {b : UInt8} (low : b.toNat < 0xC0) : lead b = none := by
  rw [lead_eq, if_pos low]

/-- A character is decoded as its code point. -/
theorem decodeUtf8_char {c : Char} (no_nul : c.toNat ≠ 0) (rest : List UInt8) :
    decodeUtf8 (String.utf8EncodeChar c ++ rest) = (c.toNat, rest) := by
  by_cases high : 0x80 ≤ c.toNat
  · obtain ⟨b, bits, extra, tail, split, leads, read, -⟩ := read_utf8EncodeChar high rest
    have bound : ¬ b.toNat < 0xC0 := fun low => by
      rw [lead_ascii low] at leads
      cases leads
    have nonzero : b ≠ 0 := fun zero => bound (by rw [zero]; decide)
    have not_ascii : ¬ b < 0x80 := fun low => bound ((toNat_lt_of_byte low).trans (by decide))
    rw [split, decodeUtf8_cons, if_neg nonzero, if_neg not_ascii, leads, Option.bind_some, read]
    rfl
  · have value : (UInt8.ofNat c.toNat).toNat = c.toNat :=
      UInt8.toNat_ofNat_of_lt' (by change _ < 256; omega)
    have nonzero : UInt8.ofNat c.toNat ≠ 0 := fun zero => by
      rw [zero] at value
      exact no_nul value.symm
    have low : UInt8.ofNat c.toNat < 0x80 := by
      rw [UInt8.lt_iff_toNat_lt, value]
      exact not_le.1 high
    rw [utf8EncodeChar_ascii (not_le.1 high), List.singleton_append, decodeUtf8_cons,
      if_neg nonzero, if_pos low, value]

theorem ne_kBadCp (c : Char) : c.toNat ≠ kBadCp := by
  have h := c.valid
  change c.val.toNat.isValidChar at h
  change c.val.toNat ≠ _
  unfold Nat.isValidChar at h
  unfold kBadCp
  omega

/-- No character starts where the decoder finds a bad one, or reads too much. -/
theorem noChar_of_bad {b : UInt8} {rest : List UInt8} (no_nul : b ≠ 0)
    (bad : (decodeUtf8 (b :: rest)).1 = kBadCp) : NoChar (b :: rest) := by
  intro c after split
  by_cases zero : c.toNat = 0
  · rw [utf8EncodeChar_ascii (by rw [zero]; decide), zero, List.singleton_append] at split
    exact no_nul (List.cons.inj split).1
  · rw [split, decodeUtf8_char zero] at bad
    exact ne_kBadCp c bad

theorem noChar_of_misread {src : List UInt8} (misread : Misread src) : NoChar src := by
  obtain ⟨b, rest, bits, extra, cp, after, rfl, leads, read, ill⟩ := misread
  intro c after' split
  by_cases high : 0x80 ≤ c.toNat
  · obtain ⟨b', bits', extra', tail, split', leads', read', enough⟩ := read_utf8EncodeChar high after'
    obtain ⟨rfl, rfl⟩ := List.cons.inj (split.trans split')
    obtain ⟨rfl, rfl⟩ := Prod.mk.inj (Option.some.inj (leads.symm.trans leads'))
    obtain ⟨rfl, -⟩ := Prod.mk.inj (Option.some.inj (read.symm.trans read'))
    exact ill ⟨enough, c.valid⟩
  · rw [utf8EncodeChar_ascii (not_le.1 high), List.singleton_append] at split
    have low : b.toNat < 0xC0 := by
      rw [(List.cons.inj split).1, UInt8.toNat_ofNat']
      omega
    rw [lead_ascii low] at leads
    cases leads

theorem noChar_of_continuation {b : UInt8} (continuation : IsContinuation b) (rest : List UInt8) :
    NoChar (b :: rest) :=
  fun _ _ split => utf8EncodeChar_head split continuation

theorem not_misread_of_lead {b : UInt8} (none : lead b = none) (rest : List UInt8) :
    ¬ Misread (b :: rest) := by
  rintro ⟨b', rest', bits, extra, cp, after, split, leads, -⟩
  obtain ⟨rfl, rfl⟩ := List.cons.inj split
  rw [none] at leads
  cases leads

/-- What stands at the front: a character, a byte of none, or bytes that are misread. -/
theorem front_cases {b : UInt8} (no_nul : b ≠ 0) (rest : List UInt8) :
    (∃ c after, b :: rest = String.utf8EncodeChar c ++ after ∧ c.toNat ≠ 0 ∧ ¬ Misread (b :: rest)) ∨
      (decodeUtf8 (b :: rest) = (kBadCp, rest) ∧ ¬ Misread (b :: rest)) ∨ Misread (b :: rest) := by
  by_cases low : b < 0x80
  · left
    have small : b.toNat < 0x80 := toNat_lt_of_byte low
    have valid : b.toNat.isValidChar := .inl (small.trans (by decide))
    have value : (Char.ofNatAux b.toNat valid).toNat = b.toNat := rfl
    refine ⟨Char.ofNatAux b.toNat valid, rest, ?_, ?_, not_misread_of_lead (lead_ascii ?_) rest⟩
    · rw [utf8EncodeChar_ascii (by rw [value]; exact small), value, UInt8.ofNat_toNat]
      rfl
    · exact fun zero => no_nul (UInt8.toNat_inj.1 zero)
    · exact small.trans (by decide)
  · have decoded : decodeUtf8 (b :: rest) =
        ((lead b).bind fun l => readOn l.2 l.1 rest).getD (kBadCp, rest) := by
      rw [decodeUtf8_cons, if_neg no_nul, if_neg low]
    cases leads : lead b with
    | none =>
        right; left
        rw [decoded, leads]
        exact ⟨rfl, not_misread_of_lead leads rest⟩
    | some l =>
        obtain ⟨bits, extra⟩ := l
        rw [leads, Option.bind_some] at decoded
        dsimp only at decoded
        cases read : readOn extra bits rest with
        | none =>
            right; left
            rw [read] at decoded
            refine ⟨decoded, ?_⟩
            rintro ⟨b', rest', bits', extra', cp, after, split, leads', read', -⟩
            obtain ⟨rfl, rfl⟩ := List.cons.inj split
            cases leads.symm.trans leads'
            cases read.symm.trans read'
        | some r =>
            obtain ⟨cp, after⟩ := r
            by_cases well : least extra ≤ cp ∧ cp.isValidChar
            · left
              refine ⟨Char.ofNatAux cp well.2, after,
                utf8EncodeChar_of_read leads read well.1 well.2, ?_, ?_⟩
              · change cp ≠ 0
                obtain ⟨known, -⟩ := lead_eq_some.1 leads
                have some_bits : 0 < least extra := by
                  rcases known with rfl | rfl | rfl <;> decide
                exact (some_bits.trans_le well.1).ne'
              · rintro ⟨b', rest', bits', extra', cp', after', split, leads', read', ill⟩
                obtain ⟨rfl, rfl⟩ := List.cons.inj split
                cases leads.symm.trans leads'
                cases read.symm.trans read'
                exact ill well
            · right; right
              exact ⟨b, rest, bits, extra, cp, after, rfl, leads, read, well⟩

/-! ## Characters of the font -/

theorem glyphs_of_emitted_single {cp : ℕ}
    (one : cp = 0x20 ∨ 0x21 ≤ cp ∧ cp ≤ 0x7E ∧ isMissingAscii cp = false) :
    ∃ c : Char, HasGlyph c ∧ c.toNat = cp ∧ [UInt8.ofNat cp] = String.utf8EncodeChar c := by
  have small : cp < 0x80 := by omega
  have valid : cp.isValidChar := .inl (small.trans (by decide))
  refine ⟨Char.ofNatAux cp valid, one.imp id .inl, rfl, ?_⟩
  rw [utf8EncodeChar_ascii (c := Char.ofNatAux cp valid) small]
  rfl

/-- The code points that pass are encoded as their characters. -/
theorem passthrough_encoded {cp : ℕ} (passes : isPassthroughNonAscii cp = true) :
    encodeUtf8Short cp = String.utf8EncodeChar (Char.ofNat cp) ∧ cp < 0xd800 ∧ cp ≠ 0 ∧
      (encodeUtf8Short cp).length ≤ 4 ∧ (encodeUtf8Short cp).count 0x3F ≤ 1 := by
  revert cp
  unfold isPassthroughNonAscii
  simp only [decide_eq_true_eq]
  decide

theorem toNat_ofNat {cp : ℕ} (small : cp < 0xd800) : (Char.ofNat cp).toNat = cp := by
  have valid : cp.isValidChar := .inl small
  rw [Char.ofNat, dif_pos valid]
  rfl

/-- A row of the table is short text of the font. -/
def rowFits (row : ℕ × String) : Bool :=
  row.2.toList.all (fun c => decide (HasGlyph c) && decide (c.toNat < 0x80)) &&
    decide ((ascii row.2).length ≤ 4) && decide ((ascii row.2).count 0x3F ≤ 1)

theorem rows_fit : kSubs.all rowFits = true := by
  decide +kernel

theorem ascii_eq_bytes {s : String} (low : ∀ c ∈ s.toList, c.toNat < 0x80) :
    ascii s = bytes s.toList := by
  unfold ascii bytes
  generalize s.toList = text at low ⊢
  induction text with
  | nil => rfl
  | cons c text ih =>
      obtain ⟨first, others⟩ := List.forall_mem_cons.1 low
      rw [List.map_cons, List.flatMap_cons, ih others, utf8EncodeChar_ascii first]
      rfl

theorem glyphs_of_row {row : ℕ × String} (fits : rowFits row = true) :
    (∃ text, (∀ c ∈ text, HasGlyph c) ∧ ascii row.2 = bytes text) ∧
      (ascii row.2).length ≤ 4 ∧ (ascii row.2).count 0x3F ≤ 1 := by
  simp only [rowFits, Bool.and_eq_true, decide_eq_true_eq, List.all_eq_true] at fits
  obtain ⟨⟨text, short⟩, marks⟩ := fits
  exact ⟨⟨row.2.toList, fun c here => (text c here).1, ascii_eq_bytes fun c here => (text c here).2⟩,
    short, marks⟩

/-- The question mark, as a row of the table. -/
theorem mark_fits : rowFits (0, "?") = true := by
  decide +kernel

/-- What is emitted is text of the font, and at most four bytes with at most one question mark. -/
theorem emitted_spec (cp : ℕ) :
    (∃ text, (∀ c ∈ text, HasGlyph c) ∧ emitted cp = bytes text) ∧
      (emitted cp).length ≤ 4 ∧ (emitted cp).count 0x3F ≤ 1 := by
  unfold emitted
  split_ifs with one passes
  · obtain ⟨c, glyph, -, same⟩ := glyphs_of_emitted_single one
    refine ⟨⟨[c], List.forall_mem_singleton.2 glyph, ?_⟩, by simp, List.count_le_length⟩
    rw [same, bytes, List.flatMap_singleton]
  · obtain ⟨same, small, -, short, marks⟩ := passthrough_encoded passes
    refine ⟨⟨[Char.ofNat cp], List.forall_mem_singleton.2 (.inr (.inr ?_)), ?_⟩, short, marks⟩
    · rw [toNat_ofNat small]
      exact passes
    · rw [same, bytes, List.flatMap_singleton]
  · unfold findSubstitution
    cases found : kSubs.find? fun row => row.1 = cp with
    | none => exact glyphs_of_row mark_fits
    | some row =>
        exact glyphs_of_row (List.all_eq_true.1 rows_fit row (List.mem_of_find?_eq_some found))

/-- A character of the font stays. -/
theorem emitted_glyph {c : Char} (glyph : HasGlyph c) :
    emitted c.toNat = String.utf8EncodeChar c ∧ c.toNat ≠ 0 := by
  unfold emitted
  rcases or_assoc.2 glyph with one | passes
  · obtain ⟨c', -, value, same⟩ := glyphs_of_emitted_single one
    rw [if_pos one, same, Char.toNat_inj.1 value]
    exact ⟨rfl, by omega⟩
  · obtain ⟨same, -, nonzero, -⟩ := passthrough_encoded passes
    rw [Char.ofNat_toNat] at same
    have not_one : ¬ (c.toNat = 0x20 ∨ 0x21 ≤ c.toNat ∧ c.toNat ≤ 0x7E ∧
        isMissingAscii c.toNat = false) := by
      have high : ∀ cp ∈ [0x00A9, 0x00C5, 0x00E1, 0x00E8, 0x00E9, 0x00ED, 0x00F3, 0x2014, 0x2026],
          0x7E < cp := by decide
      have := high c.toNat (of_decide_eq_true passes)
      omega
    rw [if_neg not_one, if_pos passes]
    exact ⟨same, nonzero⟩

theorem utf8EncodeChar_cons (c : Char) : ∃ b tail, String.utf8EncodeChar c = b :: tail := by
  cases encoded : String.utf8EncodeChar c with
  | nil =>
      have none := congrArg List.length encoded
      rw [String.length_utf8EncodeChar] at none
      exact absurd none (Char.utf8Size_pos c).ne'
  | cons b tail => exact ⟨b, tail, rfl⟩

theorem codePoints_char {c : Char} (no_nul : c.toNat ≠ 0) (rest : List UInt8) :
    codePoints (String.utf8EncodeChar c ++ rest) = c.toNat :: codePoints rest := by
  obtain ⟨b, tail, encoded⟩ := utf8EncodeChar_cons c
  have decoded := decodeUtf8_char no_nul rest
  rw [encoded, List.cons_append] at decoded ⊢
  rw [codePoints_more (by rw [decoded]; exact no_nul), decoded]

theorem codePoints_glyphs {text : List Char} (glyphs : ∀ c ∈ text, HasGlyph c) :
    ((codePoints (bytes text)).map emitted).flatten = bytes text := by
  induction text with
  | nil => rw [bytes, List.flatMap_nil, codePoints_nil]; rfl
  | cons c text ih =>
      obtain ⟨glyph, others⟩ := List.forall_mem_cons.1 glyphs
      obtain ⟨same, no_nul⟩ := emitted_glyph glyph
      have split : bytes (c :: text) = String.utf8EncodeChar c ++ bytes text := List.flatMap_cons
      rw [split, codePoints_char no_nul, List.map_cons, List.flatten_cons, ih others, same]

/-- Text of the font that fits stays as it is. -/
theorem sanitizeForMsgFont_glyphs {dstCap : ℕ} {text : List Char} (glyphs : ∀ c ∈ text, HasGlyph c)
    (fits : (bytes text).length < dstCap) : sanitizeForMsgFont (bytes text) dstCap = bytes text := by
  have whole := codePoints_glyphs glyphs
  rw [sanitizeForMsgFont_eq (Nat.zero_lt_of_lt fits), fillUp_all]
  · rw [whole, List.nil_append]
  · rw [whole]
    exact fits

theorem glyphs_flatten {rs : List (List UInt8)}
    (each : ∀ r ∈ rs, ∃ text, (∀ c ∈ text, HasGlyph c) ∧ r = bytes text) :
    ∃ text, (∀ c ∈ text, HasGlyph c) ∧ rs.flatten = bytes text := by
  induction rs with
  | nil => exact ⟨[], fun c member => absurd member List.not_mem_nil, rfl⟩
  | cons r rs ih =>
      obtain ⟨first, others⟩ := List.forall_mem_cons.1 each
      obtain ⟨text, glyphs, same⟩ := first
      obtain ⟨text', glyphs', same'⟩ := ih others
      refine ⟨text ++ text', List.forall_mem_append.2 ⟨glyphs, glyphs'⟩, ?_⟩
      rw [List.flatten_cons, same, same']
      exact List.flatMap_append.symm

/-- Any input becomes text of the font that fits. -/
theorem sanitizeForMsgFont_glyphs_only {dstCap : ℕ} (pos : 0 < dstCap) (src : List UInt8) :
    (sanitizeForMsgFont src dstCap).length < dstCap ∧
      ∃ text, (∀ c ∈ text, HasGlyph c) ∧ sanitizeForMsgFont src dstCap = bytes text := by
  obtain ⟨k, filled, short, -⟩ := fillUp_spec ((codePoints src).map emitted) [] pos
  rw [sanitizeForMsgFont_eq pos, filled]
  refine ⟨short, glyphs_flatten fun r member => ?_⟩
  obtain ⟨cp, -, rfl⟩ := List.mem_map.1 (List.mem_of_mem_take member)
  exact (emitted_spec cp).1

theorem zero_notMem_bytes {text : List Char} (glyphs : ∀ c ∈ text, HasGlyph c) :
    0 ∉ bytes text := by
  intro zero
  obtain ⟨c, member, here⟩ := List.mem_flatMap.1 zero
  obtain ⟨-, no_nul⟩ := emitted_glyph (glyphs c member)
  exact ne_zero_of_mem_utf8EncodeChar (fun nul => no_nul (congrArg Char.toNat nul)) here rfl

/-! ## Units and code points -/

theorem cons_of_char {c : Char} {b : UInt8} {rest after : List UInt8}
    (split : b :: rest = String.utf8EncodeChar c ++ after) :
    ∃ tail, String.utf8EncodeChar c = b :: tail ∧ rest = tail ++ after := by
  obtain ⟨b', tail, encoded⟩ := utf8EncodeChar_cons c
  rw [encoded, List.cons_append] at split
  obtain ⟨rfl, rfl⟩ := List.cons.inj split
  exact ⟨tail, encoded, rfl⟩

/-- A reading of a character followed by more takes the character. -/
theorem reads_char {c : Char} (no_nul : c.toNat ≠ 0) {after : List UInt8} {us : List InputUnit}
    (reads : Reads (String.utf8EncodeChar c ++ after) us) :
    ∃ us', us = .char c :: us' ∧ Reads after us' := by
  generalize whole : String.utf8EncodeChar c ++ after = src at reads
  cases reads with
  | nil =>
      obtain ⟨b, tail, encoded⟩ := utf8EncodeChar_cons c
      rw [encoded] at whole
      cases whole
  | char c' tail =>
      have one := decodeUtf8_char no_nul after
      by_cases zero : c'.toNat = 0
      · have nul : UInt8.ofNat 0 = 0 := rfl
        rw [whole, utf8EncodeChar_ascii (by rw [zero]; decide), zero, nul, List.singleton_append,
          decodeUtf8_cons, if_pos rfl] at one
        exact absurd (congrArg Prod.fst one).symm no_nul
      · rw [whole, decodeUtf8_char zero] at one
        obtain ⟨value, rfl⟩ := Prod.mk.inj one
        obtain rfl := Char.toNat_inj.1 value
        exact ⟨_, rfl, tail⟩
  | malformed b none tail => exact absurd whole.symm (none c after)

theorem reads_noChar {b : UInt8} {rest : List UInt8} {us : List InputUnit}
    (none : NoChar (b :: rest)) (reads : Reads (b :: rest) us) :
    ∃ us', us = .malformed b :: us' ∧ Reads rest us' := by
  generalize whole : b :: rest = src at reads
  cases reads with
  | nil => cases whole
  | char c tail => exact absurd whole (none c _)
  | malformed b' none' tail =>
      obtain ⟨rfl, rfl⟩ := List.cons.inj whole
      exact ⟨_, rfl, tail⟩

/-- Continuation bytes at the front are read one by one. -/
theorem reads_continuations {extra cp : ℕ} {after : List UInt8} {us : List InputUnit}
    (reads : Reads (continuations extra cp ++ after) us) :
    ∃ us', Reads after us' ∧
      us.flatMap replacement = List.replicate extra 0x3F ++ us'.flatMap replacement := by
  induction extra generalizing us with
  | zero => exact ⟨us, reads, rfl⟩
  | succ extra ih =>
      rw [continuations, List.cons_append] at reads
      obtain ⟨us', rfl, tail⟩ :=
        reads_noChar (noChar_of_continuation (isContinuation_ofNat cp extra).1 _) reads
      obtain ⟨us'', tail, same⟩ := ih tail
      refine ⟨us'', tail, ?_⟩
      rw [List.flatMap_cons, same]
      rfl

/-- Every input can be read. -/
theorem exists_reads (src : List UInt8) : ∃ us, Reads src us := by
  induction length : src.length using Nat.strong_induction_on generalizing src with
  | _ n ih =>
      cases src with
      | nil => exact ⟨[], .nil⟩
      | cons b rest =>
          by_cases char : NoChar (b :: rest)
          · obtain ⟨us, reads⟩ := ih rest.length (length ▸ Nat.lt_succ_self _) rest rfl
            exact ⟨_, .malformed b char reads⟩
          · unfold NoChar at char
            push Not at char
            obtain ⟨c, after, split⟩ := char
            obtain ⟨tail, -, rfl⟩ := cons_of_char split
            have shorter : after.length < n := by
              rw [← length, List.length_cons, List.length_append]
              omega
            obtain ⟨us, reads⟩ := ih after.length shorter after rfl
            rw [split]
            exact ⟨_, .char c reads⟩

/-- The part of the input that is misread, if there is one, starts at a lead byte. -/
theorem misread_suffix_char {c : Char} {after tail : List UInt8}
    (suffix : tail <:+ String.utf8EncodeChar c ++ after) (misread : Misread tail)
    (whole : ¬ Misread (String.utf8EncodeChar c ++ after)) : tail <:+ after := by
  obtain ⟨front, split⟩ := suffix
  rcases List.append_eq_append_iff.1 split with ⟨middle, encoded, rfl⟩ | ⟨middle, -, rest⟩
  · cases front with
    | nil =>
        rw [List.nil_append] at encoded
        exact absurd (encoded ▸ misread) whole
    | cons b front =>
        cases middle with
        | nil => exact List.suffix_rfl
        | cons b' middle =>
            -- the misread part would start with a continuation byte
            have continuation := isContinuation_of_tail encoded b' (by simp)
            rw [isContinuation_iff] at continuation
            exact absurd misread (not_misread_of_lead (lead_ascii continuation.2) _)
  · exact ⟨middle, rest.symm⟩

theorem toNat_ne_zero {c : Char} {rest : List UInt8} (no_nul : 0 ∉ String.utf8EncodeChar c ++ rest) :
    c.toNat ≠ 0 := by
  intro zero
  have nul : UInt8.ofNat 0 = 0 := rfl
  rw [utf8EncodeChar_ascii (by rw [zero]; decide), zero, nul] at no_nul
  exact no_nul List.mem_cons_self

theorem kBadCp_ne_zero : kBadCp ≠ 0 := by
  decide

theorem emitted_kBadCp : emitted kBadCp = ascii "?" := by
  decide +kernel

/-- Where nothing is misread, the units are replaced by what is emitted for the code points. -/
theorem replaced_eq {src : List UInt8} {us : List InputUnit} (no_nul : 0 ∉ src)
    (well : ∀ tail, tail <:+ src → ¬ Misread tail) (reads : Reads src us) :
    us.map replacement = (codePoints src).map emitted := by
  induction reads with
  | nil => rw [codePoints_nil]; rfl
  | @char rest us c tail ih =>
      have later := ih (fun zero => no_nul (List.mem_append_right _ zero)) fun tail suffix =>
        well tail (suffix.trans (List.suffix_append _ _))
      rw [codePoints_char (toNat_ne_zero no_nul), List.map_cons, List.map_cons, later]
      rfl
  | @malformed rest us b none tail ih =>
      have later := ih (fun zero => no_nul (List.mem_cons_of_mem _ zero)) fun tail suffix =>
        well tail (suffix.trans (List.suffix_cons _ _))
      have nonzero : b ≠ 0 := fun zero => no_nul (zero ▸ List.mem_cons_self)
      rcases front_cases nonzero rest with ⟨c, after, split, -⟩ | ⟨bad, -⟩ | misread
      · exact absurd split (none c after)
      · rw [codePoints_more (by rw [bad]; exact kBadCp_ne_zero), bad, List.map_cons, List.map_cons, later,
          emitted_kBadCp]
        rfl
      · exact absurd misread (well _ List.suffix_rfl)

/-- How many question marks the code points and the units become. -/
def marksEmitted (src : List UInt8) : ℕ := ((codePoints src).map emitted).flatten.count 0x3F

def marksReplaced (us : List InputUnit) : ℕ := (us.flatMap replacement).count 0x3F

theorem marksReplaced_cons (u : InputUnit) (us : List InputUnit) :
    marksReplaced (u :: us) = (replacement u).count 0x3F + marksReplaced us := by
  rw [marksReplaced, List.flatMap_cons, List.count_append, marksReplaced]

theorem marksEmitted_more {b : UInt8} {rest after : List UInt8} {cp : ℕ}
    (decoded : decodeUtf8 (b :: rest) = (cp, after)) (more : cp ≠ 0) :
    marksEmitted (b :: rest) = (emitted cp).count 0x3F + marksEmitted after := by
  rw [marksEmitted, codePoints_more (by rw [decoded]; exact more), decoded, List.map_cons,
    List.flatten_cons, List.count_append, marksEmitted]

theorem length_replacement (u : InputUnit) : (replacement u).length ≤ 4 := by
  cases u with
  | char c => exact (emitted_spec c.toNat).2.1
  | malformed b => exact (glyphs_of_row mark_fits).2.1

theorem marks_malformed (b : UInt8) : (replacement (.malformed b)).count 0x3F = 1 := by
  have one : (ascii "?").count 0x3F = 1 := by decide +kernel
  exact one

theorem not_misread_nil : ¬ Misread [] := by
  rintro ⟨b, rest, bits, extra, cp, after, split, -⟩
  cases split

/-- Bytes that are misread become fewer question marks than there are bytes. -/
theorem marks_misread {src : List UInt8} {us : List InputUnit} (misread : Misread src)
    (reads : Reads src us) :
    ∃ after us', Reads after us' ∧ after <:+ src ∧ after.length < src.length ∧
      marksReplaced us' + 2 ≤ marksReplaced us ∧ marksEmitted src ≤ marksEmitted after + 1 := by
  have none := noChar_of_misread misread
  obtain ⟨b, rest, bits, extra, cp, after, rfl, leads, read, -⟩ := misread
  obtain ⟨known, -⟩ := lead_eq_some.1 leads
  obtain ⟨rfl, -⟩ := eq_of_readOn read
  obtain ⟨us, rfl, tail⟩ := reads_noChar none reads
  obtain ⟨us', reads', same⟩ := reads_continuations tail
  refine ⟨after, us', reads', (List.suffix_append _ _).trans (List.suffix_cons _ _), ?_, ?_, ?_⟩
  · rw [List.length_cons, List.length_append]
    omega
  · have count : marksReplaced us = extra + marksReplaced us' := by
      rw [marksReplaced, same, List.count_append, List.count_replicate_self, marksReplaced]
    rw [marksReplaced_cons, marks_malformed, count]
    omega
  · have bound : ¬ b.toNat < 0xC0 := fun low => by
      rw [lead_ascii low] at leads
      cases leads
    have nonzero : b ≠ 0 := fun zero => bound (by rw [zero]; decide)
    have not_ascii : ¬ b < 0x80 := fun low => bound ((toNat_lt_of_byte low).trans (by decide))
    have decoded : decodeUtf8 (b :: (continuations extra cp ++ after)) = (cp, after) := by
      rw [decodeUtf8_cons, if_neg nonzero, if_neg not_ascii, leads, Option.bind_some, read]
      rfl
    by_cases ends : cp = 0
    · rw [marksEmitted, codePoints_end (by rw [decoded]; exact ends)]
      exact Nat.zero_le _
    · rw [marksEmitted_more decoded ends]
      have one := (emitted_spec cp).2.2
      omega

/-- The code points become no more question marks than the units, and fewer if any are misread. -/
theorem marks_le {src : List UInt8} {us : List InputUnit} (no_nul : 0 ∉ src) (reads : Reads src us) :
    marksEmitted src ≤ marksReplaced us ∧
      ((∃ tail, tail <:+ src ∧ Misread tail) → marksEmitted src < marksReplaced us) := by
  induction length : src.length using Nat.strong_induction_on generalizing src us with
  | _ n ih =>
      cases src with
      | nil =>
          rw [marksEmitted, codePoints_nil]
          refine ⟨Nat.zero_le _, ?_⟩
          rintro ⟨tail, suffix, misread⟩
          rw [List.suffix_nil.1 suffix] at misread
          exact absurd misread not_misread_nil
      | cons b rest =>
          have nonzero : b ≠ 0 := fun zero => no_nul (zero ▸ List.mem_cons_self)
          rcases front_cases nonzero rest with ⟨c, after, split, nul, well⟩ | ⟨bad, well⟩ | misread
          · rw [split] at reads no_nul well ⊢
            obtain ⟨us, rfl, tail⟩ := reads_char nul reads
            have shorter : after.length < n := by
              obtain ⟨front, -, rfl⟩ := cons_of_char split
              rw [← length, List.length_cons, List.length_append]
              omega
            obtain ⟨le, lt⟩ :=
              ih after.length shorter (fun zero => no_nul (List.mem_append_right _ zero)) tail rfl
            have count : marksEmitted (String.utf8EncodeChar c ++ after) =
                (emitted c.toNat).count 0x3F + marksEmitted after := by
              rw [marksEmitted, codePoints_char nul, List.map_cons, List.flatten_cons,
                List.count_append, marksEmitted]
            rw [count, marksReplaced_cons]
            refine ⟨Nat.add_le_add_left le _, ?_⟩
            rintro ⟨tail, suffix, misread⟩
            exact Nat.add_lt_add_left
              (lt ⟨tail, misread_suffix_char suffix misread well, misread⟩) _
          · have none := noChar_of_bad nonzero (congrArg Prod.fst bad)
            obtain ⟨us, rfl, tail⟩ := reads_noChar none reads
            obtain ⟨le, lt⟩ := ih rest.length (length ▸ Nat.lt_succ_self _)
              (fun zero => no_nul (List.mem_cons_of_mem _ zero)) tail rfl
            rw [marksEmitted_more bad kBadCp_ne_zero, marksReplaced_cons, emitted_kBadCp]
            refine ⟨Nat.add_le_add_left le _, ?_⟩
            rintro ⟨tail, suffix, misread⟩
            rcases List.suffix_cons_iff.1 suffix with rfl | later
            · exact absurd misread well
            · exact Nat.add_lt_add_left (lt ⟨tail, later, misread⟩) _
          · obtain ⟨after, us', reads', suffix, shorter, replaced, emitted⟩ :=
              marks_misread misread reads
            obtain ⟨le, -⟩ := ih after.length (length ▸ shorter)
              (fun zero => no_nul (suffix.subset zero)) reads' rfl
            exact ⟨by omega, fun _ => by omega⟩

/-- The text is folded as it should be, whatever the size of the buffer, exactly if the input has
no bytes that are misread. -/
theorem folded_iff (src : CString) :
    (∀ dstCap, 0 < dstCap → Folded src.bytes dstCap) ↔
      ∀ tail, tail <:+ src.bytes → ¬ Misread tail := by
  obtain ⟨src, no_nul⟩ := src
  dsimp only
  constructor
  · intro folded tail suffix misread
    let all := ((codePoints src).map emitted).flatten
    have fits : all.length < all.length + 5 := by omega
    obtain ⟨-, -, ⟨read, unread, reads, same, next⟩, -⟩ :=
      folded (all.length + 5) (Nat.succ_pos _)
    have whole : sanitizeForMsgFont src (all.length + 5) = all := by
      rw [sanitizeForMsgFont_eq (Nat.succ_pos _), fillUp_all _ (by rw [List.nil_append]; exact fits)]
      rfl
    rw [whole] at same next
    have none_unread : unread = [] := by
      cases unread with
      | nil => rfl
      | cons u us =>
          have full := next u rfl
          have short := length_replacement u
          omega
    rw [none_unread, List.append_nil] at reads
    have fewer := (marks_le no_nul reads).2 ⟨tail, suffix, misread⟩
    rw [marksReplaced, ← same] at fewer
    exact lt_irrefl _ fewer
  · intro well dstCap pos
    obtain ⟨short, text, glyphs, only⟩ := sanitizeForMsgFont_glyphs_only pos src
    refine ⟨⟨short, ?_⟩, ⟨text, glyphs, only⟩, ?_, ?_⟩
    · rw [only]
      exact zero_notMem_bytes glyphs
    · obtain ⟨us, reads⟩ := exists_reads src
      have replaced := replaced_eq no_nul well reads
      obtain ⟨k, filled, -, next⟩ := fillUp_spec ((codePoints src).map emitted) [] pos
      rw [sanitizeForMsgFont_eq pos, filled]
      refine ⟨us.take k, us.drop k, by rwa [List.take_append_drop], ?_, fun u member => ?_⟩
      · rw [← replaced, ← List.map_take, List.nil_append]
        rfl
      · apply next
        rw [← replaced, ← List.map_drop, List.head?_map]
        exact Option.mem_map_of_mem _ member
    · rw [only] at short ⊢
      exact sanitizeForMsgFont_glyphs glyphs short

/-- An overlong NUL between two letters. -/
def overlongNul : CString := ⟨[0x41, 0xC0, 0x80, 0x42], by decide⟩

theorem overlongNul_sanitized : sanitizeForMsgFont overlongNul.bytes 64 = [0x41] := by
  have letter : decodeUtf8 [0x41, 0xC0, 0x80, 0x42] = (0x41, [0xC0, 0x80, 0x42]) := by decide
  have nul : decodeUtf8 [0xC0, 0x80, 0x42] = (0, [0x42]) := by decide
  rw [sanitizeForMsgFont_eq (by decide), overlongNul, codePoints_more (by rw [letter]; decide),
    letter, codePoints_end (by rw [nul])]
  decide +kernel

/-- The text is cut at it, although the buffer has room. -/
theorem overlongNul_cut : ¬ Folded overlongNul.bytes 64 := by
  rintro ⟨-, -, ⟨read, unread, reads, same, next⟩, -⟩
  rw [overlongNul_sanitized] at same next
  have none_unread : unread = [] := by
    cases unread with
    | nil => rfl
    | cons u us =>
        have full := next u rfl
        have short := length_replacement u
        rw [List.length_singleton] at full
        omega
  rw [none_unread, List.append_nil] at reads
  have misread : Misread [0xC0, 0x80, 0x42] :=
    ⟨0xC0, [0x80, 0x42], 0, 1, 0, [0x42], rfl, by decide, by decide, by decide⟩
  have fewer := (marks_le overlongNul.noNul reads).2 ⟨_, ⟨[0x41], rfl⟩, misread⟩
  rw [marksReplaced, ← same] at fewer
  exact absurd fewer (by rw [List.count_eq_zero_of_not_mem (by decide)]; exact Nat.not_lt_zero _)

end SmoArchipelago.Switch.MsgFontSafe
