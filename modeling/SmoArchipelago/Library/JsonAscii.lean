import SmoArchipelago.Library.JsonText

/-! # Compact JSON text in ASCII

What a writer prints that escapes every character outside the printable ASCII range, a character
above the basic plane as its two UTF-16 units. -/

namespace SmoArchipelago.Library.JsonText

/-- The escape of a UTF-16 unit. -/
def unit (n : ℕ) : List Char :=
  ['\\', 'u', Nat.digitChar (n / 4096 % 16), Nat.digitChar (n / 256 % 16),
    Nat.digitChar (n / 16 % 16), Nat.digitChar (n % 16)]

def escapeAscii (c : Char) : List Char :=
  if c = '"' ∨ c = '\\' then ['\\', c]
  else if c = '\n' then ['\\', 'n']
  else if c = '\r' then ['\\', 'r']
  else if c = '\t' then ['\\', 't']
  else if c = '\x08' then ['\\', 'b']
  else if c = '\x0c' then ['\\', 'f']
  else if 0x20 ≤ c.toNat ∧ c.toNat ≤ 0x7e then [c]
  else if c.toNat < 0x10000 then unit c.toNat
  else
    unit (0xd800 + (c.toNat - 0x10000) / 0x400) ++ unit (0xdc00 + (c.toNat - 0x10000) % 0x400)

def quotedAscii (s : String) : List Char := '"' :: (s.toList.flatMap escapeAscii ++ ['"'])

/-- An object whose strings are in ASCII, its values printed. -/
def objectAscii (fields : List (String × List Char)) : List Char :=
  '{' :: (commas (fields.map fun f => quotedAscii f.1 ++ ':' :: f.2) ++ ['}'])

/-- A character that no writer escapes. -/
def printable (c : Char) : Bool := c ≠ '"' && c ≠ '\\' && 0x20 ≤ c.toNat && c.toNat ≤ 0x7e

theorem escapes_printable {c : Char} (h : printable c = true) :
    escape c = [c] ∧ escapeAscii c = [c] := by
  simp only [printable, Bool.and_eq_true, decide_eq_true_eq] at h
  obtain ⟨⟨⟨no_quote, no_backslash⟩, low⟩, high⟩ := h
  have unmarked : ¬ (c = '"' ∨ c = '\\') := not_or.2 ⟨no_quote, no_backslash⟩
  have apart (d : Char) (control : d.toNat < 0x20) : c ≠ d := by
    rintro rfl
    omega
  have newline := apart '\n' (by decide)
  have ret := apart '\r' (by decide)
  have tab := apart '\t' (by decide)
  have back := apart '\x08' (by decide)
  have feed := apart '\x0c' (by decide)
  constructor
  · rw [escape, if_neg unmarked, if_neg newline, if_neg ret, if_neg tab, if_neg back, if_neg feed,
      if_neg (by omega)]
  · rw [escapeAscii, if_neg unmarked, if_neg newline, if_neg ret, if_neg tab, if_neg back,
      if_neg feed, if_pos ⟨low, high⟩]

/-- Both writers print such a string alike. -/
theorem quotedAscii_eq {s : String} (h : ∀ c ∈ s.toList, printable c = true) :
    quotedAscii s = quoted s := by
  have same : s.toList.flatMap escapeAscii = s.toList.flatMap escape :=
    List.flatMap_congr fun c member =>
      (escapes_printable (h c member)).2.trans (escapes_printable (h c member)).1.symm
  rw [quotedAscii, quoted, same]

end SmoArchipelago.Library.JsonText
