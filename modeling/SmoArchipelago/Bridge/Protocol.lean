import Mathlib

/-! # Wire records of the bridge

The item and check records that the bridge keeps, sends to the Switch and receives
from it, and the item records of the Archipelago server. -/

namespace SmoArchipelago.Bridge

inductive ItemKind where
  | moon
  | capture
  | ability
  | other
  deriving DecidableEq

def ItemKind.value : ItemKind → String
  | .moon => "moon"
  | .capture => "capture"
  | .ability => "ability"
  | .other => "other"

@[simp] theorem ItemKind.value_inj {k k' : ItemKind} : k.value = k'.value ↔ k = k' := by
  cases k <;> cases k' <;> decide

inductive Classification where
  | progression
  | useful
  | trap
  | filler
  deriving DecidableEq

def Classification.value : Classification → String
  | .progression => "progression"
  | .useful => "useful"
  | .trap => "trap"
  | .filler => "filler"

/-- The dominant class of an item's flag bits. -/
def classificationFromFlags (flags : ℕ) : Classification :=
  if flags.testBit 0 then .progression
  else if flags.testBit 1 then .useful
  else if flags.testBit 2 then .trap
  else .filler

/-- What locates an item or a check; the raw identifiers come from the Switch. -/
structure ItemRef where
  kind : String := ItemKind.moon.value
  kingdom : Option String := none
  shineId : Option String := none
  cap : Option String := none
  name : Option String := none
  stageName : Option String := none
  objectId : Option String := none
  shineUid : Option ℤ := none
  hackName : Option String := none
  classification : Option String := none
  deriving DecidableEq

/-- An item to be applied on the Switch. -/
structure ItemMsg where
  kind : String := ItemKind.moon.value
  kingdom : Option String := none
  shineId : Option String := none
  cap : Option String := none
  name : Option String := none
  sender : String := "self"
  hackName : Option String := none
  classification : Option String := none
  deriving DecidableEq

/-- A check message, or a snapshot entry in the same form. -/
structure Check where
  kind : Option String := none
  kingdom : Option String := none
  shineId : Option String := none
  cap : Option String := none
  stageName : Option String := none
  objectId : Option String := none
  shineUid : Option ℤ := none
  hackName : Option String := none
  seq : Option ℕ := none
  deriving DecidableEq

/-- `if s` of the source: a string that is there and not empty. -/
def Present (s : Option String) : Prop := ∃ t, s = some t ∧ t ≠ ""

instance : ∀ s, Decidable (Present s)
  | none => isFalse fun ⟨_, h, _⟩ => nomatch h
  | some t =>
      if empty : t = "" then isFalse fun ⟨_, h, present⟩ => present (Option.some.inj h ▸ empty)
      else isTrue ⟨t, rfl, empty⟩

@[simp] theorem not_present_none : ¬ Present none := fun ⟨_, h, _⟩ => nomatch h

@[simp] theorem present_some (t : String) : Present (some t) ↔ t ≠ "" :=
  ⟨fun ⟨_, h, present⟩ => Option.some.inj h ▸ present, fun present => ⟨t, rfl, present⟩⟩

/-- An entry of the server's item history. -/
structure NetworkItem where
  item : Option ℤ
  player : Option ℤ := none
  location : Option ℤ := none
  flags : ℕ := 0
  deriving DecidableEq

end SmoArchipelago.Bridge
