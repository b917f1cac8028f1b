import SmoArchipelago.Library.OptionMap
import SmoArchipelago.World.MoonLogic
import SmoArchipelago.World.RequiresReaders

/-! # What compiled moon requirements mean

The string compiled from a moon record is satisfied where one of its methods can be
performed, on both compilers, and the two strings part where only the spin jump reaches a
height. -/

namespace SmoArchipelago.World

open Library Library.TextScan
open Bridge (isSpace)

/-! ## What the texts ask for -/

/-- A text that is empty or of the grammar. -/
def Formed (text : List Char) : Prop :=
  text = [] ∨ ∃ e : Requires Leaf true, Requires.text Leaf.text e = text

/-- The entrance logic takes the text for satisfied. -/
def Truth (held : String → ℕ) (text : List Char) : Prop :=
  evaluateInteriorRequires held text = some true

theorem truth_nil (held : String → ℕ) : Truth held [] := rfl

theorem truth_text (held : String → ℕ) (e : Requires Leaf true) :
    Truth held (Requires.text Leaf.text e) ↔
      e.meaning Connective.apply (Leaf.value held) = true := by
  unfold Truth
  rw [evaluateInteriorRequires_text, Option.some_inj]

/-- A text of the grammar is read without an exception. -/
theorem evaluates_of_formed (held : String → ℕ) {text : List Char} (formed : Formed text) :
    ∃ value, evaluateInteriorRequires held text = some value := by
  rcases formed with rfl | ⟨e, rfl⟩
  · exact ⟨true, rfl⟩
  · exact ⟨_, evaluateInteriorRequires_text held e⟩

/-- The formulas of texts of the grammar. -/
theorem exists_formulas {parts : List (List Char)} (formed : ∀ part ∈ parts, Formed part)
    (visible : ∀ part ∈ parts, part ≠ []) :
    ∃ es : List (Requires Leaf true), es.map (Requires.text Leaf.text) = parts := by
  induction parts with
  | nil => exact ⟨[], rfl⟩
  | cons part parts ih =>
      obtain ⟨es, texts⟩ := ih (fun p member => formed p (List.mem_cons_of_mem part member))
        (fun p member => visible p (List.mem_cons_of_mem part member))
      rcases formed part List.mem_cons_self with empty | ⟨e, text⟩
      · exact absurd empty (visible part List.mem_cons_self)
      · exact ⟨e :: es, by rw [List.map_cons, text, texts]⟩

section Joining

variable (held : String → ℕ) {parts : List (List Char)}

/-- Joined parts are the text of the joined formulas, where some part is not empty. -/
theorem joinParts_eq {o : Connective} {w : Written o} {sep : String}
    (spelled : inWords o w = sep.toList) (formed : ∀ part ∈ parts, Formed part) :
    (joinParts sep parts = [] ∧ ∀ part ∈ parts, part = []) ∨
      ∃ (e : Requires Leaf true) (es : List (Requires Leaf true)),
        (e :: es).map (Requires.text Leaf.text) = parts.filter (· ≠ []) ∧
          joinParts sep parts = Requires.text Leaf.text (joined w e es) := by
  have visible : ∀ part ∈ parts.filter (· ≠ []), Formed part ∧ part ≠ [] := by
    intro part member
    obtain ⟨inside, nonempty⟩ := List.mem_filter.1 member
    exact ⟨formed part inside, by simpa using nonempty⟩
  obtain ⟨es, texts⟩ := exists_formulas (fun p member => (visible p member).1)
    (fun p member => (visible p member).2)
  unfold joinParts
  cases es with
  | nil =>
      left
      rw [← texts]
      refine ⟨rfl, ?_⟩
      intro part member
      by_contra nonempty
      have inside : part ∈ parts.filter (· ≠ []) :=
        List.mem_filter.2 ⟨member, by simpa using nonempty⟩
      rw [← texts] at inside
      cases inside
  | cons e es =>
      right
      refine ⟨e, es, texts, ?_⟩
      rw [← texts, text_joined]
      cases es with
      | nil => rfl
      | cons e' es => rw [if_neg (List.cons_ne_nil _ _), spelled]; rfl

theorem mem_texts {e : Requires Leaf true} {es : List (Requires Leaf true)}
    (texts : (e :: es).map (Requires.text Leaf.text) = parts.filter (· ≠ [])) {part : List Char} :
    (part ∈ parts ∧ part ≠ []) ↔ ∃ d ∈ e :: es, Requires.text Leaf.text d = part := by
  rw [← List.mem_map, texts, List.mem_filter, decide_eq_true_eq]

def andLower : Written .and := Connective.written .and "and".toList (by decide)

def orLower : Written .or := Connective.written .or "or".toList (by decide)

theorem formed_joinParts_and (formed : ∀ part ∈ parts, Formed part) :
    Formed (joinParts " and " parts) ∧
      (Truth held (joinParts " and " parts) ↔ ∀ part ∈ parts, Truth held part) := by
  have spelled : inWords .and andLower = " and ".toList := rfl
  rcases joinParts_eq spelled formed with ⟨empty, all⟩ | ⟨e, es, texts, text⟩
  · rw [empty]
    refine ⟨.inl rfl, iff_of_true (truth_nil held) ?_⟩
    intro part member
    rw [all part member]
    exact truth_nil held
  · refine ⟨.inr ⟨_, text.symm⟩, ?_⟩
    rw [text, truth_text, meaning_joined_and, List.all_eq_true]
    constructor
    · intro all part member
      by_cases empty : part = []
      · rw [empty]
        exact truth_nil held
      · obtain ⟨d, inside, rfl⟩ := (mem_texts texts).1 ⟨member, empty⟩
        exact (truth_text held d).2 (all d inside)
    · intro all d inside
      obtain ⟨member, -⟩ := (mem_texts texts).2 ⟨d, inside, rfl⟩
      exact (truth_text held d).1 (all _ member)

theorem formed_orJoin (formed : ∀ part ∈ parts, Formed part) (some_part : parts ≠ [])
    (visible : ∀ part ∈ parts, part ≠ []) :
    (Formed (orJoin parts) ∧ orJoin parts ≠ []) ∧
      (Truth held (orJoin parts) ↔ ∃ part ∈ parts, Truth held part) := by
  have spelled : inWords .or orLower = " or ".toList := rfl
  rcases joinParts_eq spelled formed with ⟨-, all⟩ | ⟨e, es, texts, text⟩
  · obtain ⟨part, rest, rfl⟩ := List.exists_cons_of_ne_nil some_part
    exact absurd (all part List.mem_cons_self) (visible part List.mem_cons_self)
  · have text : orJoin parts = Requires.text Leaf.text (joined orLower e es) := text
    refine ⟨⟨.inr ⟨_, text.symm⟩, ?_⟩, ?_⟩
    · rw [text]
      exact text_ne_nil Leaf.text_ne_nil _
    rw [text, truth_text, meaning_joined_or, List.any_eq_true]
    constructor
    · rintro ⟨d, inside, holds⟩
      obtain ⟨member, -⟩ := (mem_texts texts).2 ⟨d, inside, rfl⟩
      exact ⟨_, member, (truth_text held d).2 holds⟩
    · rintro ⟨part, member, holds⟩
      obtain ⟨d, inside, rfl⟩ := (mem_texts texts).1 ⟨member, visible part member⟩
      exact ⟨d, inside, (truth_text held d).1 holds⟩

end Joining

theorem mem_dedupe {parts : List (List Char)} {part : List Char} :
    part ∈ dedupe parts ↔ part ∈ parts := by
  have step (seen : List (List Char)) : part ∈ parts.foldl
      (fun seen part => if part ∈ seen then seen else seen ++ [part]) seen ↔
        part ∈ seen ∨ part ∈ parts := by
    induction parts generalizing seen with
    | nil => simp
    | cons p parts ih =>
        rw [List.foldl_cons, ih, List.mem_cons]
        split_ifs with known
        · constructor
          · rintro (earlier | later)
            · exact .inl earlier
            · exact .inr (.inr later)
          · rintro (earlier | rfl | later)
            · exact .inl earlier
            · exact .inl known
            · exact .inr later
        · simp only [List.mem_append, List.mem_singleton, or_assoc]
  simpa [dedupe] using step []

theorem joinParts_ne_nil {o : Connective} {w : Written o} {sep : String}
    (spelled : inWords o w = sep.toList) {parts : List (List Char)}
    (formed : ∀ part ∈ parts, Formed part) (some_part : ∃ part ∈ parts, part ≠ []) :
    joinParts sep parts ≠ [] := by
  rcases joinParts_eq spelled formed with ⟨-, all⟩ | ⟨e, es, -, text⟩
  · obtain ⟨part, member, nonempty⟩ := some_part
    exact absurd (all part member) nonempty
  · rw [text]
    exact text_ne_nil Leaf.text_ne_nil _

/-- A joiner of conjunctions: empty parts and duplicates make no difference to it. -/
structure Joins (andJoin : List (List Char) → List Char) : Prop where
  formed : ∀ {parts}, (∀ part ∈ parts, Formed part) → Formed (andJoin parts)
  truth : ∀ held {parts}, (∀ part ∈ parts, Formed part) →
    (Truth held (andJoin parts) ↔ ∀ part ∈ parts, Truth held part)
  visible : ∀ {parts}, (∀ part ∈ parts, Formed part) → (∃ part ∈ parts, part ≠ []) →
    andJoin parts ≠ []

theorem joins_interior : Joins interiorAndJoin where
  formed := fun formed => (formed_joinParts_and (fun _ => 0) formed).1
  truth := fun held _ formed => (formed_joinParts_and held formed).2
  visible := joinParts_ne_nil (w := andLower) rfl

theorem joins_build : Joins buildAndJoin where
  formed := fun formed => joins_interior.formed fun part member => formed part (mem_dedupe.1 member)
  truth := fun held parts formed => by
    have inner := joins_interior.truth held fun part member => formed part (mem_dedupe.1 member)
    simp only [mem_dedupe] at inner
    exact inner
  visible := fun formed some_part => by
    obtain ⟨part, member, nonempty⟩ := some_part
    exact joins_interior.visible (fun part member => formed part (mem_dedupe.1 member))
      ⟨part, mem_dedupe.2 member, nonempty⟩

/-! ## Names in tokens -/

/-- A name that a token can carry. -/
structure Plain (name : String) : Prop where
  named : name.toList ≠ []
  whole : (name.toList.all fun c => c ≠ '|' && c ≠ ':') = true
  stripped : trim isSpace name.toList = name.toList

def Plain.token {name : String} (plain : Plain name) (count : Option ℤ) : ItemToken where
  name := name.toList
  count := count
  named := plain.named
  whole := by
    intro c member
    have here := List.all_eq_true.1 plain.whole c member
    simpa using here
  stripped := plain.stripped

/-- `|name:n|`. -/
def barsCounted (name : String) (n : ℕ) : List Char :=
  '|' :: (name.toList ++ ':' :: ((toString (n : ℤ)).toList ++ ['|']))

/-- A text that is satisfied where what it asks for is held. -/
structure Asks (text : List Char) (wanted : (String → ℕ) → Prop) : Prop where
  formed : Formed text
  visible : text ≠ []
  truth : ∀ held, Truth held text ↔ wanted held

theorem asks_token (name : String) (plain : Plain name) (count : Option ℤ) :
    Asks (plain.token count).text fun held => count.getD 1 ≤ held name where
  formed := .inr ⟨.atom (.item (plain.token count)), List.append_nil _⟩
  visible := List.cons_ne_nil _ _
  truth := by
    intro held
    have text : Requires.text Leaf.text (.atom (.item (plain.token count))) =
        (plain.token count).text := List.append_nil _
    rw [← text, truth_text]
    simp [Formula.meaning, Leaf.value, ItemToken.holds, Plain.token]

theorem asks_bars (name : String) (plain : Plain name) :
    Asks (bars name) fun held => 1 ≤ held name := by
  have asks := asks_token name plain none
  simp only [Option.getD_none, Nat.one_le_cast] at asks
  exact asks

theorem asks_counted (name : String) (plain : Plain name) (n : ℕ) :
    Asks (barsCounted name n) fun held => n ≤ held name := by
  have text : barsCounted name n = (plain.token (some (n : ℤ))).text := by
    simp [barsCounted, ItemToken.text, ItemToken.body, Plain.token]
  have asks := asks_token name plain (some (n : ℤ))
  simp only [Option.getD_some, Nat.cast_le] at asks
  rw [text]
  exact asks

/-- A conjunction of two texts in parentheses. -/
theorem Asks.pair {text text' : List Char} {wanted wanted' : (String → ℕ) → Prop}
    (asks : Asks text wanted) (asks' : Asks text' wanted') :
    Asks (interiorAndJoin [text, text']) fun held => wanted held ∧ wanted' held := by
  have formed : ∀ part ∈ [text, text'], Formed part := by
    intro part member
    simp only [List.mem_cons, List.not_mem_nil, or_false] at member
    rcases member with rfl | rfl
    · exact asks.formed
    · exact asks'.formed
  constructor
  · exact joins_interior.formed formed
  · exact joins_interior.visible formed ⟨text, List.mem_cons_self, asks.visible⟩
  · intro held
    rw [joins_interior.truth held formed]
    simp [asks.truth, asks'.truth]

/-- Texts that together are satisfied where what they ask for is held. -/
structure Together (parts : List (List Char)) (wanted : (String → ℕ) → Prop) : Prop where
  formed : ∀ part ∈ parts, Formed part
  truth : ∀ held, (∀ part ∈ parts, Truth held part) ↔ wanted held

theorem Together.nil {wanted : (String → ℕ) → Prop} (free : ∀ held, wanted held) :
    Together [] wanted where
  formed := List.forall_mem_nil _
  truth := fun held => iff_of_true (List.forall_mem_nil _) (free held)

theorem Together.singleton {text : List Char} {wanted : (String → ℕ) → Prop}
    (formed : Formed text) (truth : ∀ held, Truth held text ↔ wanted held) :
    Together [text] wanted where
  formed := List.forall_mem_singleton.2 formed
  truth := fun held => by rw [List.forall_mem_singleton, truth held]

theorem Together.append {parts parts' : List (List Char)} {wanted wanted' : (String → ℕ) → Prop}
    (left : Together parts wanted) (right : Together parts' wanted') :
    Together (parts ++ parts') fun held => wanted held ∧ wanted' held where
  formed := List.forall_mem_append.2 ⟨left.formed, right.formed⟩
  truth := fun held => by rw [List.forall_mem_append, left.truth, right.truth]

/-! ## The moves -/

/-- What a jump asks for. -/
def jumpHolds (held : String → ℕ) : JumpKey → Prop
  | .pj1 => 1 ≤ held "Progressive Jump"
  | .pj2 => 2 ≤ held "Progressive Jump"
  | .capBounce => 1 ≤ held "Cap Bounce"
  | .backflip => 1 ≤ held "Backflip" ∧ 1 ≤ held "Progressive Crouch"
  | .sideFlip => 1 ≤ held "Side Flip"
  | .spinJump => 1 ≤ held "Spin"
  | .gpj => 1 ≤ held "Ground Pound Jump" ∧ 1 ≤ held "Progressive Ground Pound"
  | .longJump => 1 ≤ held "Long Jump" ∧ 1 ≤ held "Progressive Crouch"

theorem asks_jump (k : JumpKey) : Asks (jumpFrag k).toList fun held => jumpHolds held k := by
  cases k with
  | pj1 => exact asks_counted "Progressive Jump" ⟨by decide, by decide, by decide⟩ 1
  | pj2 => exact asks_counted "Progressive Jump" ⟨by decide, by decide, by decide⟩ 2
  | capBounce => exact asks_bars "Cap Bounce" ⟨by decide, by decide, by decide⟩
  | sideFlip => exact asks_bars "Side Flip" ⟨by decide, by decide, by decide⟩
  | spinJump => exact asks_bars "Spin" ⟨by decide, by decide, by decide⟩
  | backflip =>
      exact (asks_bars "Backflip" ⟨by decide, by decide, by decide⟩).pair
        (asks_counted "Progressive Crouch" ⟨by decide, by decide, by decide⟩ 1)
  | gpj =>
      exact (asks_bars "Ground Pound Jump" ⟨by decide, by decide, by decide⟩).pair
        (asks_counted "Progressive Ground Pound" ⟨by decide, by decide, by decide⟩ 1)
  | longJump =>
      exact (asks_bars "Long Jump" ⟨by decide, by decide, by decide⟩).pair
        (asks_counted "Progressive Crouch" ⟨by decide, by decide, by decide⟩ 1)

/-- What a cap throw asks for. -/
def throwHolds (held : String → ℕ) : String → Prop
  | "up" => 1 ≤ held "Up Throw"
  | "down" => 1 ≤ held "Down Throw"
  | "spin" => 1 ≤ held "Spin Throw"
  | _ => False

/-- What another required move asks for. -/
def otherHolds (held : String → ℕ) : String → Prop
  | "ground_pound" => 1 ≤ held "Progressive Ground Pound"
  | "dive" => 2 ≤ held "Progressive Ground Pound"
  | "crouch" => 1 ≤ held "Progressive Crouch"
  | "roll" => 2 ≤ held "Progressive Crouch"
  | "roll_boost" => 3 ≤ held "Progressive Crouch"
  | "wall_slide" => 1 ≤ held "Wall Slide"
  | "climb" => 1 ≤ held "Climb"
  | "cap_bounce" => 1 ≤ held "Cap Bounce"
  | "bonk_roll" => 2 ≤ held "Progressive Crouch"
  | _ => True

theorem asks_throw {t frag : String} (known : throwFrag t = some frag) :
    Asks frag.toList fun held => throwHolds held t := by
  unfold throwFrag at known
  split at known
  · cases known
    exact asks_bars "Up Throw" ⟨by decide, by decide, by decide⟩
  · cases known
    exact asks_bars "Down Throw" ⟨by decide, by decide, by decide⟩
  · cases known
    exact asks_bars "Spin Throw" ⟨by decide, by decide, by decide⟩
  · cases known

theorem asks_other {o frag : String} (known : otherFrag o = some (some frag)) :
    Asks frag.toList fun held => otherHolds held o := by
  have pound : Plain "Progressive Ground Pound" := ⟨by decide, by decide, by decide⟩
  have crouch : Plain "Progressive Crouch" := ⟨by decide, by decide, by decide⟩
  unfold otherFrag at known
  split at known <;> cases known
  · exact asks_counted _ pound 1
  · exact asks_counted _ pound 2
  · exact asks_counted _ crouch 1
  · exact asks_counted _ crouch 2
  · exact asks_counted _ crouch 3
  · exact asks_bars "Wall Slide" ⟨by decide, by decide, by decide⟩
  · exact asks_bars "Climb" ⟨by decide, by decide, by decide⟩
  · exact asks_bars "Cap Bounce" ⟨by decide, by decide, by decide⟩
  · exact asks_counted _ crouch 2

/-- A free move, and one that no table knows, ask for nothing. -/
theorem otherHolds_free {o : String} (free : ∀ frag, otherFrag o ≠ some (some frag))
    (held : String → ℕ) : otherHolds held o := by
  unfold otherHolds
  split <;> first | exact absurd rfl (free _) | trivial

/-! ## Methods -/

/-- Some group is held, apart from the captures that are free. -/
def captureHolds (freeCaptures : List String) (held : String → ℕ) (groups : List (List String)) :
    Prop :=
  groups = [] ∨ ∃ g ∈ groups, ∀ name ∈ g, name ∉ freeCaptures → 1 ≤ held name

def heightHolds (heights : String → Option (List JumpKey)) (held : String → ℕ)
    (jumpHeight : Option String) : Prop :=
  if jumpHeight = some "long_jump" then jumpHolds held .longJump
  else ∀ keys, jumpHeight.bind heights = some keys → ∃ k ∈ keys, jumpHolds held k

def throwsHold (held : String → ℕ) (throws : List String) : Prop :=
  throws = [] ∨ "neutral" ∈ throws ∨ "none" ∈ throws ∨ ∃ t ∈ throws, throwHolds held t

/-- Whatever the method asks for beside the height of its jump. -/
structure Furnished (freeCaptures : List String) (held : String → ℕ)
    (groups : List (List String)) (m : Method) : Prop where
  throws : throwsHold held m.capThrows
  others : ∀ o ∈ m.otherRequired, o ≠ "capture" → otherHolds held o
  capture : "capture" ∈ m.otherRequired → captureHolds freeCaptures held groups

/-- The method can be performed with what is held. -/
structure Performable (heights : String → Option (List JumpKey)) (freeCaptures : List String)
    (held : String → ℕ) (groups : List (List String)) (m : Method) : Prop extends
    Furnished freeCaptures held groups m where
  height : heightHolds heights held m.jumpHeight

/-- The throws and moves of the method are those that the tables know. -/
structure Method.Known (m : Method) : Prop where
  throws : ∀ t ∈ m.capThrows, t ∈ ["up", "down", "spin", "neutral", "none"]
  others : ∀ o ∈ m.otherRequired, o = "capture" ∨ otherFrag o ≠ none

theorem known_throw {m : Method} (known : m.Known) :
    ∀ t ∈ m.capThrows, throwFrag t = none → "neutral" ∈ m.capThrows ∨ "none" ∈ m.capThrows := by
  intro t member unknown
  have listed := known.throws t member
  simp only [List.mem_cons, List.not_mem_nil, or_false] at listed
  rcases listed with rfl | rfl | rfl | rfl | rfl
  · cases unknown
  · cases unknown
  · cases unknown
  · exact .inl member
  · exact .inr member

namespace Compiler

variable (c : Compiler)

/-- The tables and joiners of the compiler do what they are for. -/
structure Sound : Prop where
  joins : Joins c.andJoin
  some_key : ∀ h keys, c.heights h = some keys → keys ≠ []

variable {c} (sound : c.Sound)
include sound

theorem together_heightTerms (jumpHeight : Option String) :
    Together (c.heightTerms jumpHeight) fun held => heightHolds c.heights held jumpHeight := by
  unfold heightTerms heightHolds
  by_cases long : jumpHeight = some "long_jump"
  · simp only [if_pos long]
    exact .singleton (asks_jump .longJump).formed (asks_jump .longJump).truth
  simp only [if_neg long]
  cases found : jumpHeight.bind c.heights with
  | none => exact .nil fun held keys absent => nomatch absent
  | some keys =>
      obtain ⟨height, -, here⟩ := Option.bind_eq_some_iff.1 found
      have formed : ∀ part ∈ keys.map fun k => (jumpFrag k).toList, Formed part ∧ part ≠ [] := by
        intro part member
        obtain ⟨k, -, rfl⟩ := List.mem_map.1 member
        exact ⟨(asks_jump k).formed, (asks_jump k).visible⟩
      have some_part : (keys.map fun k => (jumpFrag k).toList) ≠ [] := by
        simpa using sound.some_key height keys here
      have joined (held : String → ℕ) := formed_orJoin held (fun p member => (formed p member).1)
        some_part fun p member => (formed p member).2
      simp only [Option.some.injEq, forall_eq']
      refine .singleton (joined fun _ => 0).1.1 fun held => ?_
      rw [(joined held).2]
      simp only [List.mem_map, exists_exists_and_eq_and, (asks_jump _).truth]

omit sound in
theorem together_throwTerms {m : Method} {parts : List (List Char)}
    (known : ∀ t ∈ m.capThrows, throwFrag t = none → "neutral" ∈ m.capThrows ∨ "none" ∈ m.capThrows)
    (terms : c.throwTerms m.capThrows = some parts) :
    Together parts fun held => throwsHold held m.capThrows := by
  unfold throwTerms at terms
  unfold throwsHold
  split_ifs at terms with needed unknown
  · cases terms
    obtain ⟨some_throw, baseline⟩ := needed
    have all : ∀ t ∈ m.capThrows, ∃ frag, throwFrag t = some frag := by
      intro t member
      by_contra unknown
      exact baseline (known t member (Option.eq_none_iff_forall_ne_some.2 fun frag found =>
        unknown ⟨frag, found⟩))
    have formed : ∀ part ∈ (m.capThrows.filterMap throwFrag).map String.toList,
        Formed part ∧ part ≠ [] := by
      intro part member
      obtain ⟨frag, inside, rfl⟩ := List.mem_map.1 member
      obtain ⟨t, -, found⟩ := List.mem_filterMap.1 inside
      exact ⟨(asks_throw found).formed, (asks_throw found).visible⟩
    have some_part : (m.capThrows.filterMap throwFrag).map String.toList ≠ [] := by
      obtain ⟨t, ts, throws⟩ := List.exists_cons_of_ne_nil some_throw
      obtain ⟨frag, found⟩ := all t (by rw [throws]; exact List.mem_cons_self)
      rw [throws]
      simp [found]
    have joined (held : String → ℕ) := formed_orJoin held (fun p member => (formed p member).1)
      some_part fun p member => (formed p member).2
    refine .singleton (joined fun _ => 0).1.1 fun held => ?_
    rw [(joined held).2]
    constructor
    · rintro ⟨part, member, holds⟩
      obtain ⟨frag, inside, rfl⟩ := List.mem_map.1 member
      obtain ⟨t, here, found⟩ := List.mem_filterMap.1 inside
      exact .inr (.inr (.inr ⟨t, here, ((asks_throw found).truth held).1 holds⟩))
    · rintro (empty | neutral | none_needed | ⟨t, here, holds⟩)
      · exact absurd empty some_throw
      · exact absurd (.inl neutral) baseline
      · exact absurd (.inr none_needed) baseline
      · obtain ⟨frag, found⟩ := all t here
        exact ⟨frag.toList, List.mem_map_of_mem (List.mem_filterMap.2 ⟨t, here, found⟩),
          ((asks_throw found).truth held).2 holds⟩
  · cases terms
    refine .nil fun held => ?_
    by_contra no_throw
    simp only [not_or] at no_throw
    exact needed ⟨no_throw.1, not_or.2 ⟨no_throw.2.1, no_throw.2.2.1⟩⟩

theorem captureParts_truth {groups : List (List String)} (plain : ∀ g ∈ groups, ∀ name ∈ g, Plain name) :
    match c.captureParts groups with
    | none => ∀ held : String → ℕ, ∃ g ∈ groups, ∀ name ∈ g, name ∉ c.freeCaptures → 1 ≤ held name
    | some parts => parts.length = groups.length ∧ (∀ part ∈ parts, Formed part ∧ part ≠ []) ∧
        ∀ held, (∃ part ∈ parts, Truth held part) ↔
          ∃ g ∈ groups, ∀ name ∈ g, name ∉ c.freeCaptures → 1 ≤ held name := by
  induction groups with
  | nil => simp [captureParts]
  | cons g groups ih =>
      have later := ih fun g' member => plain g' (List.mem_cons_of_mem g member)
      have formed : ∀ part ∈ (g.filter (· ∉ c.freeCaptures)).map bars, Formed part ∧ part ≠ [] := by
        intro part member
        obtain ⟨name, inside, rfl⟩ := List.mem_map.1 member
        have asks := asks_bars name (plain g List.mem_cons_self name (List.mem_filter.1 inside).1)
        exact ⟨asks.formed, asks.visible⟩
      have here (held : String → ℕ) :
          (∀ part ∈ (g.filter (· ∉ c.freeCaptures)).map bars, Truth held part) ↔
            ∀ name ∈ g, name ∉ c.freeCaptures → 1 ≤ held name := by
        simp only [List.forall_mem_map, List.mem_filter, decide_eq_true_eq, and_imp]
        refine forall_congr' fun name => forall_congr' fun member => forall_congr' fun _ => ?_
        exact (asks_bars name (plain g List.mem_cons_self name member)).truth held
      unfold captureParts
      dsimp only
      by_cases free : g.filter (· ∉ c.freeCaptures) = []
      · rw [if_pos free]
        intro held
        refine ⟨g, List.mem_cons_self, (here held).1 ?_⟩
        rw [free]
        exact List.forall_mem_nil _
      · rw [if_neg free]
        cases parts : c.captureParts groups with
        | none =>
            rw [parts] at later
            intro held
            obtain ⟨g', member, holds⟩ := later held
            exact ⟨g', List.mem_cons_of_mem g member, holds⟩
        | some parts' =>
            rw [parts] at later
            obtain ⟨length, shapes, truth⟩ := later
            have joined := sound.joins.formed fun p member => (formed p member).1
            have shown : c.andJoin ((g.filter (· ∉ c.freeCaptures)).map bars) ≠ [] := by
              obtain ⟨name, names, items⟩ := List.exists_cons_of_ne_nil free
              refine sound.joins.visible (fun p member => (formed p member).1) ⟨bars name, ?_,
                List.cons_ne_nil _ _⟩
              rw [items]
              exact List.mem_cons_self
            simp only [Option.map_some, List.length_cons, length, List.mem_cons, forall_eq_or_imp,
              exists_eq_or_imp, true_and]
            refine ⟨⟨⟨joined, shown⟩, shapes⟩, fun held => ?_⟩
            rw [sound.joins.truth held fun p member => (formed p member).1, here held, truth held]

theorem together_captureTerm {groups : List (List String)}
    (plain : ∀ g ∈ groups, ∀ name ∈ g, Plain name) :
    Together (c.captureTerm groups).toList fun held =>
      captureHolds c.freeCaptures held groups := by
  unfold captureTerm captureHolds
  by_cases empty : groups = []
  · rw [if_pos empty]
    exact .nil fun _ => .inl empty
  rw [if_neg empty]
  have groups_truth := captureParts_truth sound plain
  cases parts : c.captureParts groups with
  | none =>
      rw [parts] at groups_truth
      exact .nil fun held => .inr (groups_truth held)
  | some parts' =>
      rw [parts] at groups_truth
      obtain ⟨length, shapes, truth⟩ := groups_truth
      have some_part : parts' ≠ [] := by
        rw [← List.length_pos_iff, length]
        exact List.length_pos_iff.2 empty
      have joined (held : String → ℕ) := formed_orJoin held (fun p member => (shapes p member).1)
        some_part fun p member => (shapes p member).2
      refine .singleton (joined fun _ => 0).1.1 fun held => ?_
      rw [(joined held).2, truth held, or_iff_right empty]

/-- What a required move asks for, the capture among them. -/
def requiredHolds (freeCaptures : List String) (held : String → ℕ) (groups : List (List String))
    (o : String) : Prop :=
  if o = "capture" then captureHolds freeCaptures held groups else otherHolds held o

theorem together_otherTerm {groups : List (List String)}
    (plain : ∀ g ∈ groups, ∀ name ∈ g, Plain name) {o : String} {parts : List (List Char)}
    (term : c.otherTerm groups o = some parts) :
    Together parts fun held => requiredHolds c.freeCaptures held groups o := by
  unfold otherTerm at term
  unfold requiredHolds
  by_cases capture : o = "capture"
  · rw [if_pos capture] at term
    cases term
    simp only [if_pos capture]
    exact together_captureTerm sound plain
  rw [if_neg capture] at term
  simp only [if_neg capture]
  cases found : otherFrag o with
  | some frag =>
      rw [found] at term
      cases term
      cases frag with
      | some frag => exact .singleton (asks_other found).formed (asks_other found).truth
      | none => exact .nil (otherHolds_free (by simp [found]))
  | none =>
      rw [found] at term
      by_cases strict : c.strict
      · simp [strict] at term
      · simp only [strict, Bool.false_eq_true, if_false, Option.some.injEq] at term
        cases term
        exact .nil (otherHolds_free (by simp [found]))

theorem together_otherTerms {groups : List (List String)}
    (plain : ∀ g ∈ groups, ∀ name ∈ g, Plain name) {required : List String}
    {others : List (List (List Char))}
    (terms : List.Forall₂ (fun o parts => c.otherTerm groups o = some parts) required others) :
    Together others.flatten fun held =>
      ∀ o ∈ required, requiredHolds c.freeCaptures held groups o := by
  induction terms with
  | nil => exact .nil fun _ => List.forall_mem_nil _
  | cons term _ ih =>
      simp only [List.flatten_cons, List.forall_mem_cons]
      exact (together_otherTerm sound plain term).append ih

/-- A compiled method is satisfied where the method can be performed. -/
theorem compileMethod_truth {groups : List (List String)}
    (plain : ∀ g ∈ groups, ∀ name ∈ g, Plain name) {m : Method}
    (known : ∀ t ∈ m.capThrows, throwFrag t = none → "neutral" ∈ m.capThrows ∨ "none" ∈ m.capThrows)
    {text : List Char} (compiled : c.compileMethod groups m = some text) :
    Formed text ∧
      ∀ held, Truth held text ↔ Performable c.heights c.freeCaptures held groups m := by
  obtain ⟨throws, throwing, compiled⟩ := Option.bind_eq_some_iff.1 compiled
  obtain ⟨others, required, text_eq⟩ := Option.map_eq_some_iff.1 compiled
  have together := (together_heightTerms sound m.jumpHeight).append
    ((together_throwTerms known throwing).append
      (together_otherTerms sound plain (forall₂_of_mapM required)))
  rw [← text_eq]
  refine ⟨sound.joins.formed together.formed, fun held => ?_⟩
  rw [sound.joins.truth held together.formed, together.truth held]
  constructor
  · rintro ⟨height, throws, others⟩
    refine ⟨⟨throws, ?_, ?_⟩, height⟩
    · intro o member other
      have here := others o member
      rw [requiredHolds, if_neg other] at here
      exact here
    · intro member
      exact others "capture" member
  · rintro ⟨⟨throws, others, capture⟩, height⟩
    refine ⟨height, throws, fun o member => ?_⟩
    unfold requiredHolds
    split_ifs with here
    · exact capture (here ▸ member)
    · exact others o member here

/-- A compiled record is satisfied where one of its methods can be performed, or where it has
none. -/
theorem compileMoon_truth {record : MoonRecord}
    (plain : ∀ g ∈ record.captureGroups, ∀ name ∈ g, Plain name)
    (known : ∀ m, some m ∈ record.methods → ∀ t ∈ m.capThrows, throwFrag t = none →
      "neutral" ∈ m.capThrows ∨ "none" ∈ m.capThrows)
    {text : List Char} (compiled : c.compileMoon record = some text) :
    Formed text ∧ ∀ held, Truth held text ↔ (∀ m, some m ∉ record.methods) ∨
      ∃ m, some m ∈ record.methods ∧
        Performable c.heights c.freeCaptures held record.captureGroups m := by
  obtain ⟨exprs, mapped, text_eq⟩ := Option.map_eq_some_iff.1 compiled
  have each := forall₂_of_mapM mapped
  have listed (m : Method) : m ∈ record.methods.filterMap id ↔ some m ∈ record.methods := by simp
  have formed : ∀ e ∈ dedupe exprs, Formed e := by
    intro e member
    obtain ⟨m, inside, here⟩ := exists_of_forall₂_right each (mem_dedupe.1 member)
    exact (compileMethod_truth sound plain (known m ((listed m).1 inside)) here).1
  have truth (held : String → ℕ) : (∃ e ∈ dedupe exprs, Truth held e) ↔
      ∃ m, some m ∈ record.methods ∧
        Performable c.heights c.freeCaptures held record.captureGroups m := by
    constructor
    · rintro ⟨e, member, holds⟩
      obtain ⟨m, inside, here⟩ := exists_of_forall₂_right each (mem_dedupe.1 member)
      have method := (listed m).1 inside
      exact ⟨m, method, ((compileMethod_truth sound plain (known m method) here).2 held).1 holds⟩
    · rintro ⟨m, method, performable⟩
      obtain ⟨e, member, here⟩ := exists_of_forall₂_left each ((listed m).2 method)
      exact ⟨e, mem_dedupe.2 member,
        ((compileMethod_truth sound plain (known m method) here).2 held).2 performable⟩
  by_cases empty : dedupe exprs = []
  · have free : text = [] := by rw [← text_eq, empty]; rfl
    rw [free]
    refine ⟨.inl rfl, fun held => iff_of_true (truth_nil held) (.inl fun m method => ?_)⟩
    obtain ⟨e, member, -⟩ := exists_of_forall₂_left each ((listed m).2 method)
    have inside := mem_dedupe.2 member
    rw [empty] at inside
    cases inside
  have some_method : ¬ ∀ m, some m ∉ record.methods := by
    intro none_listed
    obtain ⟨e, es, exprs_eq⟩ := List.exists_cons_of_ne_nil empty
    obtain ⟨m, inside, -⟩ := exists_of_forall₂_right each
      (mem_dedupe.1 (exprs_eq ▸ List.mem_cons_self : e ∈ dedupe exprs))
    exact none_listed m ((listed m).1 inside)
  rw [← text_eq]
  split_ifs with free
  · refine ⟨.inl rfl, fun held => iff_of_true (truth_nil held) (.inr ?_)⟩
    exact (truth held).1 ⟨[], free, truth_nil held⟩
  · have visible : ∀ e ∈ dedupe exprs, e ≠ [] := fun e member blank => free (blank ▸ member)
    refine ⟨(formed_orJoin (fun _ => 0) formed empty visible).1.1, fun held => ?_⟩
    rw [(formed_orJoin held formed empty visible).2, truth held, or_iff_right some_method]

omit sound in
/-- A compiler that raises on what it does not know accepts no other throw that counts. -/
theorem known_of_strict (strict : c.strict) {record : MoonRecord} {text : List Char}
    (compiled : c.compileMoon record = some text) :
    ∀ m, some m ∈ record.methods → ∀ t ∈ m.capThrows, throwFrag t = none →
      "neutral" ∈ m.capThrows ∨ "none" ∈ m.capThrows := by
  intro m method t member unknown
  obtain ⟨exprs, mapped, -⟩ := Option.map_eq_some_iff.1 compiled
  have inside : m ∈ record.methods.filterMap id := by simpa using method
  obtain ⟨e, -, here⟩ := exists_of_forall₂_left (forall₂_of_mapM mapped) inside
  obtain ⟨parts, terms, -⟩ := Option.bind_eq_some_iff.1 here
  by_contra needed
  have throws : m.capThrows ≠ [] := List.ne_nil_of_mem member
  rw [throwTerms, if_pos ⟨throws, needed⟩, if_pos ⟨strict, t, member, unknown⟩] at terms
  cases terms

omit sound in
/-- A compiler that does not raise on what it does not know accepts every record. -/
theorem accepts_of_lenient (lenient : c.strict = false) (record : MoonRecord) :
    ∃ text, c.compileMoon record = some text := by
  have method (m : Method) : (c.compileMethod record.captureGroups m).isSome := by
    have throws : (c.throwTerms m.capThrows).isSome := by
      unfold throwTerms
      rw [lenient]
      split_ifs with _ strict
      · simp at strict
      · rfl
      · rfl
    have others : (m.otherRequired.mapM (c.otherTerm record.captureGroups)).isSome := by
      rw [mapM_isSome]
      intro o _
      unfold otherTerm
      split_ifs with _ strict
      · rfl
      · rw [lenient] at strict
        cases strict
      · cases otherFrag o <;> rfl
    obtain ⟨parts, throwing⟩ := Option.isSome_iff_exists.1 throws
    rw [compileMethod, throwing, Option.bind_some, Option.isSome_map, others]
  have exprs := (mapM_isSome (c.compileMethod record.captureGroups)
    (record.methods.filterMap id)).2 fun m _ => method m
  obtain ⟨texts, mapped⟩ := Option.isSome_iff_exists.1 exprs
  exact ⟨_, by rw [compileMoon, mapped, Option.map_some]⟩

end Compiler

/-! ## The two compilers -/

theorem sound_interior : interiorCompiler.Sound where
  joins := joins_interior
  some_key := by
    intro h keys found
    change interiorHeights h = some keys at found
    unfold interiorHeights at found
    split at found <;> cases found <;> exact List.cons_ne_nil _ _

theorem sound_build : buildCompiler.Sound where
  joins := joins_build
  some_key := by
    intro h keys found
    change buildHeights h = some keys at found
    unfold buildHeights at found
    split at found <;> cases found <;> exact List.cons_ne_nil _ _

/-- A record that names a method is compiled to a string that the entrance logic reads without
an exception, and takes for satisfied where a method can be performed. -/
theorem compileInteriorRequires_means (record : MoonRecord)
    (some_method : ∃ m, some m ∈ record.methods)
    (known : ∀ m, some m ∈ record.methods → m.Known)
    (plain : ∀ g ∈ record.captureGroups, ∀ name ∈ g, Plain name) :
    ∃ text, compileInteriorRequires record = some text ∧ ∀ held : String → ℕ,
      (∃ value, evaluateInteriorRequires held text = some value) ∧
        (evaluateInteriorRequires held text = some true ↔
          ∃ m, some m ∈ record.methods ∧ Performable interiorHeights ["Frog", "Chain Chomp"] held
            record.captureGroups m) := by
  obtain ⟨text, compiled⟩ := Compiler.accepts_of_lenient (c := interiorCompiler) rfl record
  obtain ⟨formed, truth⟩ := Compiler.compileMoon_truth sound_interior plain
    (fun m method => known_throw (known m method)) compiled
  refine ⟨text, compiled, fun held => ⟨evaluates_of_formed held formed, ?_⟩⟩
  have none_absent : ¬ ∀ m, some m ∉ record.methods := by
    obtain ⟨m, method⟩ := some_method
    exact fun absent => absent m method
  have here := truth held
  rw [or_iff_right none_absent] at here
  exact here

/-- A record with two ways, the second of which frees it of the capture. -/
def leapRecord : MoonRecord where
  methods := [some { capThrows := ["up"], otherRequired := ["capture"] }, none,
    some { jumpHeight := some "triple" }]
  captureGroups := [["Goomba", "Frog"]]

theorem leapRecord_means :
    ∃ text, compileInteriorRequires leapRecord = some text ∧ ∀ held : String → ℕ,
      (∃ value, evaluateInteriorRequires held text = some value) ∧
        (evaluateInteriorRequires held text = some true ↔
          ∃ m, some m ∈ leapRecord.methods ∧ Performable interiorHeights ["Frog", "Chain Chomp"]
            held leapRecord.captureGroups m) := by
  refine compileInteriorRequires_means leapRecord ⟨_, List.mem_cons_self⟩ ?_ ?_
  · simp only [leapRecord, List.mem_cons, Option.some.injEq, List.not_mem_nil, or_false,
      reduceCtorEq, false_or, forall_eq_or_imp, forall_eq]
    exact ⟨⟨by simp, by simp⟩, ⟨by simp, by simp⟩⟩
  · simp only [leapRecord, List.forall_mem_cons]
    exact ⟨⟨⟨by decide, by decide, by decide⟩, ⟨by decide, by decide, by decide⟩,
      List.forall_mem_nil _⟩, List.forall_mem_nil _⟩

/-- The record asks for a capture without a name. -/
def namelessRecord : MoonRecord where
  methods := [some { otherRequired := ["capture"] }]
  captureGroups := [[""]]

/-- The bars around an empty name are no token: the string is malformed, and counts as
satisfied. -/
theorem namelessRecord_misread :
    ((∃ m, some m ∈ namelessRecord.methods) ∧ (∀ m, some m ∈ namelessRecord.methods → m.Known) ∧
      ∀ g ∈ namelessRecord.captureGroups, ∀ name ∈ g, '|' ∉ name.toList ∧ ':' ∉ name.toList) ∧
    compileInteriorRequires namelessRecord = some "||".toList ∧
      evaluateInteriorRequires (fun _ => 0) "||".toList = some true ∧
      ¬ ∃ m, some m ∈ namelessRecord.methods ∧ Performable interiorHeights
        ["Frog", "Chain Chomp"] (fun _ => 0) namelessRecord.captureGroups m := by
  refine ⟨⟨⟨_, List.mem_cons_self⟩, ?_, ?_⟩, rfl, by decide, ?_⟩
  · simp only [namelessRecord, List.mem_singleton, Option.some.injEq, forall_eq]
    exact ⟨by simp, by simp⟩
  · simp [namelessRecord]
  · simp only [namelessRecord, List.mem_singleton, Option.some.injEq, exists_eq_left]
    intro performable
    have capture := performable.capture List.mem_cons_self
    simp [captureHolds] at capture

/-! ## The two compilers side by side -/

/-- With a spin jump the method can be performed. -/
structure SpinReaches (held : String → ℕ) (groups : List (List String)) (m : Method) : Prop extends
    Furnished ["Frog", "Chain Chomp"] held groups m where
  spin : 1 ≤ held "Spin"
  height : m.jumpHeight ∈ [some "double", some "cap_return", some "backflip"]

/-- The build-time table lists the spin jump for the heights it reaches, and is the run-time one
otherwise. -/
theorem buildHeights_spin {h : String} (reached : h ∈ ["double", "cap_return", "backflip"]) :
    ∃ keys keys', interiorHeights h = some keys ∧ buildHeights h = some keys' ∧
      ∀ k, k ∈ keys' ↔ k ∈ keys ∨ k = .spinJump := by
  simp only [List.mem_cons, List.not_mem_nil, or_false] at reached
  rcases reached with rfl | rfl | rfl
  · exact ⟨_, _, rfl, rfl, fun k => by cases k <;> simp⟩
  · exact ⟨_, _, rfl, rfl, fun k => by cases k <;> simp⟩
  · exact ⟨_, _, rfl, rfl, fun k => by cases k <;> simp⟩

theorem buildHeights_other {h : String} (unreached : h ∉ ["double", "cap_return", "backflip"]) :
    buildHeights h = interiorHeights h := by
  unfold buildHeights
  split
  · simp at unreached
  · simp at unreached
  · simp at unreached
  · rfl
  · rfl
  · rename_i double cap_return backflip gpj triple
    unfold interiorHeights
    split <;> first | contradiction | rfl

theorem heightHolds_some {heights : String → Option (List JumpKey)} {h : String}
    {keys : List JumpKey} (listed : heights h = some keys) (short : h ≠ "long_jump")
    (held : String → ℕ) :
    heightHolds heights held (some h) ↔ ∃ k ∈ keys, jumpHolds held k := by
  unfold heightHolds
  rw [if_neg (by simpa using short), Option.bind_some, listed]
  simp only [Option.some.injEq, forall_eq']

theorem heightHolds_build (held : String → ℕ) (jumpHeight : Option String) :
    heightHolds buildHeights held jumpHeight ↔ heightHolds interiorHeights held jumpHeight ∨
      1 ≤ held "Spin" ∧ jumpHeight ∈ [some "double", some "cap_return", some "backflip"] := by
  cases jumpHeight with
  | none => exact iff_of_true (fun keys absent => nomatch absent) (.inl fun keys absent => nomatch absent)
  | some h =>
      by_cases reached : h ∈ ["double", "cap_return", "backflip"]
      · have short : h ≠ "long_jump" := by
          rintro rfl
          simp at reached
        obtain ⟨keys, keys', at_run, at_build, spin⟩ := buildHeights_spin reached
        rw [heightHolds_some at_run short, heightHolds_some at_build short]
        simp only [spin, or_and_right, exists_or, exists_eq_left]
        refine or_congr_right (and_iff_left ?_).symm
        simpa using reached
      · have outside : some h ∉ [some "double", some "cap_return", some "backflip"] := by
          simpa using reached
        have same : heightHolds buildHeights held (some h) ↔
            heightHolds interiorHeights held (some h) := by
          simp only [heightHolds, Option.bind_some, buildHeights_other reached]
        rw [same, iff_false_intro outside, and_false, or_false]

section Starters

variable {held : String → ℕ}
  (starters : ∀ name ∈ ["Frog", "Chain Chomp", "Broode's Chain Chomp"], 1 ≤ held name)
include starters

/-- A capture that is held may as well be free. -/
theorem captureHolds_starters (groups : List (List String)) :
    captureHolds ["Frog", "Chain Chomp", "Broode's Chain Chomp"] held groups ↔
      captureHolds ["Frog", "Chain Chomp"] held groups := by
  unfold captureHolds
  refine or_congr_right (exists_congr fun g => and_congr_right fun _ => forall_congr' fun name =>
    forall_congr' fun _ => ?_)
  constructor
  · intro others gated
    by_cases starter : name ∈ ["Frog", "Chain Chomp", "Broode's Chain Chomp"]
    · exact starters name starter
    · exact others starter
  · intro gated others
    refine gated fun free => others ?_
    simp only [List.mem_cons, List.not_mem_nil, or_false] at free ⊢
    rcases free with frog | chomp
    · exact .inl frog
    · exact .inr (.inl chomp)

theorem furnished_starters (groups : List (List String)) (m : Method) :
    Furnished ["Frog", "Chain Chomp", "Broode's Chain Chomp"] held groups m ↔
      Furnished ["Frog", "Chain Chomp"] held groups m := by
  constructor
  · rintro ⟨throws, others, capture⟩
    exact ⟨throws, others, fun member =>
      (captureHolds_starters starters groups).1 (capture member)⟩
  · rintro ⟨throws, others, capture⟩
    exact ⟨throws, others, fun member =>
      (captureHolds_starters starters groups).2 (capture member)⟩

theorem performable_build (groups : List (List String)) (m : Method) :
    Performable buildHeights ["Frog", "Chain Chomp", "Broode's Chain Chomp"] held groups m ↔
      Performable interiorHeights ["Frog", "Chain Chomp"] held groups m ∨
        SpinReaches held groups m := by
  constructor
  · rintro ⟨furnished, height⟩
    have furnished := (furnished_starters starters groups m).1 furnished
    rcases (heightHolds_build held m.jumpHeight).1 height with height | ⟨spin, height⟩
    · exact .inl ⟨furnished, height⟩
    · exact .inr ⟨furnished, spin, height⟩
  · rintro (⟨furnished, height⟩ | ⟨furnished, spin, height⟩)
    · exact ⟨(furnished_starters starters groups m).2 furnished,
        (heightHolds_build held m.jumpHeight).2 (.inl height)⟩
    · exact ⟨(furnished_starters starters groups m).2 furnished,
        (heightHolds_build held m.jumpHeight).2 (.inr ⟨spin, height⟩)⟩

end Starters

/-- On a record that both compilers accept, and in a state with the fixed starters, the two
strings have one value unless the spin jump opens a method that counts and no method can be
performed without it. -/
theorem compileInteriorRequires_mirrors_iff {record : MoonRecord} {interior build : List Char}
    (at_run : compileInteriorRequires record = some interior)
    (at_build : compileMoonRequires record = some build)
    (plain : ∀ g ∈ record.captureGroups, ∀ name ∈ g, Plain name) {held : String → ℕ}
    (starters : ∀ name ∈ ["Frog", "Chain Chomp", "Broode's Chain Chomp"], 1 ≤ held name) :
    evaluateInteriorRequires held interior = evaluateInteriorRequires held build ↔
      ((∃ m, some m ∈ record.methods ∧ SpinReaches held record.captureGroups m) →
        ∃ m, some m ∈ record.methods ∧ Performable interiorHeights ["Frog", "Chain Chomp"] held
          record.captureGroups m) := by
  have known := Compiler.known_of_strict (c := buildCompiler) rfl at_build
  obtain ⟨formed, truth⟩ := Compiler.compileMoon_truth sound_interior plain known at_run
  obtain ⟨formed', truth'⟩ := Compiler.compileMoon_truth sound_build plain known at_build
  have same : evaluateInteriorRequires held interior = evaluateInteriorRequires held build ↔
      (Truth held interior ↔ Truth held build) := by
    obtain ⟨value, read⟩ := evaluates_of_formed held formed
    obtain ⟨value', read'⟩ := evaluates_of_formed held formed'
    rw [Truth, Truth, read, read']
    cases value <;> cases value' <;> decide
  have at_run : Truth held interior ↔ (∀ m, some m ∉ record.methods) ∨ ∃ m, some m ∈ record.methods ∧
      Performable interiorHeights ["Frog", "Chain Chomp"] held record.captureGroups m := truth held
  have at_build : Truth held build ↔ (∀ m, some m ∉ record.methods) ∨
      (∃ m, some m ∈ record.methods ∧
        Performable interiorHeights ["Frog", "Chain Chomp"] held record.captureGroups m) ∨
      ∃ m, some m ∈ record.methods ∧ SpinReaches held record.captureGroups m := by
    refine (truth' held).trans (or_congr_right ?_)
    rw [← exists_or]
    refine exists_congr fun m => ?_
    rw [← and_or_left]
    exact and_congr_right fun _ => performable_build starters record.captureGroups m
  rw [same, at_run, at_build]
  constructor
  · intro mirrors spin
    rcases mirrors.2 (.inr (.inr spin)) with absent | performable
    · obtain ⟨m, method, -⟩ := spin
      exact absurd method (absent m)
    · exact performable
  · intro enough
    constructor
    · rintro (absent | performable)
      · exact .inl absent
      · exact .inr (.inl performable)
    · rintro (absent | performable | spin)
      · exact .inl absent
      · exact .inr performable
      · exact .inr (enough spin)

/-- What a player holds at the start, and some more. -/
def startersAnd (more : List String) (name : String) : ℕ :=
  if name ∈ ["Frog", "Chain Chomp", "Broode's Chain Chomp"] ++ more then 1 else 0

/-- Two ways: a double jump with a capture, or a triple jump; two groups of captures, one of
them with a starter. -/
def captureHopRecord : MoonRecord where
  methods := [some { jumpHeight := some "double", otherRequired := ["capture"] }, none,
    some { jumpHeight := some "triple" }]
  captureGroups := [["Goomba"], ["Frog", "Paragoomba"]]

theorem captureHopRecord_mirrors :
    ∃ interior build, compileInteriorRequires captureHopRecord = some interior ∧
      compileMoonRequires captureHopRecord = some build ∧
        (evaluateInteriorRequires (startersAnd ["Side Flip", "Paragoomba"]) interior =
            evaluateInteriorRequires (startersAnd ["Side Flip", "Paragoomba"]) build ↔
          ((∃ m, some m ∈ captureHopRecord.methods ∧
              SpinReaches (startersAnd ["Side Flip", "Paragoomba"])
                captureHopRecord.captureGroups m) →
            ∃ m, some m ∈ captureHopRecord.methods ∧ Performable interiorHeights
              ["Frog", "Chain Chomp"] (startersAnd ["Side Flip", "Paragoomba"])
              captureHopRecord.captureGroups m)) := by
  have plain : ∀ g ∈ captureHopRecord.captureGroups, ∀ name ∈ g, Plain name := by
    simp only [captureHopRecord, List.forall_mem_cons]
    refine ⟨⟨?_, List.forall_mem_nil _⟩, ⟨?_, ?_, List.forall_mem_nil _⟩, List.forall_mem_nil _⟩
    · exact ⟨by decide, by decide, by decide⟩
    · exact ⟨by decide, by decide, by decide⟩
    · exact ⟨by decide, by decide, by decide⟩
  exact ⟨_, _, rfl, rfl, compileInteriorRequires_mirrors_iff rfl rfl plain (by decide)⟩

/-- One way, that asks for a double jump and for nothing else. -/
def hopRecord : MoonRecord where
  methods := [some { jumpHeight := some "double" }]
  captureGroups := []

/-- With a spin jump alone the build-time string opens the moon, and the run-time string does
not. -/
theorem hopRecord_drifts : ∃ interior build, compileInteriorRequires hopRecord = some interior ∧
    compileMoonRequires hopRecord = some build ∧
      (∀ name ∈ ["Frog", "Chain Chomp", "Broode's Chain Chomp"],
        1 ≤ startersAnd ["Spin"] name) ∧
      evaluateInteriorRequires (startersAnd ["Spin"]) interior = some false ∧
        evaluateInteriorRequires (startersAnd ["Spin"]) build = some true :=
  ⟨_, _, rfl, rfl, by decide, by decide +kernel, by decide +kernel⟩

end SmoArchipelago.World
