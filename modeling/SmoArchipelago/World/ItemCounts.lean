import SmoArchipelago.Library.Runs
import SmoArchipelago.World.KingdomThreshold

/-! # Pool counts across generations

How often an item is in the pool of a player is kept in a dictionary on the class of the world.
All generations of a process share it, and only the first rule that is evaluated for a player
counts the pool.

## Implementation notes

A generation is the sequence of the rules that are evaluated in it, each with the pool as it is
then. A collection state is the number of each item that is held. With the counts of a player goes
the generation whose pool they were taken from, so that it is seen which ones a rule looks at. -/

namespace SmoArchipelago.World

open Library Library.Runs Library.TextScan
open Bridge (isSpace)

/-- The name of an item, as a requirement string can name it. -/
structure ItemName where
  chars : List Char
  named : chars ≠ []
  ordinary : ∀ c ∈ chars, c ≠ '|' ∧ c ≠ ':' ∧ c ≠ '@' ∧ c ≠ '$' ∧ c ≠ '{'
  stripped : trim isSpace chars = chars
  deriving DecidableEq

def ItemName.text (n : ItemName) : String := String.ofList n.chars

/-- An item of a multiworld; items of one name and one player are equal. -/
structure PoolItem where
  name : ItemName
  player : ℕ
  deriving DecidableEq

/-- The two generations of a process. -/
inductive Generation where
  | first
  | second
  deriving DecidableEq

/-- The counts of a player, and whose pool they were taken from. -/
structure Counts where
  byName : Dict String ℕ
  origin : Generation

/-- `SMOWorld.item_counts`, by player. -/
abbrev ItemCounts := Dict ℕ Counts

/-- `{i.name: real_pool.count(i) for i in real_pool if i.player == player}`. -/
def playerCounts (realPool : List PoolItem) (player : ℕ) : Dict String ℕ :=
  (realPool.filter fun i => i.player = player).foldl
    (fun d i => d.set i.name.text (realPool.count i)) Dict.empty

/-- The dictionary after a call, what the call returns, and the counts that it looks at. -/
structure Read where
  itemCounts : ItemCounts
  counts : Counts
  looked : List Counts

/-- `get_item_counts`; it looks at what it finds and at what it returns. -/
def getItemCounts (g : Generation) (itemCounts : ItemCounts) (realPool : List PoolItem)
    (player : ℕ) (reset : Bool) : Read :=
  let found := itemCounts.get? player
  let filled :=
    if found.all (fun counts => counts.byName.entries.isEmpty) ∨ reset = true then
      itemCounts.set player ⟨playerCounts realPool player, g⟩
    else itemCounts
  let returned := filled.getD player ⟨Dict.empty, g⟩
  ⟨filled, returned, found.toList ++ [returned]⟩

/-- `items_counts.get(name, 0)`. -/
def countOf (counts : Dict String ℕ) (name : String) : ℕ := counts.getD name 0

/-- The rules of a world; the other rule functions may read the state and the counts too. -/
structure WorldRules where
  rolled : Option (Dict String ℕ)
  categoryItems : String → List String
  hooks : (String → ℕ) → (String → ℕ) → List Char → List (List Char) → Option HookResult
  percentOf : List Char → ℕ → Option ℤ

/-- The counts of the rule functions are their own, those of the tokens are the caller's. -/
def WorldRules.setup (rules : WorldRules) (held tokenCounts hookCounts : String → ℕ) : Setup :=
  { withKingdomMoons rules.rolled
      { itemsCounts := hookCounts
        categoryItems := rules.categoryItems
        hooks := rules.hooks held hookCounts
        percentOf := rules.percentOf } with
    itemsCounts := tokenCounts }

/-- A rule is evaluated for a player. -/
structure Evaluation where
  player : ℕ
  realPool : List PoolItem

/-- The head of `checkRequireStringForArea`. -/
def readCounts (g : Generation) (itemCounts : ItemCounts) (e : Evaluation) : Read :=
  let present :=
    if itemCounts.get? e.player = none then
      itemCounts.set e.player ⟨playerCounts e.realPool e.player, g⟩
    else itemCounts
  getItemCounts g present e.realPool e.player false

/-- The read that a rule function makes. -/
def readAgain (g : Generation) (itemCounts : ItemCounts) (e : Evaluation) : Read :=
  getItemCounts g (readCounts g itemCounts e).itemCounts e.realPool e.player false

/-- `checkRequireStringForArea`, with the read that a rule function makes. -/
def checkArea (rules : WorldRules) (g : Generation) (itemCounts : ItemCounts) (e : Evaluation)
    (held : String → ℕ) (requires : List Char) : ItemCounts × Option Bool :=
  let read := readCounts g itemCounts e
  let again := readAgain g itemCounts e
  (again.itemCounts,
    (rules.setup held (countOf read.counts.byName) (countOf again.counts.byName)).checkRequireString
      held requires)

/-- The counts that are looked at when a rule is evaluated. -/
def lookedAt (g : Generation) (itemCounts : ItemCounts) (e : Evaluation) : List Counts :=
  (readCounts g itemCounts e).looked ++ (readAgain g itemCounts e).looked

/-- The dictionary after a rule was evaluated, whichever it was. -/
def afterRule (g : Generation) (itemCounts : ItemCounts) (e : Evaluation) : ItemCounts :=
  (readAgain g itemCounts e).itemCounts

def afterRules (g : Generation) (itemCounts : ItemCounts) (m : List Evaluation) : ItemCounts :=
  m.foldl (afterRule g) itemCounts

/-- The dictionary that the first generation leaves behind. -/
def leftBehind (m₁ : List Evaluation) : ItemCounts := afterRules .first Dict.empty m₁

/-- In the second of two generations every requirement is worth in every state what it is worth
in a process of its own. -/
def SameWorth (rules : WorldRules) (m₁ m₂ : List Evaluation) : Prop :=
  AtEach (fun before e => ∀ held requires,
    (checkArea rules .second (afterRules .second (leftBehind m₁) before) e held requires).2 =
      (checkArea rules .second (afterRules .second Dict.empty before) e held requires).2) m₂

/-- The second of two generations looks at nothing that was counted in the pool of the first. -/
def OwnCounts (m₁ m₂ : List Evaluation) : Prop :=
  AtEach (fun before e => ∀ counts ∈ lookedAt .second (afterRules .second (leftBehind m₁) before) e,
    counts.origin = .second) m₂

/-- Two generations of a process are independent. -/
structure Independent (rules : WorldRules) (m₁ m₂ : List Evaluation) : Prop where
  worth : SameWorth rules m₁ m₂
  own : OwnCounts m₁ m₂

/-- No player number has rules evaluated in both generations. -/
def ApartPlayers (m₁ m₂ : List Evaluation) : Prop :=
  ∀ e₁ ∈ m₁, ∀ e₂ ∈ m₂, e₁.player ≠ e₂.player

/-- The pool of the first evaluation for the player. -/
def firstPool (m : List Evaluation) (player : ℕ) : Option (List PoolItem) :=
  (m.find? fun e => e.player = player).map Evaluation.realPool

/-- The pool of the first evaluation for the player where an item of the player was in it. -/
def firstFilledPool (m : List Evaluation) (player : ℕ) : Option (List PoolItem) :=
  (m.find? fun e => e.player = player ∧ ∃ i ∈ e.realPool, i.player = player).map
    Evaluation.realPool

/-- What the first generation counted for a player is what the second one counts. -/
def SameCounts (m₁ m₂ : List Evaluation) : Prop :=
  ∀ player old new, firstFilledPool m₁ player = some old → firstPool m₂ player = some new →
    ∀ name : ItemName, old.count ⟨name, player⟩ = new.count ⟨name, player⟩

/-! ## Counting -/

theorem text_injective : Function.Injective ItemName.text := by
  intro n n' same
  have chars : n.chars = n'.chars := by
    have lists := congrArg String.toList same
    rwa [ItemName.text, ItemName.text, String.toList_ofList, String.toList_ofList] at lists
  cases n
  cases n'
  cases chars
  rfl

/-- The names of the items of the player. -/
def namesOf (realPool : List PoolItem) (player : ℕ) : List ItemName :=
  (realPool.filter fun i => i.player = player).map PoolItem.name

theorem mem_namesOf {realPool : List PoolItem} {player : ℕ} {name : ItemName} :
    name ∈ namesOf realPool player ↔ (⟨name, player⟩ : PoolItem) ∈ realPool := by
  constructor
  · intro member
    obtain ⟨⟨_, _⟩, inside, rfl⟩ := List.mem_map.1 member
    obtain ⟨there, own⟩ := List.mem_filter.1 inside
    rwa [← of_decide_eq_true own]
  · intro there
    exact List.mem_map.2 ⟨_, List.mem_filter.2 ⟨there, decide_eq_true rfl⟩, rfl⟩

theorem playerCounts_eq (realPool : List PoolItem) (player : ℕ) :
    playerCounts realPool player =
      (namesOf realPool player).foldl
        (fun d n => d.set n.text (realPool.count ⟨n, player⟩)) Dict.empty := by
  rw [playerCounts, namesOf, List.foldl_map]
  apply List.foldl_ext
  rintro d ⟨_, _⟩ member
  rw [← of_decide_eq_true (List.mem_filter.1 member).2]

theorem get?_playerCounts (realPool : List PoolItem) (player : ℕ) (name : ItemName) :
    (playerCounts realPool player).get? name.text =
      if name ∈ namesOf realPool player then some (realPool.count ⟨name, player⟩) else none := by
  rw [playerCounts_eq]
  exact Dict.get?_foldl_set ItemName.text (fun n : ItemName => realPool.count ⟨n, player⟩) text_injective _ _ name

theorem mem_keys_playerCounts (realPool : List PoolItem) (player : ℕ) (name : String) :
    name ∈ (playerCounts realPool player).keys ↔
      ∃ n ∈ namesOf realPool player, n.text = name := by
  rw [playerCounts_eq, Dict.mem_keys_foldl_set]
  change _ ∨ name ∈ [] ↔ _
  rw [List.mem_map, or_iff_left List.not_mem_nil]

/-- An item of the player is counted under its name. -/
theorem countOf_playerCounts (realPool : List PoolItem) (player : ℕ) (name : ItemName) :
    countOf (playerCounts realPool player) name.text = realPool.count ⟨name, player⟩ := by
  rw [countOf, Dict.getD, get?_playerCounts]
  split_ifs with there
  · rfl
  · exact (List.count_eq_zero.2 fun member => there (mem_namesOf.2 member)).symm

theorem playerCounts_eq_nil {realPool : List PoolItem} {player : ℕ} :
    (playerCounts realPool player).entries = [] ↔ ¬ ∃ i ∈ realPool, i.player = player := by
  have keys : (playerCounts realPool player).entries = [] ↔
      (playerCounts realPool player).keys = [] := List.map_eq_nil_iff.symm
  rw [keys, List.eq_nil_iff_forall_not_mem]
  constructor
  · rintro none ⟨i, member, rfl⟩
    exact none i.name.text ((mem_keys_playerCounts _ _ _).2 ⟨i.name, mem_namesOf.2 member, rfl⟩)
  · intro none name member
    obtain ⟨n, there, -⟩ := (mem_keys_playerCounts _ _ _).1 member
    exact none ⟨_, mem_namesOf.1 there, rfl⟩

/-- Pools with the same items of a player are counted alike. -/
theorem countOf_congr {old new : List PoolItem} {player : ℕ}
    (same : ∀ name : ItemName, old.count ⟨name, player⟩ = new.count ⟨name, player⟩) :
    countOf (playerCounts old player) = countOf (playerCounts new player) := by
  funext name
  by_cases known : ∃ n : ItemName, n.text = name
  · obtain ⟨n, rfl⟩ := known
    rw [countOf_playerCounts, countOf_playerCounts]
    exact same n
  · have absent (realPool : List PoolItem) : countOf (playerCounts realPool player) name = 0 := by
      apply Dict.getD_of_not_mem
      intro member
      obtain ⟨n, -, text⟩ := (mem_keys_playerCounts _ _ _).1 member
      exact known ⟨n, text⟩
    rw [absent, absent]

/-! ## The dictionary -/

/-- The counts that are kept for a player; empty ones are none. -/
def kept (itemCounts : ItemCounts) (player : ℕ) : Option (Dict String ℕ) :=
  ((itemCounts.get? player).map Counts.byName).filter fun counts => counts.entries ≠ []

/-- What an evaluation counts for a player. -/
def counted (player : ℕ) (e : Evaluation) : Option (Dict String ℕ) :=
  if e.player = player ∧ ∃ i ∈ e.realPool, i.player = player then
    some (playerCounts e.realPool player)
  else none

theorem kept_of_none {itemCounts : ItemCounts} {player : ℕ}
    (absent : itemCounts.get? player = none) : kept itemCounts player = none := by
  rw [kept, absent]
  rfl

theorem kept_of_some {itemCounts : ItemCounts} {player : ℕ} {counts : Counts}
    (present : itemCounts.get? player = some counts) :
    kept itemCounts player =
      if counts.byName.entries = [] then none else some counts.byName := by
  rw [kept, present, Option.map_some, Option.filter_some]
  split_ifs <;> simp_all

/-- What a call of `get_item_counts` does: it returns what is kept, else what it counts, and leaves
the other players alone. It has found what it looks at, or taken it from its own pool. -/
structure ReadOf (g : Generation) (itemCounts : ItemCounts) (realPool : List PoolItem) (player : ℕ)
    (read : Read) : Prop where
  counts : read.counts.byName = (kept itemCounts player).getD (playerCounts realPool player)
  present : read.itemCounts.get? player = some read.counts
  others : ∀ other, other ≠ player → read.itemCounts.get? other = itemCounts.get? other
  origin : itemCounts.get? player = some read.counts ∨ read.counts.origin = g
  finds : ∀ counts ∈ itemCounts.get? player, counts ∈ read.looked
  looks : ∀ counts ∈ read.looked, itemCounts.get? player = some counts ∨ counts.origin = g

theorem getItemCounts_spec (g : Generation) (itemCounts : ItemCounts) (realPool : List PoolItem)
    (player : ℕ) : ReadOf g itemCounts realPool player
      (getItemCounts g itemCounts realPool player false) := by
  have written : (itemCounts.set player ⟨playerCounts realPool player, g⟩).get? player =
      some ⟨playerCounts realPool player, g⟩ := by
    rw [Dict.get?_set, if_pos rfl]
  have others (other : ℕ) (apart : other ≠ player) :
      (itemCounts.set player ⟨playerCounts realPool player, g⟩).get? other =
        itemCounts.get? other := by
    rw [Dict.get?_set, if_neg apart]
  cases found : itemCounts.get? player with
  | none =>
      have read : getItemCounts g itemCounts realPool player false =
          ⟨itemCounts.set player ⟨playerCounts realPool player, g⟩,
            ⟨playerCounts realPool player, g⟩, [⟨playerCounts realPool player, g⟩]⟩ := by
        rw [getItemCounts, found, if_pos (.inl rfl), Dict.getD, written]
        rfl
      rw [read]
      refine ⟨by rw [kept_of_none found]; rfl, written, others, .inr rfl, ?_, ?_⟩
      · intro counts here
        rw [found] at here
        cases here
      · intro counts member
        rw [List.mem_singleton.1 member]
        exact .inr rfl
  | some c =>
      by_cases empty : c.byName.entries = []
      · have read : getItemCounts g itemCounts realPool player false =
            ⟨itemCounts.set player ⟨playerCounts realPool player, g⟩,
              ⟨playerCounts realPool player, g⟩, [c, ⟨playerCounts realPool player, g⟩]⟩ := by
          rw [getItemCounts, found, if_pos (.inl (List.isEmpty_iff.2 empty)), Dict.getD, written]
          rfl
        rw [read]
        refine ⟨by rw [kept_of_some found, if_pos empty]; rfl, written, others, .inr rfl, ?_, ?_⟩
        · intro counts here
          obtain rfl : c = counts := Option.some.inj (found.symm.trans here)
          exact List.mem_cons_self
        · intro counts member
          rcases List.mem_cons.1 member with rfl | new
          · exact .inl found
          · rw [List.mem_singleton.1 new]
            exact .inr rfl
      · have read : getItemCounts g itemCounts realPool player false = ⟨itemCounts, c, [c, c]⟩ := by
          have full : ¬ (c.byName.entries.isEmpty = true ∨ false = true) := by
            rw [List.isEmpty_iff]
            exact not_or.2 ⟨empty, Bool.false_ne_true⟩
          rw [getItemCounts, found, Option.all_some, if_neg full, Dict.getD, found]
          rfl
        rw [read]
        refine ⟨by rw [kept_of_some found, if_neg empty]; rfl, found, fun _ _ => rfl, .inl found,
          ?_, ?_⟩
        · intro counts here
          obtain rfl : c = counts := Option.some.inj (found.symm.trans here)
          exact List.mem_cons_self
        · intro counts member
          have same : counts = c := by simpa using member
          exact .inl (same ▸ found)

/-- So does the head of an evaluation. -/
theorem readCounts_spec (g : Generation) (itemCounts : ItemCounts) (e : Evaluation) :
    ReadOf g itemCounts e.realPool e.player (readCounts g itemCounts e) := by
  unfold readCounts
  split_ifs with absent
  · have written : (itemCounts.set e.player ⟨playerCounts e.realPool e.player, g⟩).get? e.player =
        some ⟨playerCounts e.realPool e.player, g⟩ := by
      rw [Dict.get?_set, if_pos rfl]
    have new {counts : Counts} (here : (itemCounts.set e.player
        ⟨playerCounts e.realPool e.player, g⟩).get? e.player = some counts) : counts.origin = g := by
      rw [← Option.some.inj (written.symm.trans here)]
    have read := getItemCounts_spec g
      (itemCounts.set e.player ⟨playerCounts e.realPool e.player, g⟩) e.realPool e.player
    refine ⟨?_, read.present, fun other apart => (read.others other apart).trans ?_,
      .inr (read.origin.elim new id), fun counts here => ?_,
      fun counts member => .inr ((read.looks counts member).elim new id)⟩
    · rw [read.counts, kept_of_some written, kept_of_none absent]
      split_ifs <;> rfl
    · rw [Dict.get?_set, if_neg apart]
    · rw [absent] at here
      cases here
  · exact getItemCounts_spec g itemCounts e.realPool e.player

theorem readAgain_spec (g : Generation) (itemCounts : ItemCounts) (e : Evaluation) :
    ReadOf g (readCounts g itemCounts e).itemCounts e.realPool e.player (readAgain g itemCounts e) :=
  getItemCounts_spec g _ e.realPool e.player

/-- The read of a rule function gets what its caller got. -/
theorem readAgain_counts (g : Generation) (itemCounts : ItemCounts) (e : Evaluation) :
    (readAgain g itemCounts e).counts.byName = (readCounts g itemCounts e).counts.byName := by
  have read := readCounts_spec g itemCounts e
  have again := readAgain_spec g itemCounts e
  rw [again.counts, kept_of_some read.present]
  split_ifs with empty
  · rw [read.counts] at empty ⊢
    cases there : kept itemCounts e.player with
    | none => rfl
    | some c =>
        rw [there] at empty
        have full := (Option.filter_eq_some_iff.1 there).2
        exact absurd empty (of_decide_eq_true full)
  · rfl

/-- A rule leaves the counts of other players alone. -/
theorem get?_afterRule (g : Generation) (itemCounts : ItemCounts) (e : Evaluation) {player : ℕ}
    (apart : player ≠ e.player) :
    (afterRule g itemCounts e).get? player = itemCounts.get? player := by
  have read := readCounts_spec g itemCounts e
  have again := readAgain_spec g itemCounts e
  exact (again.others player apart).trans (read.others player apart)

theorem kept_afterRule (g : Generation) (player : ℕ) (itemCounts : ItemCounts) (e : Evaluation) :
    kept (afterRule g itemCounts e) player = (kept itemCounts player).or (counted player e) := by
  have read := readCounts_spec g itemCounts e
  have again := readAgain_spec g itemCounts e
  by_cases own : e.player = player
  · subst own
    have present : (afterRule g itemCounts e).get? e.player = some (readAgain g itemCounts e).counts :=
      again.present
    rw [kept_of_some present, readAgain_counts, read.counts, counted]
    cases there : kept itemCounts e.player with
    | none =>
        rw [Option.none_or, Option.getD_none]
        by_cases empty : (playerCounts e.realPool e.player).entries = []
        · rw [if_pos empty, if_neg fun filled => playerCounts_eq_nil.1 empty filled.2]
        · rw [if_neg empty, if_pos ⟨rfl, not_not.1 fun none => empty (playerCounts_eq_nil.2 none)⟩]
    | some c =>
        have full := of_decide_eq_true (Option.filter_eq_some_iff.1 there).2
        rw [Option.getD_some, if_neg full]
        rfl
  · rw [kept, get?_afterRule g itemCounts e (Ne.symm own), counted, if_neg fun both => own both.1,
      Option.or_none]
    rfl

/-- The first evaluation that counts anything for a player settles the counts. -/
theorem kept_afterRules (g : Generation) (player : ℕ) (itemCounts : ItemCounts)
    (m : List Evaluation) : kept (afterRules g itemCounts m) player =
      (kept itemCounts player).or (m.findSome? (counted player)) :=
  read_foldl_first (fun t => kept t player) (kept_afterRule g player) m itemCounts

/-! ## Whose pool was counted -/

/-- The first evaluation for a player, and the evaluations before it. -/
theorem first_for {m : List Evaluation} {player : ℕ} {e : Evaluation}
    (found : m.find? (fun e => e.player = player) = some e) :
    e.player = player ∧ ∃ before after, m = before ++ e :: after ∧
      ∀ e' ∈ before, e'.player ≠ player := by
  obtain ⟨own, before, after, split, others⟩ := List.find?_eq_some_iff_append.1 found
  refine ⟨of_decide_eq_true own, before, after, split, fun e' member => ?_⟩
  have other := others e' member
  rwa [Bool.not_eq_true', decide_eq_false_iff_not] at other

theorem get?_afterRules (g : Generation) (itemCounts : ItemCounts) {m : List Evaluation} {player : ℕ}
    (apart : ∀ e ∈ m, player ≠ e.player) :
    (afterRules g itemCounts m).get? player = itemCounts.get? player := by
  induction m generalizing itemCounts with
  | nil => rfl
  | cons e m ih =>
      calc (afterRules g (afterRule g itemCounts e) m).get? player
          = (afterRule g itemCounts e).get? player :=
            ih _ fun e' member => apart e' (List.mem_cons_of_mem e member)
        _ = itemCounts.get? player := get?_afterRule g itemCounts e (apart e List.mem_cons_self)

/-- What there is for a player was counted by the generation. -/
def CountedBy (g : Generation) (player : ℕ) (itemCounts : ItemCounts) : Prop :=
  ∀ counts ∈ itemCounts.get? player, counts.origin = g

theorem CountedBy.afterRule {g : Generation} {player : ℕ} {itemCounts : ItemCounts}
    (h : CountedBy g player itemCounts) (e : Evaluation) :
    CountedBy g player (afterRule g itemCounts e) := by
  intro counts here
  by_cases own : player = e.player
  · subst own
    have read := readCounts_spec g itemCounts e
    have again := readAgain_spec g itemCounts e
    obtain rfl : (readAgain g itemCounts e).counts = counts :=
      Option.some.inj (again.present.symm.trans here)
    rcases again.origin with found | new
    · rw [← Option.some.inj (read.present.symm.trans found)]
      exact read.origin.elim (h _) id
    · exact new
  · rw [get?_afterRule g itemCounts e own] at here
    exact h counts here

theorem CountedBy.afterRules {g : Generation} {player : ℕ} {itemCounts : ItemCounts}
    (h : CountedBy g player itemCounts) (m : List Evaluation) :
    CountedBy g player (afterRules g itemCounts m) := by
  induction m generalizing itemCounts with
  | nil => exact h
  | cons e m ih => exact ih (h.afterRule e)

/-- A rule looks at nothing that was not counted by its generation. -/
theorem CountedBy.lookedAt {g : Generation} {itemCounts : ItemCounts} {e : Evaluation}
    (h : CountedBy g e.player itemCounts) : ∀ counts ∈ lookedAt g itemCounts e, counts.origin = g := by
  have read := readCounts_spec g itemCounts e
  have again := readAgain_spec g itemCounts e
  have own : (readCounts g itemCounts e).counts.origin = g := read.origin.elim (h _) id
  intro counts member
  rcases List.mem_append.1 member with first | second
  · exact (read.looks counts first).elim (h counts) id
  · rcases again.looks counts second with found | new
    · rw [← Option.some.inj (read.present.symm.trans found)]
      exact own
    · exact new

theorem isSome_afterRule (g : Generation) (itemCounts : ItemCounts) (e : Evaluation) (player : ℕ)
    (evaluated : player = e.player ∨ (itemCounts.get? player).isSome) :
    ((afterRule g itemCounts e).get? player).isSome := by
  by_cases own : player = e.player
  · have again := getItemCounts_spec g (readCounts g itemCounts e).itemCounts e.realPool e.player
    have present : (afterRule g itemCounts e).get? e.player = some _ := again.present
    rw [own, present]
    rfl
  · rw [get?_afterRule g itemCounts e own]
    exact evaluated.resolve_left own

/-- A player for whom a rule was evaluated has counts. -/
theorem isSome_afterRules (g : Generation) (itemCounts : ItemCounts) (m : List Evaluation)
    (player : ℕ) (evaluated : (∃ e ∈ m, player = e.player) ∨ (itemCounts.get? player).isSome) :
    ((afterRules g itemCounts m).get? player).isSome := by
  induction m generalizing itemCounts with
  | nil => exact evaluated.resolve_left fun ⟨e, member, _⟩ => List.not_mem_nil member
  | cons e m ih =>
      apply ih
      rcases evaluated with ⟨e', member, own⟩ | present
      · rcases List.mem_cons.1 member with rfl | later
        · exact .inr (isSome_afterRule g itemCounts _ player (.inl own))
        · exact .inl ⟨e', later, own⟩
      · exact .inr (isSome_afterRule g itemCounts e player (.inr present))

/-- The second generation looks at its own counts only, exactly if it has its players to itself. -/
theorem ownCounts_iff (m₁ m₂ : List Evaluation) : OwnCounts m₁ m₂ ↔ ApartPlayers m₁ m₂ := by
  have left (player : ℕ) : CountedBy .first player (leftBehind m₁) := by
    apply CountedBy.afterRules
    intro counts nothing
    cases nothing
  constructor
  · intro own e₁ member₁ e₂ member₂ same
    -- the first evaluation for the player finds what was left behind
    have some_for : (m₂.find? fun e => e.player = e₁.player).isSome :=
      List.find?_isSome.2 ⟨e₂, member₂, decide_eq_true same.symm⟩
    obtain ⟨e, found⟩ := Option.isSome_iff_exists.1 some_for
    obtain ⟨player, before, after, split, others⟩ := first_for found
    have unread (e' : Evaluation) (member : e' ∈ before) : e.player ≠ e'.player :=
      fun again => others e' member (again.symm.trans player)
    have present : ((leftBehind m₁).get? e.player).isSome :=
      isSome_afterRules .first Dict.empty m₁ e.player (.inl ⟨e₁, member₁, player⟩)
    obtain ⟨counts, stale⟩ := Option.isSome_iff_exists.1 present
    have there : (afterRules .second (leftBehind m₁) before).get? e.player = some counts :=
      (get?_afterRules .second (leftBehind m₁) unread).trans stale
    have read := readCounts_spec .second (afterRules .second (leftBehind m₁) before) e
    have origin := own before e after split counts
      (List.mem_append_left _ (read.finds counts there))
    exact Generation.noConfusion ((left e.player counts stale).symm.trans origin)
  · intro apart before e after split
    have member : e ∈ m₂ := split ▸ List.mem_append_right before List.mem_cons_self
    have nothing : (leftBehind m₁).get? e.player = none :=
      get?_afterRules .first Dict.empty fun e₁ member₁ same => apart e₁ member₁ e member same.symm
    have fresh : CountedBy .second e.player (leftBehind m₁) := by
      intro counts here
      rw [nothing] at here
      cases here
    exact (fresh.afterRules before).lookedAt

theorem findSome?_counted (player : ℕ) (m : List Evaluation) :
    m.findSome? (counted player) =
      (firstFilledPool m player).map fun realPool => playerCounts realPool player := by
  induction m with
  | nil => rfl
  | cons e m ih =>
      rw [List.findSome?_cons, firstFilledPool, List.find?_cons, counted]
      by_cases filled : e.player = player ∧ ∃ i ∈ e.realPool, i.player = player
      · rw [if_pos filled, decide_eq_true filled]
        rfl
      · rw [if_neg filled, decide_eq_false filled]
        exact ih

/-! ## Asking for all items of a kind -/

/-- `|name:all|`. -/
def allToken (name : ItemName) : List Char := '|' :: (name.chars ++ [':', 'a', 'l', 'l', '|'])

section

variable (name : ItemName)

theorem allToken_eq : allToken name = '|' :: ((name.chars ++ [':', 'a', 'l', 'l']) ++ ['|']) := by
  rw [List.append_assoc]
  rfl

theorem allToken_ne_nil : allToken name ≠ [] := List.cons_ne_nil _ _

theorem scan_whole {m : Matcher} {u : List Char} (nonempty : u ≠ [])
    (matched : ∀ prev, m prev u = some u.length) : scan m 0 none u = [.hit u] := by
  have whole : ∀ prev, m prev (u ++ []) = some u.length := by rwa [List.append_nil]
  obtain ⟨prev, pieces⟩ := reads_hit nonempty whole none
  rwa [List.append_nil] at pieces

theorem findAll_allToken : findAll itemPattern (allToken name) = [allToken name] := by
  have ending : ∀ c ∈ [':', 'a', 'l', 'l'], c ≠ '|' :=
    List.forall_iff_forall_mem.1 (by decide)
  have whole : ∀ c ∈ name.chars ++ [':', 'a', 'l', 'l'], c ≠ '|' :=
    List.forall_mem_append.2 ⟨fun c inside => (name.ordinary c inside).1, ending⟩
  have matched (prev : Option Char) :
      itemPattern prev (allToken name) = some (allToken name).length := by
    rw [allToken_eq, itemPattern_bars (List.append_ne_nil_of_left_ne_nil name.named _) whole]
    simp
  rw [findAll, scan_whole (allToken_ne_nil name) matched]
  rfl

theorem findAll_calls_allToken : findAll callPattern (allToken name) = [] := by
  have ending : ∀ c ∈ [':', 'a', 'l', 'l', '|'], c ≠ '{' :=
    List.forall_iff_forall_mem.1 (by decide)
  have braceless : ∀ c ∈ allToken name, c ≠ '{' := by
    refine List.forall_mem_cons.2 ⟨by decide, List.forall_mem_append.2 ⟨fun c inside => ?_, ending⟩⟩
    exact (name.ordinary c inside).2.2.2.2
  obtain ⟨prev, pieces⟩ := reads_plain (@callPattern_unmatched _ [] braceless) none
  rw [List.append_nil] at pieces
  rw [findAll, pieces, List.filterMap_append, hits_plain]
  rfl

theorem tokenParts_allToken :
    tokenParts (tokenBody (allToken name)) = (name.chars, ['a', 'l', 'l']) := by
  obtain ⟨c, cs, chars⟩ := List.exists_cons_of_ne_nil name.named
  have first := name.ordinary c (by rw [chars]; exact List.mem_cons_self)
  have body : tokenBody (allToken name) = name.chars ++ [':', 'a', 'l', 'l'] := by
    unfold tokenBody allToken
    rw [List.dropWhile_cons_of_pos (by decide), chars, List.cons_append,
      List.dropWhile_cons_of_neg (by simp [first])]
    simp
  have plain : ∀ c ∈ name.chars, c ≠ ':' := fun c inside => (name.ordinary c inside).2.1
  have ending : ∀ c ∈ ['a', 'l', 'l'], c ≠ ':' := List.forall_iff_forall_mem.1 (by decide)
  rw [body, tokenParts, splitOn_append plain ending]
  exact congrArg (·, ['a', 'l', 'l']) name.stripped

/-- A token replaced by a value is that value. -/
theorem replaceAll_whole (value : Char) : replaceAll (allToken name) [value] (allToken name) = [value] := by
  have matched (prev : Option Char) :
      literal (allToken name) prev (allToken name) = some (allToken name).length := by
    rw [literal, if_pos (List.isPrefixOf_iff_prefix.2 (List.prefix_refl _))]
  rw [replaceAll, substitute, scan_whole (allToken_ne_nil name) matched]
  rfl

/-- The item is asked for as often as it is counted. -/
theorem checkRequireString_all (env : Setup) (held : String → ℕ) :
    env.checkRequireString held (allToken name) =
      some (decide (env.itemsCounts name.text ≤ held name.text)) := by
  obtain ⟨c, cs, chars⟩ := List.exists_cons_of_ne_nil name.named
  have first := name.ordinary c (by rw [chars]; exact List.mem_cons_self)
  have noCategory : ['|', '@'].isPrefixOf (allToken name) = false := by
    rw [allToken, chars]
    simp [List.isPrefixOf, Ne.symm first.2.2.1]
  have settled : replaceAll (allToken name) ['0'] ['1'] = ['1'] := by
    rw [allToken, chars]
    simp [replaceAll, substitute, scan, literal, List.isPrefixOf, Piece.replace]
  have replaced : env.replaceItem held (allToken name) (allToken name) =
      some [digit (decide (env.itemsCounts name.text ≤ held name.text))] := by
    have every : env.tokenCount ['a', 'l', 'l'] (env.itemsCounts name.text) =
        some ((env.itemsCounts name.text : ℕ) : ℤ) := if_pos (by decide)
    rw [Setup.replaceItem, tokenParts_allToken, noCategory, if_neg Bool.false_ne_true]
    change (env.tokenCount ['a', 'l', 'l'] (env.itemsCounts name.text)).map _ = _
    rw [every, Option.map_some]
    change some (let counted :=
      if (env.itemsCounts name.text : ℤ) ≤ held name.text then
        replaceAll (allToken name) ['1'] (allToken name) else allToken name
      if (held name.text : ℤ) ≤ env.itemsCounts name.text then
        replaceAll (allToken name) ['0'] counted else counted) = _
    by_cases enough : env.itemsCounts name.text ≤ held name.text
    · rw [if_pos (Nat.cast_le.2 enough), replaceAll_whole, decide_eq_true enough]
      dsimp only
      rw [settled, ite_self]
      rfl
    · rw [if_neg (mt Nat.cast_le.1 enough), if_pos (Nat.cast_le.2 (not_le.1 enough).le),
        replaceAll_whole, decide_eq_false enough]
      rfl
  have read (value : Bool) : evaluateInfix (substitute (looseWord "or".toList) (fun _ => ['|'])
      (substitute (looseWord "and".toList) (fun _ => ['&']) [digit value])) = some value := by
    cases value <;> decide
  rw [Setup.checkRequireString, if_neg (allToken_ne_nil name), findAll_calls_allToken]
  change ((findAll itemPattern (allToken name)).foldlM (env.replaceItem held) (allToken name)).bind
    _ = _
  rw [findAll_allToken, List.foldlM_cons, replaced]
  exact read _

end

/-! ## Two generations -/

/-- The counts that an evaluation reads. -/
def readBy (itemCounts : ItemCounts) (e : Evaluation) : String → ℕ :=
  countOf ((kept itemCounts e.player).getD (playerCounts e.realPool e.player))

theorem checkArea_eq (rules : WorldRules) (g : Generation) (itemCounts : ItemCounts) (e : Evaluation)
    (held : String → ℕ) (requires : List Char) :
    (checkArea rules g itemCounts e held requires).2 =
      (rules.setup held (readBy itemCounts e) (readBy itemCounts e)).checkRequireString held
        requires := by
  rw [checkArea, readAgain_counts, (readCounts_spec g itemCounts e).counts]
  rfl

/-- Requirements that are worth the same everywhere are read with the same counts. -/
theorem countOf_eq_of_checkArea {rules : WorldRules} {g : Generation}
    {itemCounts itemCounts' : ItemCounts} {e : Evaluation}
    (same : ∀ held requires, (checkArea rules g itemCounts e held requires).2 =
      (checkArea rules g itemCounts' e held requires).2) (name : ItemName) :
    readBy itemCounts e name.text = readBy itemCounts' e name.text := by
  have asked (count : ℕ) :
      readBy itemCounts e name.text ≤ count ↔ readBy itemCounts' e name.text ≤ count := by
    have values := same (fun _ => count) (allToken name)
    rw [checkArea_eq, checkArea_eq, checkRequireString_all, checkRequireString_all] at values
    exact decide_eq_decide.1 (Option.some.inj values)
  exact le_antisymm ((asked _).2 le_rfl) ((asked _).1 le_rfl)

theorem readBy_afterRules (g : Generation) (itemCounts : ItemCounts) (m : List Evaluation)
    (e : Evaluation) : readBy (afterRules g itemCounts m) e =
      countOf (((kept itemCounts e.player).or
        ((firstFilledPool m e.player).map fun realPool => playerCounts realPool e.player)).getD
          (playerCounts e.realPool e.player)) := by
  rw [readBy, kept_afterRules, findSome?_counted]

theorem kept_fresh (player : ℕ) : kept Dict.empty player = none := rfl

theorem firstFilledPool_eq_none {m : List Evaluation} {player : ℕ}
    (none : firstPool m player = none) : firstFilledPool m player = Option.none := by
  have absent := List.find?_eq_none.1 (Option.map_eq_none_iff.1 none)
  refine Option.map_eq_none_iff.2 (List.find?_eq_none.2 fun e member filled => ?_)
  exact absent e member (decide_eq_true (of_decide_eq_true filled).1)

/-- The pool of the first evaluation is the first one with an item, where it has one. -/
theorem firstFilledPool_eq_some {m : List Evaluation} {player : ℕ} {realPool : List PoolItem}
    (first : firstPool m player = some realPool) (filled : ∃ i ∈ realPool, i.player = player) :
    firstFilledPool m player = some realPool := by
  obtain ⟨e, found, rfl⟩ := Option.map_eq_some_iff.1 first
  obtain ⟨own, before, after, split, others⟩ := first_for found
  refine Option.map_eq_some_iff.2 ⟨e, List.find?_eq_some_iff_append.2 ⟨?_, before, after, split, ?_⟩,
    rfl⟩
  · exact decide_eq_true ⟨own, filled⟩
  · intro e' member
    rw [Bool.not_eq_true', decide_eq_false_iff_not]
    exact fun both => others e' member both.1

/-- Such a pool is one of an evaluation for the player, and an item of the player is in it. -/
theorem exists_of_firstFilledPool {m : List Evaluation} {player : ℕ} {realPool : List PoolItem}
    (first : firstFilledPool m player = some realPool) :
    (∃ e ∈ m, e.player = player) ∧ ∃ i ∈ realPool, i.player = player := by
  obtain ⟨e, found, rfl⟩ := Option.map_eq_some_iff.1 first
  have holds := List.find?_some found
  obtain ⟨own, filled⟩ := of_decide_eq_true holds
  exact ⟨⟨e, List.mem_of_find?_eq_some found, own⟩, filled⟩

/-- Requirements are worth the same exactly if the second generation counts for each player what
the first one counted. -/
theorem sameWorth_iff (rules : WorldRules) (m₁ m₂ : List Evaluation) :
    SameWorth rules m₁ m₂ ↔ SameCounts m₁ m₂ := by
  have stale (before : List Evaluation) (e : Evaluation) :
      readBy (afterRules .second (leftBehind m₁) before) e =
        countOf ((((firstFilledPool m₁ e.player).or (firstFilledPool before e.player)).map
          fun realPool => playerCounts realPool e.player).getD
            (playerCounts e.realPool e.player)) := by
    rw [readBy_afterRules, leftBehind, kept_afterRules, kept_fresh, findSome?_counted,
      Option.none_or, Option.map_or]
  have fresh (before : List Evaluation) (e : Evaluation) :
      readBy (afterRules .second Dict.empty before) e =
        countOf (((firstFilledPool before e.player).map
          fun realPool => playerCounts realPool e.player).getD
            (playerCounts e.realPool e.player)) := by
    rw [readBy_afterRules, kept_fresh, Option.none_or]
  constructor
  · intro independent player old new first₁ first₂ name
    -- the first evaluation for the player tells the two dictionaries apart
    obtain ⟨e, found, rfl⟩ := Option.map_eq_some_iff.1 first₂
    obtain ⟨rfl, before, after, split, others⟩ := first_for found
    have unread : firstPool before e.player = none := by
      refine Option.map_eq_none_iff.2 (List.find?_eq_none.2 fun e' member again => ?_)
      exact others e' member (of_decide_eq_true again)
    have same := countOf_eq_of_checkArea (independent before e after split) name
    rw [stale, fresh, first₁, firstFilledPool_eq_none unread] at same
    exact (countOf_playerCounts old _ name).symm.trans (same.trans (countOf_playerCounts _ _ name))
  · intro same before e after split held requires
    have counts : readBy (afterRules .second (leftBehind m₁) before) e =
        readBy (afterRules .second Dict.empty before) e := by
      rw [stale, fresh]
      cases first₁ : firstFilledPool m₁ e.player with
      | none => rw [Option.none_or]
      | some old =>
          cases first : firstPool before e.player with
          | none =>
              have first₂ : firstPool m₂ e.player = some e.realPool := by
                rw [firstPool, split, List.find?_append, Option.map_eq_none_iff.1 first]
                simp
              rw [firstFilledPool_eq_none first]
              exact countOf_congr (same _ _ _ first₁ first₂)
          | some new =>
              have first₂ : firstPool m₂ e.player = some new := by
                rw [firstPool, split, List.find?_append, Option.map_or]
                exact congrArg (Option.or · _) first
              have alike := same _ _ _ first₁ first₂
              obtain ⟨-, ⟨name, _⟩, member, rfl⟩ := exists_of_firstFilledPool first₁
              have inside : (⟨name, e.player⟩ : PoolItem) ∈ new := by
                apply List.count_pos_iff.1
                rw [← alike name]
                exact List.count_pos_iff.2 member
              rw [firstFilledPool_eq_some first ⟨_, inside, rfl⟩]
              exact countOf_congr alike
    rw [checkArea_eq, checkArea_eq, counts]

theorem mem_of_firstPool {m : List Evaluation} {player : ℕ} {realPool : List PoolItem}
    (first : firstPool m player = some realPool) : ∃ e ∈ m, e.player = player := by
  obtain ⟨e, found, -⟩ := Option.map_eq_some_iff.1 first
  exact ⟨e, List.mem_of_find?_eq_some found, (first_for found).1⟩

/-- The generations of a process are independent exactly if no player number has rules evaluated
in both of them. Their requirements alone are worth the same also where the second one counts for
each player what the first one counted. -/
theorem independent_iff (rules : WorldRules) (m₁ m₂ : List Evaluation) :
    (Independent rules m₁ m₂ ↔ ApartPlayers m₁ m₂) ∧
      (SameWorth rules m₁ m₂ ↔ SameCounts m₁ m₂) := by
  refine ⟨⟨fun h => (ownCounts_iff m₁ m₂).1 h.own, fun apart => ⟨?_, (ownCounts_iff m₁ m₂).2 apart⟩⟩,
    sameWorth_iff rules m₁ m₂⟩
  apply (sameWorth_iff rules m₁ m₂).2
  intro player old new first₁ first₂
  obtain ⟨⟨e₁, member₁, own₁⟩, -⟩ := exists_of_firstFilledPool first₁
  obtain ⟨e₂, member₂, own₂⟩ := mem_of_firstPool first₂
  exact absurd (own₁.trans own₂.symm) (apart e₁ member₁ e₂ member₂)

/-! ## A gate that asks for too much -/

def sandMoon : ItemName where
  chars := "Sand Kingdom Power Moon".toList
  named := by decide
  ordinary := List.forall_iff_forall_mem.1 (by decide)
  stripped := by decide

/-- A world without other rule functions. -/
def plainRules : WorldRules where
  rolled := none
  categoryItems := fun _ => []
  hooks := fun _ _ _ _ => none
  percentOf := fun _ _ => none

/-- The second generation has two moons where the first one had one: its gate of two moons is
closed for good. -/
theorem gate_closed_by_first_generation :
    ¬ Independent plainRules [⟨1, [⟨sandMoon, 1⟩]⟩] [⟨1, [⟨sandMoon, 1⟩, ⟨sandMoon, 1⟩]⟩] := by
  intro independent
  have worth := independent.worth [] _ [] rfl (fun _ => 2) "{KingdomMoons(Sand, 2)}".toList
  exact absurd worth (by decide +kernel)

end SmoArchipelago.World
