import SmoArchipelago.World.KingdomGates
import SmoArchipelago.World.RequiresCalls

/-! # The text of a kingdom's threshold

`KingdomMoons` writes its threshold as alternatives of item counts. Spliced into a
requirement string and read back, the text asks for as many effective moons as the gate.

## Implementation notes

A `TypeError` of a call with the wrong number of arguments is `none`. -/

namespace SmoArchipelago.World

open Library Library.TextScan
open Bridge (isSpace)

/-- The name of a kingdom, as it stands in a requirement string. -/
structure KingdomName where
  chars : List Char
  named : chars ≠ []
  ordinary : ∀ c ∈ chars, c ≠ '|' ∧ c ≠ ':' ∧ c ≠ '@' ∧ c ≠ '$' ∧ c ≠ '{' ∧ c ≠ ')' ∧ c ≠ ','
  stripped : trim isSpace chars = chars

/-! ## The rule function -/

/-- `f"|{name}|"` and `f"|{name}:{n}|"`. -/
def bareToken (name : String) : List Char := '|' :: (name.toList ++ ['|'])

def countedToken (name : String) (n : ℤ) : List Char :=
  '|' :: (name.toList ++ ':' :: ((toString n).toList ++ ['|']))

/-- The items of one clause. -/
def clauseItems (kingdom : String) (mm pmNeeded : ℕ) : List (List Char) :=
  (if mm = 1 then [bareToken (multiMoon kingdom)]
    else if 1 < mm then [countedToken (multiMoon kingdom) mm] else []) ++
  if 0 < pmNeeded then [countedToken (powerMoon kingdom) pmNeeded] else []

/-- One part for itself, several in parentheses with the separator between them. -/
def parenthesised (sep : String) : List (List Char) → List Char
  | [part] => part
  | parts => '(' :: (List.intercalate sep.toList parts ++ [')'])

/-- The loop over the counts of Multi-Moons; `none` where it returns. -/
def clauseTexts (kingdom : String) (n pmPool : ℕ) : List ℕ → Option (List (List Char))
  | [] => some []
  | mm :: mms =>
      if pmPool < n - 3 * mm then clauseTexts kingdom n pmPool mms
      else if clauseItems kingdom mm (n - 3 * mm) = [] then none
      else
        (clauseTexts kingdom n pmPool mms).map
          (parenthesised " AND " (clauseItems kingdom mm (n - 3 * mm)) :: ·)

/-- The threshold of a call: the rolled one, where there is one. -/
def threshold (rolled : Option (Dict String ℕ)) (kingdom : String) (n : ℤ) : ℤ :=
  ((rolled.bind (·.get? kingdom)).map fun gate : ℕ => (gate : ℤ)).getD n

/-- The end of the rule function: the alternatives, where there are any. -/
def clausesResult : Option (List (List Char)) → HookResult
  | none => .truth true
  | some [] => .truth false
  | some clauses => .text (parenthesised " OR " clauses)

/-- `KingdomMoons` once the threshold is known. -/
def thresholdText (itemsCounts : String → ℕ) (kingdom : String) (n : ℤ) : HookResult :=
  if n ≤ 0 then .truth true
  else
    clausesResult (clauseTexts kingdom n.toNat (itemsCounts (powerMoon kingdom))
      (List.range (itemsCounts (multiMoon kingdom) + 1)))

/-- `KingdomMoons`. -/
def kingdomMoonsText (rolled : Option (Dict String ℕ)) (itemsCounts : String → ℕ)
    (kingdom n : List Char) : HookResult :=
  let kingdom := String.ofList (trim isSpace kingdom)
  match parseInt (trim isSpace n) with
  | none => .truth false
  | some n => thresholdText itemsCounts kingdom (threshold rolled kingdom n)

/-- The rule functions of a world, of which `KingdomMoons` is one. -/
def withKingdomMoons (rolled : Option (Dict String ℕ)) (env : Setup) : Setup where
  itemsCounts := env.itemsCounts
  categoryItems := env.categoryItems
  percentOf := env.percentOf
  hooks := fun name args =>
    if name = "KingdomMoons".toList then
      match args with
      | [kingdom, n] => some (kingdomMoonsText rolled env.itemsCounts kingdom n)
      | _ => none
    else env.hooks name args

/-! ## The formula that it writes -/

def andUpper : Written .and := Connective.written .and "AND".toList (by decide)

def orUpper : Written .or := Connective.written .or "OR".toList (by decide)

/-- A token of a kingdom's moons, with the ending of their name. -/
def moonToken (k : KingdomName) (ending : String) (count : Option ℤ)
    (plain : ∀ c ∈ ending.toList, c ≠ '|' ∧ c ≠ ':')
    (last : ∃ d, ending.toList.getLast? = some d ∧ isSpace d = false) : ItemToken where
  name := k.chars ++ ending.toList
  count := count
  named := List.append_ne_nil_of_left_ne_nil k.named _
  whole := by
    intro c member
    rcases List.mem_append.1 member with inside | inside
    · exact ⟨(k.ordinary c inside).1, (k.ordinary c inside).2.1⟩
    · exact plain c inside
  stripped := by
    obtain ⟨c, cs, chars⟩ := List.exists_cons_of_ne_nil k.named
    obtain ⟨e, final, visible⟩ := last
    apply trim_of_ends
    · intro d first
      apply head_of_trim k.stripped d
      rw [chars] at first ⊢
      exact first
    · intro d here
      rw [List.getLast?_append, final] at here
      cases here
      exact visible

/-- One Multi-Moon is written without a count. -/
def multiToken (k : KingdomName) (mm : ℕ) : ItemToken :=
  moonToken k " Kingdom Multi-Moon" (if mm = 1 then none else some mm)
    (List.forall_iff_forall_mem.1 (by decide)) ⟨'n', by decide, by decide⟩

def powerToken (k : KingdomName) (pm : ℕ) : ItemToken :=
  moonToken k " Kingdom Power Moon" (some pm)
    (List.forall_iff_forall_mem.1 (by decide)) ⟨'n', by decide, by decide⟩

def KingdomName.name (k : KingdomName) : String := String.ofList k.chars

theorem ofList_append (k : KingdomName) (ending : String) :
    String.ofList (k.chars ++ ending.toList) = k.name ++ ending := by
  rw [KingdomName.name, ← String.toList_inj]
  simp

theorem holds_multiToken (k : KingdomName) (mm : ℕ) (held : String → ℕ) :
    (multiToken k mm).holds held = decide (mm ≤ held (multiMoon k.name)) := by
  have name : String.ofList (multiToken k mm).name = multiMoon k.name := ofList_append k _
  unfold ItemToken.holds
  rw [name]
  by_cases one : mm = 1
  · subst one
    simp [multiToken, moonToken]
  · simp [multiToken, moonToken, one]

theorem holds_powerToken (k : KingdomName) (pm : ℕ) (held : String → ℕ) :
    (powerToken k pm).holds held = decide (pm ≤ held (powerMoon k.name)) := by
  have name : String.ofList (powerToken k pm).name = powerMoon k.name := ofList_append k _
  unfold ItemToken.holds
  rw [name]
  simp [powerToken, moonToken]

theorem moonToken_tame {k : KingdomName} {ending : String} {count : Option ℤ}
    {plain : ∀ c ∈ ending.toList, c ≠ '|' ∧ c ≠ ':'}
    {last : ∃ d, ending.toList.getLast? = some d ∧ isSpace d = false}
    (ordinary : ∀ c ∈ ending.toList, c ≠ '@' ∧ c ≠ '$' ∧ c ≠ '{') :
    (moonToken k ending count plain last).Tame where
  ordinary := by
    intro c member
    rcases List.mem_append.1 member with inside | inside
    · obtain ⟨-, -, sign, dollar, brace, -⟩ := k.ordinary c inside
      exact ⟨sign, dollar, brace⟩
    · exact ordinary c inside
  opening := by
    obtain ⟨c, cs, chars⟩ := List.exists_cons_of_ne_nil k.named
    have closing := (k.ordinary c (by rw [chars]; exact List.mem_cons_self)).2.2.2.2.2.1
    simp [moonToken, chars, closing]

/-- The tokens of one clause. -/
def clauseTokens (k : KingdomName) (mm pm : ℕ) : List ItemToken :=
  (if 0 < mm then [multiToken k mm] else []) ++ if 0 < pm then [powerToken k pm] else []

theorem mem_clauseTokens {k : KingdomName} {mm pm : ℕ} {t : ItemToken}
    (member : t ∈ clauseTokens k mm pm) : t.Tame := by
  unfold clauseTokens at member
  rcases List.mem_append.1 member with multi | power
  · split_ifs at multi
    · rw [List.mem_singleton.1 multi]
      exact moonToken_tame (List.forall_iff_forall_mem.1 (by decide))
    · cases multi
  · split_ifs at power
    · rw [List.mem_singleton.1 power]
      exact moonToken_tame (List.forall_iff_forall_mem.1 (by decide))
    · cases power

theorem clauseItems_eq (k : KingdomName) (mm pm : ℕ) :
    clauseItems k.name mm pm = (clauseTokens k mm pm).map ItemToken.text := by
  have multi : (if mm = 1 then [bareToken (multiMoon k.name)]
      else if 1 < mm then [countedToken (multiMoon k.name) mm] else []) =
      (if 0 < mm then [multiToken k mm] else []).map ItemToken.text := by
    rcases Nat.lt_trichotomy mm 1 with none_held | rfl | more
    · obtain rfl : mm = 0 := by omega
      rfl
    · simp [bareToken, multiMoon, KingdomName.name, multiToken, moonToken, ItemToken.text,
        ItemToken.body]
    · have one : mm ≠ 1 := by omega
      have some_held : 0 < mm := by omega
      simp [one, more, some_held, countedToken, multiMoon, KingdomName.name, multiToken, moonToken,
        ItemToken.text, ItemToken.body]
  have power : (if 0 < pm then [countedToken (powerMoon k.name) pm] else []) =
      (if 0 < pm then [powerToken k pm] else []).map ItemToken.text := by
    split_ifs
    · simp [countedToken, powerMoon, KingdomName.name, powerToken, moonToken, ItemToken.text,
        ItemToken.body]
    · rfl
  unfold clauseItems clauseTokens
  rw [List.map_append, multi, power]

/-- The formula of one clause. -/
def clauseFormula (k : KingdomName) (mm pm : ℕ) : Requires Leaf true :=
  match clauseTokens k mm pm with
  | [] => .atom (.lit true)
  | t :: ts => joined andUpper (.atom (.item t)) (ts.map fun t => .atom (.item t))

/-- Parts in parentheses are the text of the joined formulas. -/
theorem parenthesised_text {o : Connective} {w : Written o} {sep : String}
    (spelled : inWords o w = sep.toList) (c : Requires Leaf true) (cs : List (Requires Leaf true)) :
    parenthesised sep ((c :: cs).map (Requires.text Leaf.text)) =
      Requires.text Leaf.text (joined w c cs) := by
  rw [text_joined]
  cases cs with
  | nil => rfl
  | cons c' cs =>
      rw [if_neg (List.cons_ne_nil _ _), spelled]
      rfl

theorem clauseTokens_ne_nil (k : KingdomName) {n : ℕ} (positive : 0 < n) (mm : ℕ) :
    clauseTokens k mm (n - 3 * mm) ≠ [] := by
  unfold clauseTokens
  by_cases multi : 0 < mm
  · simp [multi]
  · have power : 0 < n - 3 * mm := by omega
    simp [power]

theorem text_clauseFormula (k : KingdomName) {n : ℕ} (positive : 0 < n) (mm : ℕ) :
    parenthesised " AND " (clauseItems k.name mm (n - 3 * mm)) =
      Requires.text Leaf.text (clauseFormula k mm (n - 3 * mm)) := by
  have some_item := clauseTokens_ne_nil k positive mm
  rw [clauseItems_eq]
  unfold clauseFormula
  cases tokens : clauseTokens k mm (n - 3 * mm) with
  | nil => exact absurd tokens some_item
  | cons t ts =>
      have texts : ((t :: ts).map ItemToken.text) =
          ((Formula.atom (Leaf.item t) : Requires Leaf true) ::
            ts.map fun t => .atom (.item t)).map (Requires.text Leaf.text) := by
        simp [Requires.text, Formula.lexemes, writeLexeme, Leaf.text]
      have spelled : inWords .and andUpper = " AND ".toList := rfl
      rw [texts]
      exact parenthesised_text spelled _ _

theorem meaning_clauseFormula (k : KingdomName) (mm pm : ℕ) (held : String → ℕ) :
    (clauseFormula k mm pm).meaning Connective.apply (Leaf.value held) =
      (decide (mm ≤ held (multiMoon k.name)) && decide (pm ≤ held (powerMoon k.name))) := by
  have all : (clauseFormula k mm pm).meaning Connective.apply (Leaf.value held) =
      (clauseTokens k mm pm).all fun t => t.holds held := by
    unfold clauseFormula
    cases clauseTokens k mm pm with
    | nil => rfl
    | cons t ts =>
        refine (meaning_joined_and _ _ _ _).trans ?_
        rw [List.all_cons, List.all_map, List.all_cons]
        rfl
  rw [all]
  unfold clauseTokens
  rw [List.all_append]
  congr 1
  · split_ifs with multi
    · simp [holds_multiToken]
    · obtain rfl : mm = 0 := by omega
      simp
  · split_ifs with power
    · simp [holds_powerToken]
    · obtain rfl : pm = 0 := by omega
      simp

theorem clauseFormula_tame {k : KingdomName} {mm pm : ℕ} {t : ItemToken}
    (member : .item t ∈ (clauseFormula k mm pm).atoms) : t.Tame := by
  unfold clauseFormula at member
  cases tokens : clauseTokens k mm pm with
  | nil =>
      rw [tokens] at member
      cases List.mem_singleton.1 member
  | cons t' ts =>
      rw [tokens] at member
      obtain ⟨d, inside, here⟩ := mem_atoms_joined.1 member
      have token : ∃ t'' ∈ t' :: ts, d = .atom (.item t'') := by
        rcases List.mem_cons.1 inside with rfl | later
        · exact ⟨t', List.mem_cons_self, rfl⟩
        · obtain ⟨t'', among, rfl⟩ := List.mem_map.1 later
          exact ⟨t'', List.mem_cons_of_mem _ among, rfl⟩
      obtain ⟨t'', among, rfl⟩ := token
      cases List.mem_singleton.1 here
      exact mem_clauseTokens (by rw [tokens]; exact among)

/-- The formulas of the clauses that the pool allows. -/
def kingdomFormulas (k : KingdomName) (n pmPool : ℕ) (mms : List ℕ) : List (Requires Leaf true) :=
  (mms.filter fun mm => n - 3 * mm ≤ pmPool).map fun mm => clauseFormula k mm (n - 3 * mm)

theorem clauseTexts_eq (k : KingdomName) {n : ℕ} (positive : 0 < n) (pmPool : ℕ) (mms : List ℕ) :
    clauseTexts k.name n pmPool mms =
      some ((kingdomFormulas k n pmPool mms).map (Requires.text Leaf.text)) := by
  induction mms with
  | nil => rfl
  | cons mm mms ih =>
      unfold clauseTexts
      by_cases lacking : pmPool < n - 3 * mm
      · rw [if_pos lacking, ih]
        unfold kingdomFormulas
        rw [List.filter_cons_of_neg (by rw [decide_eq_true_eq]; omega)]
      · have some_item : clauseItems k.name mm (n - 3 * mm) ≠ [] := by
          rw [clauseItems_eq]
          simpa using clauseTokens_ne_nil k positive mm
        rw [if_neg lacking, if_neg some_item, ih, Option.map_some, text_clauseFormula k positive]
        unfold kingdomFormulas
        rw [List.filter_cons_of_pos (by rw [decide_eq_true_eq]; omega)]
        rfl

/-- What the rule function returns for a threshold. -/
def kingdomReturn (itemsCounts : String → ℕ) (k : KingdomName) (n : ℤ) : Returned :=
  if n ≤ 0 then .truth true
  else
    match kingdomFormulas k n.toNat (itemsCounts (powerMoon k.name))
      (List.range (itemsCounts (multiMoon k.name) + 1)) with
    | [] => .truth false
    | c :: cs => .requires (joined orUpper c cs)

theorem kingdomReturn_tame {itemsCounts : String → ℕ} {k : KingdomName} {n : ℤ} {t : ItemToken}
    (member : .item t ∈ (kingdomReturn itemsCounts k n).formula.atoms) : t.Tame := by
  unfold kingdomReturn at member
  split_ifs at member
  · cases List.mem_singleton.1 member
  · cases formulas : kingdomFormulas k n.toNat (itemsCounts (powerMoon k.name))
        (List.range (itemsCounts (multiMoon k.name) + 1)) with
    | nil =>
        rw [formulas] at member
        cases List.mem_singleton.1 member
    | cons c cs =>
        rw [formulas] at member
        obtain ⟨d, inside, here⟩ := mem_atoms_joined.1 member
        rw [← formulas] at inside
        obtain ⟨mm, -, rfl⟩ := List.mem_map.1 inside
        exact clauseFormula_tame here

/-- When the returned formula holds. -/
theorem kingdomReturn_meaning (itemsCounts held : String → ℕ) (k : KingdomName) (n : ℤ) :
    (kingdomReturn itemsCounts k n).meaning held = true ↔
      n ≤ 0 ∨ ∃ mm ≤ itemsCounts (multiMoon k.name),
        n.toNat - 3 * mm ≤ itemsCounts (powerMoon k.name) ∧ mm ≤ held (multiMoon k.name) ∧
          n.toNat - 3 * mm ≤ held (powerMoon k.name) := by
  unfold kingdomReturn
  by_cases zero : n ≤ 0
  · rw [if_pos zero]
    exact iff_of_true rfl (.inl zero)
  · have some_clause : (kingdomFormulas k n.toNat (itemsCounts (powerMoon k.name))
          (List.range (itemsCounts (multiMoon k.name) + 1))).any
          (fun c => c.meaning Connective.apply (Leaf.value held)) = true ↔
        ∃ mm ≤ itemsCounts (multiMoon k.name),
          n.toNat - 3 * mm ≤ itemsCounts (powerMoon k.name) ∧ mm ≤ held (multiMoon k.name) ∧
            n.toNat - 3 * mm ≤ held (powerMoon k.name) := by
      unfold kingdomFormulas
      simp only [List.any_map, List.any_filter, List.any_eq_true, List.mem_range, Function.comp_apply,
        meaning_clauseFormula, Bool.and_eq_true, decide_eq_true_eq, Nat.lt_succ_iff]
    rw [if_neg zero, ← some_clause]
    simp only [zero, false_or]
    cases kingdomFormulas k n.toNat (itemsCounts (powerMoon k.name))
        (List.range (itemsCounts (multiMoon k.name) + 1)) with
    | nil => exact iff_of_false Bool.false_ne_true Bool.false_ne_true
    | cons c cs => exact iff_of_eq (congrArg (· = true) (meaning_joined_or orUpper _ c cs))

/-! ## The call in a requirement string -/

/-- `{KingdomMoons(kingdom,n)}`. -/
def kingdomCall (k : KingdomName) (n : ℤ) : Call where
  name := "KingdomMoons".toList
  arg := k.chars ++ ',' :: (toString n).toList
  named := by decide
  word := List.forall_iff_forall_mem.1 (by decide)
  whole := by
    intro c member
    rcases List.mem_append.1 member with inside | inside
    · obtain ⟨-, -, -, -, brace, closing, -⟩ := k.ordinary c inside
      exact ⟨closing, brace⟩
    · rcases List.mem_cons.1 inside with rfl | digits
      · decide
      · exact ⟨toString_ne n (by decide) c digits, toString_ne n (by decide) c digits⟩

theorem callArgs_kingdomCall (k : KingdomName) (n : ℤ) :
    callArgs (kingdomCall k n).arg = [k.chars, (toString n).toList] ∧
      strippedArgs (kingdomCall k n).arg = [k.chars, (toString n).toList] := by
  have comma : ∀ c ∈ k.chars, c ≠ ',' := fun c member => (k.ordinary c member).2.2.2.2.2.2
  have digits := toString_ne n (d := ',') (by decide)
  have parts : (k.chars ++ ',' :: (toString n).toList).splitOn ',' =
      [k.chars, (toString n).toList] := splitOn_append comma digits
  have trimmed : trim isSpace (toString n).toList = (toString n).toList :=
    trim_of_visible (toString_visible n)
  have whole : trim isSpace (k.chars ++ ',' :: (toString n).toList) =
      k.chars ++ ',' :: (toString n).toList := by
    obtain ⟨c, cs, chars⟩ := List.exists_cons_of_ne_nil k.named
    apply trim_of_ends
    · intro d first
      apply head_of_trim k.stripped d
      rw [chars] at first ⊢
      exact first
    · intro d last
      rw [List.getLast?_append, List.getLast?_cons] at last
      cases final : (toString n).toList.getLast? with
      | none =>
          rw [final] at last
          cases last
          decide
      | some e =>
          rw [final] at last
          cases last
          exact toString_visible n _ (List.mem_of_getLast? final)
  have some_arg : k.chars ++ ',' :: (toString n).toList ≠ [] := by simp
  unfold callArgs strippedArgs kingdomCall
  constructor
  · rw [if_neg some_arg, parts]
  · rw [whole, if_neg some_arg, parts]
    simp only [List.map_cons, List.map_nil, k.stripped, trimmed]

theorem thresholdText_eq (itemsCounts : String → ℕ) (k : KingdomName) (n : ℤ) :
    thresholdText itemsCounts k.name n = (kingdomReturn itemsCounts k n).result := by
  unfold thresholdText kingdomReturn
  by_cases zero : n ≤ 0
  · rw [if_pos zero, if_pos zero]
    rfl
  · have positive : 0 < n.toNat := by omega
    rw [if_neg zero, if_neg zero, clauseTexts_eq k positive]
    cases kingdomFormulas k n.toNat (itemsCounts (powerMoon k.name))
        (List.range (itemsCounts (multiMoon k.name) + 1)) with
    | nil => rfl
    | cons c cs =>
        have spelled : inWords .or orUpper = " OR ".toList := rfl
        exact congrArg HookResult.text (parenthesised_text spelled c cs)

/-- The rule function writes the formula of its threshold. -/
theorem kingdomMoonsText_eq (rolled : Option (Dict String ℕ)) (itemsCounts : String → ℕ)
    (k : KingdomName) (n : ℤ) :
    kingdomMoonsText rolled itemsCounts k.chars (toString n).toList =
      (kingdomReturn itemsCounts k (threshold rolled k.name n)).result := by
  have trimmed : trim isSpace (toString n).toList = (toString n).toList :=
    trim_of_visible (toString_visible n)
  unfold kingdomMoonsText
  rw [k.stripped, trimmed, parseInt_toString]
  exact thresholdText_eq itemsCounts k _

/-- In every requirement string the call stands for the formula of its threshold. -/
theorem kingdomMoons_returns (rolled : Option (Dict String ℕ)) (env : Setup) (k : KingdomName)
    (n : ℤ) : (withKingdomMoons rolled env).Returns (kingdomCall k n)
      (kingdomReturn env.itemsCounts k (threshold rolled k.name n)) := by
  obtain ⟨plain, stripped⟩ := callArgs_kingdomCall k n
  constructor
  · rw [plain, ← kingdomMoonsText_eq]
    rfl
  · rw [stripped, ← kingdomMoonsText_eq]
    rfl

/-- A state reaches the threshold by the clauses that the pool allows. -/
theorem kingdomReturn_threshold (itemsCounts held : String → ℕ) (k : KingdomName) (n : ℤ) :
    ((kingdomReturn itemsCounts k n).meaning held = true →
      n ≤ 3 * held (multiMoon k.name) + held (powerMoon k.name)) ∧
    (held (multiMoon k.name) ≤ itemsCounts (multiMoon k.name) →
      held (powerMoon k.name) ≤ itemsCounts (powerMoon k.name) →
      ((kingdomReturn itemsCounts k n).meaning held = true ↔
        n ≤ 3 * held (multiMoon k.name) + held (powerMoon k.name))) := by
  have enough : (kingdomReturn itemsCounts k n).meaning held = true →
      n ≤ 3 * held (multiMoon k.name) + held (powerMoon k.name) := by
    intro holds
    rcases (kingdomReturn_meaning itemsCounts held k n).1 holds with zero | ⟨mm, -, -, multi, power⟩
    · omega
    · omega
  refine ⟨enough, fun multi power => ⟨enough, fun reached => ?_⟩⟩
  apply (kingdomReturn_meaning itemsCounts held k n).2
  by_cases zero : n ≤ 0
  · exact .inl zero
  · exact .inr ⟨held (multiMoon k.name), multi, by omega, le_rfl, by omega⟩

theorem kingdomReturn_mono {itemsCounts held held' : String → ℕ} {k : KingdomName} {n : ℤ}
    (multi : held (multiMoon k.name) ≤ held' (multiMoon k.name))
    (power : held (powerMoon k.name) ≤ held' (powerMoon k.name))
    (holds : (kingdomReturn itemsCounts k n).meaning held = true) :
    (kingdomReturn itemsCounts k n).meaning held' = true := by
  apply (kingdomReturn_meaning itemsCounts held' k n).2
  rcases (kingdomReturn_meaning itemsCounts held k n).1 holds with zero | ⟨mm, pool, pool', has, has'⟩
  · exact .inl zero
  · exact .inr ⟨mm, pool, pool', has.trans multi, has'.trans power⟩

/-- A requirement string that is the call and nothing else. -/
def kingdomFormula (k : KingdomName) (n : ℤ) : Requires Atom true := .atom (.call (kingdomCall k n))

theorem checkRequireString_kingdom (rolled : Option (Dict String ℕ)) (env : Setup)
    (held : String → ℕ) (k : KingdomName) (n : ℤ) :
    (withKingdomMoons rolled env).checkRequireString held ((kingdomFormula k n).text Atom.text) =
      some ((kingdomReturn env.itemsCounts k (threshold rolled k.name n)).meaning held) := by
  have grammatical : Grammatical (withKingdomMoons rolled env)
      (fun _ => kingdomReturn env.itemsCounts k (threshold rolled k.name n)) (kingdomFormula k n) := by
    constructor
    · intro t member
      cases List.mem_singleton.1 member
    · intro c member
      cases List.mem_singleton.1 member
      exact kingdomMoons_returns rolled env k n
    · intro c member t inside
      exact kingdomReturn_tame inside
    · exact Nat.one_le_ofNat
  exact checkRequireString_text held grammatical

/-- `KingdomMoons` asks for its threshold exactly: whatever string the call stands in, it is
worth a formula that holds only at the threshold, holds there wherever no more moons are held
than the pool has, and stays true as moons are collected. -/
theorem kingdomMoons_exact (rolled : Option (Dict String ℕ)) (env : Setup) (k : KingdomName)
    (n : ℤ) : ∃ r : Returned,
    (withKingdomMoons rolled env).Returns (kingdomCall k n) r ∧
    (∀ t, .item t ∈ r.formula.atoms → t.Tame) ∧
    (∀ held, (withKingdomMoons rolled env).checkRequireString held
      ((kingdomFormula k n).text Atom.text) = some (r.meaning held)) ∧
    (∀ held, r.meaning held = true →
      threshold rolled k.name n ≤ 3 * held (multiMoon k.name) + held (powerMoon k.name)) ∧
    (∀ held, held (multiMoon k.name) ≤ env.itemsCounts (multiMoon k.name) →
      held (powerMoon k.name) ≤ env.itemsCounts (powerMoon k.name) →
      (r.meaning held = true ↔
        threshold rolled k.name n ≤ 3 * held (multiMoon k.name) + held (powerMoon k.name))) ∧
    ∀ held held', held (multiMoon k.name) ≤ held' (multiMoon k.name) →
      held (powerMoon k.name) ≤ held' (powerMoon k.name) →
      r.meaning held = true → r.meaning held' = true :=
  ⟨kingdomReturn env.itemsCounts k (threshold rolled k.name n),
    kingdomMoons_returns rolled env k n,
    fun _ => kingdomReturn_tame,
    fun held => checkRequireString_kingdom rolled env held k n,
    fun held => (kingdomReturn_threshold env.itemsCounts held k _).1,
    fun held => (kingdomReturn_threshold env.itemsCounts held k _).2,
    fun _ _ => kingdomReturn_mono⟩

end SmoArchipelago.World
