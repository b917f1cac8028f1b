import SmoArchipelago.World.RequiresMeaning

/-! # The operator parser on any string

On an expression the parser puts the operators behind their operands, apart from a `!` that
follows another: the first of them goes out before its operand, and so negates what stands to
its left. On the other strings the parser only counts: it raises where a parenthesis closes
nothing, where an operator finds too few values, and where not one value is left. -/

namespace SmoArchipelago.World

inductive Symbol where
  | truth (value : Bool)
  | op (o : Connective)
  | bang
  | opening
  | closing
  deriving DecidableEq

def Symbol.char : Symbol → Char
  | truth value => digit value
  | op o => o.symbol
  | bang => '!'
  | opening => '('
  | closing => ')'

/-- A well-formed expression; the flag tells whether it is a single operand. -/
inductive Infix : Bool → Type
  | truth (bangs : ℕ) (value : Bool) : Infix true
  | group {b : Bool} (bangs : ℕ) (e : Infix b) : Infix true
  | chain {b : Bool} (e : Infix b) (o : Connective) (t : Infix true) : Infix false

def negate (n : ℕ) (value : Bool) : Bool := Bool.not^[n] value

theorem negate_add (m n : ℕ) (value : Bool) : negate (m + n) value = negate m (negate n value) :=
  Function.iterate_add_apply _ m n value

namespace Infix

variable {b : Bool}

def symbols : {b : Bool} → Infix b → List Symbol
  | _, truth bangs value => List.replicate bangs .bang ++ [.truth value]
  | _, group bangs e => List.replicate bangs .bang ++ .opening :: (e.symbols ++ [.closing])
  | _, chain e o t => e.symbols ++ .op o :: t.symbols

/-- The value: `!` binds tightest, the binary operators alike and to the left. -/
def meaning : {b : Bool} → Infix b → Bool
  | _, truth bangs value => negate bangs value
  | _, group bangs e => negate bangs e.meaning
  | _, chain e o t => o.apply e.meaning t.meaning

/-- The number of `!` that go out before the first value does. -/
def spill : {b : Bool} → Infix b → ℕ
  | _, truth bangs _ => bangs - 1
  | _, group bangs e => bangs - 1 + e.spill
  | _, chain e _ _ => e.spill

/-- The value where those `!` negate what stands to the left of the operator. -/
def read : {b : Bool} → Infix b → Bool
  | _, truth bangs value => negate (min bangs 1) value
  | _, group bangs e => negate (min bangs 1) e.read
  | _, chain e o t => o.apply (negate t.spill e.read) t.read

/-- The operators that wait at the end of the expression. -/
def pending : {b : Bool} → Infix b → List Char
  | _, truth bangs _ => List.replicate (min bangs 1) '!'
  | _, group bangs _ => List.replicate (min bangs 1) '!'
  | _, chain _ o t => t.pending ++ [o.symbol]

/-- What the parser has put out at the end of the expression. -/
def out : {b : Bool} → Infix b → List Char
  | _, truth bangs value => List.replicate (bangs - 1) '!' ++ [digit value]
  | _, group bangs e => List.replicate (bangs - 1) '!' ++ (e.out ++ e.pending)
  | _, chain e _ t => e.out ++ e.pending ++ t.out

end Infix

/-! ## Reading an expression -/

/-- What waits on top of a stack is driven out by what it binds to, and no more. -/
theorem takeWhile_waiting (binds : Char → Bool) {ops : List Char} (stack : List Char)
    (all : ∀ c ∈ ops, binds c = true) (stop : ∀ c ∈ stack.head?, binds c = false) :
    (ops ++ stack).takeWhile binds = ops ∧ (ops ++ stack).dropWhile binds = stack := by
  rw [List.takeWhile_append_of_pos all, List.dropWhile_append_of_pos all]
  cases stack with
  | nil => simp
  | cons c stack => simp [stop c rfl]

/-- An operator drives out what waits on top and binds as tightly. -/
theorem step_operator {c : Char} (operator : isOperator c = true) {ops stack : List Char}
    (all : ∀ d ∈ ops, d ≠ '(' ∧ prec c ≤ prec d) (stop : ∀ d ∈ stack.head?, d = '(' ∨ prec d < prec c)
    (out : List Char) :
    Shunt.step { stack := ops ++ stack, out } c =
      some { stack := c :: stack, out := out ++ ops } := by
  have no_digit : c.isDigit = false := by
    simp only [isOperator, Bool.or_eq_true, decide_eq_true_eq] at operator
    rcases operator with (rfl | rfl) | rfl <;> rfl
  obtain ⟨driven, left⟩ := takeWhile_waiting (fun d => d ≠ '(' && prec c ≤ prec d) stack
    (fun d member => by simpa using all d member) (fun d top => by
      rcases stop d top with rfl | looser
      · simp
      · simp [not_le.2 looser])
  unfold Shunt.step
  dsimp only
  rw [no_digit, operator, driven, left]
  rfl

/-- No `!` on top of the stack. -/
def NoBang (stack : List Char) : Prop := ∀ d ∈ stack.head?, d ≠ '!'

theorem NoBang.stop {stack : List Char} (calm : NoBang stack) :
    ∀ d ∈ stack.head?, d = '(' ∨ prec d < prec '!' := by
  intro d top
  simp [prec, calm d top]

theorem step_bang {stack : List Char} (calm : NoBang stack) (out : List Char) :
    Shunt.step { stack, out } '!' = some { stack := '!' :: stack, out } := by
  have step := step_operator (c := '!') rfl (List.forall_mem_nil _) calm.stop out
  rw [List.append_nil] at step
  exact step

theorem step_bang_again {stack : List Char} (calm : NoBang stack) (out : List Char) :
    Shunt.step { stack := '!' :: stack, out } '!' =
      some { stack := '!' :: stack, out := out ++ ['!'] } :=
  @step_operator '!' rfl ['!'] stack (by simp) calm.stop out

/-- Of a row of `!` all but the last go out at once. -/
theorem foldlM_bangs {stack : List Char} (calm : NoBang stack) (bangs : ℕ)
    (out : List Char) :
    (List.replicate bangs '!').foldlM Shunt.step { stack, out } =
      some { stack := List.replicate (min bangs 1) '!' ++ stack,
             out := out ++ List.replicate (bangs - 1) '!' } := by
  have again (n : ℕ) (out : List Char) :
      (List.replicate n '!').foldlM Shunt.step { stack := '!' :: stack, out } =
        some { stack := '!' :: stack, out := out ++ List.replicate n '!' } := by
    induction n generalizing out with
    | zero => simp
    | succ n ih =>
        rw [List.replicate_succ, List.foldlM_cons, step_bang_again calm, Option.bind_eq_bind,
          Option.bind_some, ih, List.append_assoc]
        rfl
  cases bangs with
  | zero => simp
  | succ n =>
      rw [List.replicate_succ, List.foldlM_cons, step_bang calm, Option.bind_eq_bind,
        Option.bind_some, again]
      simp

theorem mem_pending {b : Bool} (e : Infix b) : ∀ c ∈ e.pending, c = '!' ∨ ∃ o : Connective, c = o.symbol := by
  induction e with
  | truth bangs value => exact fun c member => .inl (List.eq_of_mem_replicate member)
  | group bangs e ih => exact fun c member => .inl (List.eq_of_mem_replicate member)
  | chain e o t ih ih' =>
      intro c member
      rcases List.mem_append.1 member with inside | last
      · exact ih' c inside
      · exact .inr ⟨o, List.mem_singleton.1 last⟩

theorem pending_waits {b : Bool} (e : Infix b) (o : Connective) :
    ∀ d ∈ e.pending, d ≠ '(' ∧ prec o.symbol ≤ prec d := by
  intro d member
  rcases mem_pending e d member with rfl | ⟨o', rfl⟩
  · cases o <;> decide
  · cases o <;> cases o' <;> decide

theorem step_op {b : Bool} (e : Infix b) (o : Connective) {stack : List Char} (calm : Calm stack)
    (out : List Char) :
    Shunt.step { stack := e.pending ++ stack, out } o.symbol =
      some { stack := o.symbol :: stack, out := out ++ e.pending } :=
  step_operator (by cases o <;> rfl) (pending_waits e o) (fun d top => .inl (calm d top)) out

/-- A closing parenthesis drives out what waits at its level, and raises where none is open. -/
theorem step_close {ops : List Char} (plain : ∀ d ∈ ops, d ≠ '(') (stack out : List Char) :
    Shunt.step { stack := ops ++ '(' :: stack, out } ')' = some { stack, out := out ++ ops } := by
  obtain ⟨driven, left⟩ := takeWhile_waiting (fun d => decide (d ≠ '(')) ('(' :: stack)
    (fun d member => by simpa using plain d member) (by simp)
  have operator : isOperator ')' = false := rfl
  unfold Shunt.step
  dsimp only
  rw [driven, left, operator]
  rfl

theorem step_close_bare {ops : List Char} (plain : ∀ d ∈ ops, d ≠ '(') (out : List Char) :
    Shunt.step { stack := ops, out } ')' = none := by
  obtain ⟨-, left⟩ := takeWhile_waiting (fun d => decide (d ≠ '(')) []
    (fun d member => by simpa using plain d member) (by simp)
  have operator : isOperator ')' = false := rfl
  rw [List.append_nil] at left
  unfold Shunt.step
  dsimp only
  rw [left, operator]
  rfl

theorem noBang_of_calm {stack : List Char} (calm : Calm stack) : NoBang stack := by
  intro d top
  rw [calm d top]
  decide

def chars (s : List Symbol) : List Char := s.map Symbol.char

@[simp] theorem chars_append (s s' : List Symbol) : chars (s ++ s') = chars s ++ chars s' :=
  List.map_append

@[simp] theorem chars_cons (x : Symbol) (s : List Symbol) : chars (x :: s) = x.char :: chars s := rfl

@[simp] theorem chars_bangs (n : ℕ) : chars (List.replicate n .bang) = List.replicate n '!' :=
  List.map_replicate

/-- The parser reads an expression where none of the operators before it binds its operands. -/
theorem foldlM_expression {b : Bool} (e : Infix b) {stack : List Char}
    (calm : NoBang stack ∧ (b = true ∨ Calm stack)) (out : List Char) :
    (chars e.symbols).foldlM Shunt.step { stack, out } =
      some { stack := e.pending ++ stack, out := out ++ e.out } := by
  induction e generalizing stack out with
  | truth bangs value =>
      rw [Infix.symbols, chars_append, chars_bangs, List.foldlM_append, foldlM_bangs calm.1,
        Option.bind_eq_bind, Option.bind_some]
      change [digit value].foldlM Shunt.step _ = _
      rw [List.foldlM_cons, step_digit, List.append_assoc]
      rfl
  | group bangs e ih =>
      have inside := @ih ('(' :: (List.replicate (min bangs 1) '!' ++ stack))
        ⟨noBang_of_calm (calm_bracket _), .inr (calm_bracket _)⟩
      rw [Infix.symbols, chars_append, chars_bangs, List.foldlM_append, foldlM_bangs calm.1,
        Option.bind_eq_bind, Option.bind_some, chars_cons, List.foldlM_cons]
      change (chars (e.symbols ++ [.closing])).foldlM Shunt.step
        { stack := '(' :: (List.replicate (min bangs 1) '!' ++ stack),
          out := out ++ List.replicate (bangs - 1) '!' } = _
      rw [chars_append, List.foldlM_append, inside, Option.bind_eq_bind, Option.bind_some]
      change [')'].foldlM Shunt.step _ = _
      rw [List.foldlM_cons, step_close fun d member => (pending_waits e .and d member).1,
        Option.bind_eq_bind, Option.bind_some]
      simp [Infix.out, Infix.pending]
  | chain e o t ih ih' =>
      have calm : Calm stack := calm.2.resolve_left Bool.false_ne_true
      have behind : NoBang (o.symbol :: stack) := by
        intro d top
        cases top
        cases o <;> decide
      rw [Infix.symbols, chars_append, List.foldlM_append, ih ⟨noBang_of_calm calm, .inr calm⟩,
        Option.bind_eq_bind, Option.bind_some, chars_cons, List.foldlM_cons]
      change (Shunt.step _ o.symbol).bind _ = _
      rw [step_op e o calm, Option.bind_some, ih' ⟨behind, .inl rfl⟩]
      simp [Infix.out, Infix.pending]

/-! ## Its value -/

/-- So many negations of the topmost value; they raise where there is none. -/
def spillOn : ℕ → List Bool → Option (List Bool)
  | 0, vs => some vs
  | _ + 1, [] => none
  | n + 1, v :: vs => some (negate (n + 1) v :: vs)

theorem foldlM_negations (n : ℕ) (vs : List Bool) :
    (List.replicate n '!').foldlM evaluateStep vs = spillOn n vs := by
  induction n generalizing vs with
  | zero => rfl
  | succ n ih =>
      cases vs with
      | nil => rfl
      | cons v vs =>
          rw [List.replicate_succ, List.foldlM_cons]
          change (List.replicate n '!').foldlM evaluateStep ((!v) :: vs) = _
          rw [ih]
          cases n with
          | zero => rfl
          | succ n => exact congrArg (fun w => some (w :: vs)) (negate_add (n + 1) 1 v).symm

theorem spillOn_cons (n : ℕ) (v : Bool) (vs : List Bool) :
    spillOn n (v :: vs) = some (negate n v :: vs) := by
  cases n <;> rfl

theorem spillOn_add (m n : ℕ) (vs : List Bool) :
    (spillOn m vs).bind (spillOn n) = spillOn (m + n) vs := by
  cases vs with
  | nil =>
      cases m with
      | zero => rw [Nat.zero_add]; rfl
      | succ m => rw [Nat.succ_add]; rfl
  | cons v vs =>
      rw [spillOn_cons, Option.bind_some, spillOn_cons, spillOn_cons, Nat.add_comm, negate_add]

theorem evaluate_digit (value : Bool) (vs : List Bool) :
    evaluateStep vs (digit value) = some (value :: vs) := by
  cases value <;> rfl

/-- What the expression puts out, evaluated on a stack. -/
theorem evaluate_infix {b : Bool} (e : Infix b) (vs : List Bool) :
    (e.out ++ e.pending).foldlM evaluateStep vs = (spillOn e.spill vs).map (e.read :: ·) := by
  induction e generalizing vs with
  | truth bangs value =>
      rw [Infix.out, Infix.pending, List.append_assoc, List.foldlM_append, foldlM_negations]
      cases spilled : spillOn (bangs - 1) vs with
      | none => simp [Infix.spill, spilled]
      | some ws =>
          rw [Option.bind_eq_bind, Option.bind_some, List.singleton_append, List.foldlM_cons,
            evaluate_digit, Option.bind_eq_bind, Option.bind_some, foldlM_negations, spillOn_cons,
            Infix.spill, spilled, Option.map_some, Infix.read]
  | group bangs e ih =>
      rw [Infix.out, Infix.pending, List.append_assoc, List.foldlM_append, foldlM_negations,
        Infix.spill, ← spillOn_add]
      cases spilled : spillOn (bangs - 1) vs with
      | none => rfl
      | some ws =>
          rw [Option.bind_eq_bind, Option.bind_some, List.foldlM_append, ih, Option.bind_some]
          cases spillOn e.spill ws with
          | none => rfl
          | some us =>
              rw [Option.map_some, Option.bind_eq_bind, Option.bind_some, foldlM_negations,
                spillOn_cons, Option.map_some, Infix.read]
  | chain e o t ih ih' =>
      rw [Infix.out, Infix.pending, List.append_assoc, List.foldlM_append, ih, Infix.spill]
      cases spillOn e.spill vs with
      | none => rfl
      | some ws =>
          rw [Option.map_some, Option.bind_eq_bind, Option.bind_some, ← List.append_assoc,
            List.foldlM_append, ih', spillOn_cons, Option.map_some, Option.bind_eq_bind,
            Option.bind_some, Option.map_some, Infix.read]
          cases o <;> rfl

/-- What the parser answers on an expression. -/
theorem evaluateInfix_symbols {b : Bool} (e : Infix b) :
    evaluateInfix (chars e.symbols) = if e.spill = 0 then some e.read else none := by
  have printed : infixToPostfix (chars e.symbols) = some (e.out ++ e.pending) := by
    unfold infixToPostfix
    rw [foldlM_expression e ⟨noBang_of_calm calm_nil, .inr calm_nil⟩]
    simp
  unfold evaluateInfix evaluatePostfix
  rw [printed, Option.bind_some, evaluate_infix]
  split_ifs with none_spilled
  · rw [none_spilled]
    rfl
  · obtain ⟨n, spill⟩ := Nat.exists_eq_succ_of_ne_zero none_spilled
    rw [spill]
    rfl

/-! ## Counting the values -/

/-- What waits at one level of parentheses. -/
structure Pending where
  binary : Bool := false
  bang : Bool := false

/-- The number of values once what waits has been applied; `!` needs one, a binary operator two. -/
def Pending.settle (p : Pending) (values : ℕ) : Option ℕ :=
  if p.bang ∧ values = 0 then none
  else if p.binary then if values < 2 then none else some (values - 1)
  else some values

structure Tally where
  values : ℕ := 0
  level : Pending := {}
  outer : List Pending := []

/-- Each operator is applied where the next one of its level, or its closing parenthesis,
stands; a `!` leaves a binary operator waiting. -/
def Tally.step (t : Tally) : Symbol → Option Tally
  | .truth _ => some { t with values := t.values + 1 }
  | .op _ => (t.level.settle t.values).map fun values =>
      { t with values, level := { binary := true } }
  | .bang =>
      if t.level.bang ∧ t.values = 0 then none
      else some { t with level := { t.level with bang := true } }
  | .opening => some { t with level := {}, outer := t.level :: t.outer }
  | .closing =>
      match t.outer with
      | [] => none
      | level :: outer => (t.level.settle t.values).map fun values => { values, level, outer }

/-- The levels left open are settled at the end, from the innermost on. -/
def settleAll (levels : List Pending) (values : ℕ) : Option ℕ :=
  levels.foldlM (fun values p => p.settle values) values

/-- Every closing parenthesis closes one, every operator finds its values, and one is left. -/
def Tallies (s : List Symbol) : Prop :=
  ∃ t, s.foldlM Tally.step {} = some t ∧ settleAll (t.level :: t.outer) t.values = some 1

/-- The operators that wait at a level, the topmost first. -/
def Waits (p : Pending) (ops : List Char) : Prop :=
  ∃ o : Connective, ops = (if p.bang then ['!'] else []) ++ if p.binary then [o.symbol] else []

/-- The stack of the parser holds what waits at each level. -/
inductive Stacked : List Pending → List Char → Prop
  | one {p ops} (waits : Waits p ops) : Stacked [p] ops
  | cons {p ops ps stack} (waits : Waits p ops) (outer : Stacked ps stack) :
      Stacked (p :: ps) (ops ++ '(' :: stack)

/-- Applying what waits at a level changes the number of values as the tally has it. -/
theorem settle_length {p : Pending} {ops : List Char} (waits : Waits p ops) (vs : List Bool) :
    (ops.foldlM evaluateStep vs).map List.length = p.settle vs.length := by
  obtain ⟨o, rfl⟩ := waits
  obtain ⟨binary, bang⟩ := p
  have applied (ws : List Bool) : ([o.symbol].foldlM evaluateStep ws).map List.length =
      if ws.length < 2 then none else some (ws.length - 1) := by
    rcases ws with _ | ⟨w, _ | ⟨w', ws⟩⟩ <;> cases o <;> simp [Connective.symbol, evaluateStep]
  cases bang with
  | false =>
      cases binary with
      | false => simp [Pending.settle]
      | true => simpa [Pending.settle] using applied vs
  | true =>
      cases vs with
      | nil => simp [Pending.settle, evaluateStep]
      | cons v vs =>
          cases binary with
          | false => simp [Pending.settle, evaluateStep]
          | true => simpa [Pending.settle, evaluateStep] using applied ((!v) :: vs)

theorem settleAll_length {ps : List Pending} {stack : List Char} (stacked : Stacked ps stack)
    (vs : List Bool) :
    (stack.foldlM evaluateStep vs).map List.length = settleAll ps vs.length := by
  induction stacked generalizing vs with
  | one waits =>
      rw [settle_length waits, settleAll, List.foldlM_cons]
      simp
  | cons waits outer ih =>
      rw [settleAll, List.foldlM_cons, ← settle_length waits, List.foldlM_append]
      cases (List.foldlM evaluateStep vs _) with
      | none => rfl
      | some ws =>
          rw [Option.bind_eq_bind, Option.bind_some, List.foldlM_cons]
          exact ih ws

/-- The parser and the tally in step. -/
structure Tally.Follows (t : Tally) (s : Shunt) : Prop where
  stacked : Stacked (t.level :: t.outer) s.stack
  counted : (s.out.foldlM evaluateStep []).map List.length = some t.values

theorem Waits.stop {p : Pending} {ops : List Char} (waits : Waits p ops) :
    ∀ d ∈ ops, d = '!' ∨ ∃ o : Connective, d = o.symbol := by
  obtain ⟨o, rfl⟩ := waits
  intro d member
  rcases List.mem_append.1 member with bang | binary
  · split_ifs at bang with here
    · exact .inl (List.mem_singleton.1 bang)
    · cases bang
  · split_ifs at binary with here
    · exact .inr ⟨o, List.mem_singleton.1 binary⟩
    · cases binary

/-- The level on top of the stack, and what is below it. -/
theorem Stacked.top {p : Pending} {ps : List Pending} {stack : List Char}
    (stacked : Stacked (p :: ps) stack) :
    ∃ ops rest, stack = ops ++ rest ∧ Waits p ops ∧ Calm rest ∧
      (∀ {p' ops'}, Waits p' ops' → Stacked (p' :: ps) (ops' ++ rest)) ∧
      ((ps = [] ∧ rest = []) ∨ ∃ inner, rest = '(' :: inner ∧ Stacked ps inner) := by
  cases stacked with
  | one waits =>
      refine ⟨stack, [], (List.append_nil _).symm, waits, calm_nil, fun waits' => ?_, .inl ⟨rfl, rfl⟩⟩
      rw [List.append_nil]
      exact .one waits'
  | cons waits outer =>
      exact ⟨_, _, rfl, waits, calm_bracket _, fun waits' => .cons waits' outer,
        .inr ⟨_, rfl, outer⟩⟩

/-- What a level puts out is counted as it is settled. -/
theorem counted_settled {p : Pending} {ops out : List Char} (waits : Waits p ops) {values : ℕ}
    (counted : (out.foldlM evaluateStep []).map List.length = some values) :
    ((out ++ ops).foldlM evaluateStep []).map List.length = p.settle values := by
  obtain ⟨vs, evaluated, rfl⟩ := Option.map_eq_some_iff.1 counted
  rw [List.foldlM_append, evaluated]
  exact settle_length waits vs

theorem Waits.bang {p : Pending} {ops : List Char} (waits : Waits p ops) :
    if p.bang then ∃ ops', ops = '!' :: ops' ∧ Waits { p with bang := false } ops'
    else NoBang ops ∧ Waits { p with bang := true } ('!' :: ops) := by
  obtain ⟨o, rfl⟩ := waits
  obtain ⟨binary, bang⟩ := p
  cases bang with
  | true => exact ⟨_, rfl, o, rfl⟩
  | false =>
      refine ⟨?_, o, rfl⟩
      intro d top
      cases binary with
      | false => cases top
      | true =>
          cases top
          cases o <;> decide

theorem noBang_append {ops rest : List Char} (inside : NoBang ops) (below : NoBang rest) :
    NoBang (ops ++ rest) := by
  cases ops with
  | nil => exact below
  | cons c ops => exact inside

/-- Where the tally goes on the parser does, and where the tally fails the evaluation will. -/
theorem Tally.Follows.step {t : Tally} {s : Shunt} (follows : t.Follows s) (x : Symbol) :
    (∀ t', t.step x = some t' → ∃ s', s.step x.char = some s' ∧ t'.Follows s') ∧
      (t.step x = none → ∀ s', s.step x.char = some s' → s'.out.foldlM evaluateStep [] = none) := by
  obtain ⟨stack, out⟩ := s
  obtain ⟨stacked, counted⟩ := follows
  obtain ⟨ops, rest, rfl, waits, calm, restack, below⟩ := stacked.top
  have plain : ∀ d ∈ ops, d ≠ '(' := by
    intro d member
    rcases waits.stop d member with rfl | ⟨o, rfl⟩
    · decide
    · cases o <;> decide
  cases x with
  | truth value =>
      refine ⟨fun t' here => ?_, fun failed => nomatch failed⟩
      cases here
      refine ⟨_, step_digit value _, stacked, ?_⟩
      obtain ⟨vs, evaluated, count⟩ := Option.map_eq_some_iff.1 counted
      simp [List.foldlM_append, evaluated, evaluate_digit, ← count]
  | op o =>
      have stepped : Shunt.step { stack := ops ++ rest, out } (Symbol.op o).char =
          some { stack := o.symbol :: rest, out := out ++ ops } := by
        refine step_operator (by cases o <;> rfl) (fun d member => ⟨plain d member, ?_⟩)
          (fun d top => .inl (calm d top)) out
        rcases waits.stop d member with rfl | ⟨o', rfl⟩
        · cases o <;> decide
        · cases o <;> cases o' <;> decide
      have settled := counted_settled waits counted
      constructor
      · intro t' here
        obtain ⟨values, enough, rfl⟩ := Option.map_eq_some_iff.1 here
        refine ⟨_, stepped, @restack { binary := true } [o.symbol] ⟨o, rfl⟩, ?_⟩
        rw [settled, enough]
      · intro failed s' here
        rw [stepped] at here
        cases here
        rw [Option.map_eq_none_iff.1 failed] at settled
        exact Option.map_eq_none_iff.1 settled
  | bang =>
      have bang := waits.bang
      split_ifs at bang with doubled
      · obtain ⟨ops', rfl, waits'⟩ := bang
        have calm' : NoBang (ops' ++ rest) := by
          have here := waits'.bang
          exact noBang_append here.1 (noBang_of_calm calm)
        have stepped : Shunt.step { stack := '!' :: ops' ++ rest, out } Symbol.bang.char =
            some { stack := '!' :: ops' ++ rest, out := out ++ ['!'] } := step_bang_again calm' out
        obtain ⟨vs, evaluated, count⟩ := Option.map_eq_some_iff.1 counted
        constructor
        · intro t' here
          simp only [Tally.step, doubled, true_and] at here
          split_ifs at here with nothing
          cases here
          refine ⟨_, stepped, restack ?_, ?_⟩
          · have same : { t.level with bang := true } = t.level := by rw [← doubled]
            rw [same]
            exact waits
          · cases vs with
            | nil => exact absurd count.symm nothing
            | cons v vs => simp [List.foldlM_append, evaluated, evaluateStep, ← count]
        · intro failed s' here
          simp only [Tally.step, doubled, true_and] at failed
          split_ifs at failed with nothing
          rw [stepped] at here
          cases here
          rw [nothing] at count
          rw [List.foldlM_append, evaluated, List.eq_nil_of_length_eq_zero count]
          rfl
      · constructor
        · intro t' here
          simp only [Tally.step, doubled, Bool.false_eq_true, false_and, if_false] at here
          cases here
          exact ⟨_, step_bang (noBang_append bang.1 (noBang_of_calm calm)) out, restack bang.2, counted⟩
        · intro failed
          simp [Tally.step, doubled] at failed
  | opening =>
      refine ⟨fun t' here => ?_, fun failed => nomatch failed⟩
      cases here
      exact ⟨_, step_opening _, @Stacked.cons _ [] _ _ ⟨.and, rfl⟩ stacked, counted⟩
  | closing =>
      have settled := counted_settled waits counted
      rcases below with ⟨no_outer, rfl⟩ | ⟨inner, rfl, outer⟩
      · have stepped : Shunt.step { stack := ops ++ [], out } Symbol.closing.char = none := by
          rw [List.append_nil]
          exact step_close_bare plain out
        constructor
        · intro t' here
          simp [Tally.step, no_outer] at here
        · intro failed s' here
          rw [stepped] at here
          cases here
      · have stepped : Shunt.step { stack := ops ++ '(' :: inner, out } Symbol.closing.char =
            some { stack := inner, out := out ++ ops } := step_close plain inner out
        cases levels : t.outer with
        | nil =>
            rw [levels] at outer
            cases outer
        | cons level levels' =>
            rw [levels] at outer
            constructor
            · intro t' here
              simp only [Tally.step, levels] at here
              obtain ⟨values, enough, rfl⟩ := Option.map_eq_some_iff.1 here
              refine ⟨_, stepped, outer, ?_⟩
              rw [settled, enough]
            · intro failed s' here
              simp only [Tally.step, levels] at failed
              rw [stepped] at here
              cases here
              rw [Option.map_eq_none_iff.1 failed] at settled
              exact Option.map_eq_none_iff.1 settled

/-- What is put out stays. -/
theorem out_of_step {s s' : Shunt} {c : Char} (stepped : s.step c = some s') :
    ∃ more, s'.out = s.out ++ more := by
  unfold Shunt.step at stepped
  split_ifs at stepped
  · cases stepped
    exact ⟨_, rfl⟩
  · cases stepped
    exact ⟨_, rfl⟩
  · cases stepped
    exact ⟨[], (List.append_nil _).symm⟩
  · split at stepped
    · cases stepped
    · cases stepped
      exact ⟨_, rfl⟩
  · cases stepped
    exact ⟨[], (List.append_nil _).symm⟩

theorem out_of_foldlM {cs : List Char} {s s' : Shunt} (stepped : cs.foldlM Shunt.step s = some s') :
    ∃ more, s'.out = s.out ++ more := by
  induction cs generalizing s with
  | nil =>
      cases stepped
      exact ⟨[], (List.append_nil _).symm⟩
  | cons c cs ih =>
      rw [List.foldlM_cons] at stepped
      obtain ⟨between, first, rest⟩ := Option.bind_eq_some_iff.1 stepped
      obtain ⟨more, out⟩ := out_of_step first
      obtain ⟨more', out'⟩ := ih rest
      exact ⟨more ++ more', by rw [out', out, List.append_assoc]⟩

/-- A failed evaluation stays failed. -/
theorem failed_append {out more : List Char} (failed : out.foldlM evaluateStep [] = none) :
    (out ++ more).foldlM evaluateStep [] = none := by
  rw [List.foldlM_append, failed]
  rfl

theorem Tally.Follows.run {t : Tally} {s : Shunt} (follows : t.Follows s) (xs : List Symbol) :
    (∀ t', xs.foldlM Tally.step t = some t' →
        ∃ s', (chars xs).foldlM Shunt.step s = some s' ∧ t'.Follows s') ∧
      (xs.foldlM Tally.step t = none →
        ∀ s', (chars xs).foldlM Shunt.step s = some s' → s'.out.foldlM evaluateStep [] = none) := by
  induction xs generalizing t s with
  | nil =>
      refine ⟨fun t' here => ?_, fun failed => nomatch failed⟩
      cases here
      exact ⟨s, rfl, follows⟩
  | cons x xs ih =>
      obtain ⟨goes, fails⟩ := follows.step x
      rw [List.foldlM_cons, chars_cons, List.foldlM_cons]
      constructor
      · intro t' here
        obtain ⟨between, first, rest⟩ := Option.bind_eq_some_iff.1 here
        obtain ⟨s', stepped, follows'⟩ := goes between first
        obtain ⟨s'', reached, follows''⟩ := (ih follows').1 t' rest
        exact ⟨s'', Option.bind_eq_some_iff.2 ⟨s', stepped, reached⟩, follows''⟩
      · intro failed s'' here
        obtain ⟨s', stepped, reached⟩ := Option.bind_eq_some_iff.1 here
        cases first : t.step x with
        | none =>
            obtain ⟨more, out⟩ := out_of_foldlM reached
            rw [out]
            exact failed_append (fails first s' stepped)
        | some between =>
            rw [first] at failed
            obtain ⟨s₁, stepped₁, follows'⟩ := goes between first
            rw [stepped] at stepped₁
            cases stepped₁
            exact (ih follows').2 failed s'' reached

theorem evaluatePostfix_isSome {expr : List Char} :
    (evaluatePostfix expr).isSome ↔
      (expr.foldlM evaluateStep []).map List.length = some 1 := by
  unfold evaluatePostfix
  cases expr.foldlM evaluateStep [] with
  | none => simp
  | some vs => rcases vs with _ | ⟨v, _ | ⟨v', vs⟩⟩ <;> simp

/-- The parser answers exactly where the tally comes out. -/
theorem evaluateInfix_isSome_iff (s : List Symbol) :
    (evaluateInfix (chars s)).isSome ↔ Tallies s := by
  have start : ({} : Tally).Follows { stack := [], out := [] } := ⟨.one ⟨.and, rfl⟩, rfl⟩
  obtain ⟨goes, fails⟩ := start.run s
  unfold evaluateInfix infixToPostfix Tallies
  cases tally : s.foldlM Tally.step {} with
  | some t =>
      obtain ⟨s', reached, stacked, counted⟩ := goes t tally
      obtain ⟨vs, evaluated, count⟩ := Option.map_eq_some_iff.1 counted
      rw [reached, Option.map_some, Option.bind_some, evaluatePostfix_isSome, List.foldlM_append,
        evaluated, Option.bind_eq_bind, Option.bind_some, settleAll_length stacked, count]
      simp
  | none =>
      refine iff_of_false ?_ (by simp)
      rw [Bool.not_eq_true, Option.isSome_eq_false_iff, Option.isNone_iff_eq_none,
        Option.bind_eq_none_iff]
      intro expr here
      obtain ⟨s', reached, rfl⟩ := Option.map_eq_some_iff.1 here
      unfold evaluatePostfix
      rw [failed_append (fails tally s' reached)]

/-! ## What the parser is for -/

/-- The parser raises exactly on what is no expression, and gives an expression its value. -/
structure Meets (s : List Symbol) : Prop where
  raises : evaluateInfix (chars s) = none ↔ ¬ ∃ b, ∃ e : Infix b, e.symbols = s
  value : ∀ b (e : Infix b), e.symbols = s → evaluateInfix (chars s) = some e.meaning

/-- The parser does so exactly on the expressions in which no `!` goes out before the first value
and the ones that go out before their operands make no difference, and on the other strings
whose values do not tally. -/
theorem meets_iff (s : List Symbol) :
    Meets s ↔ (∀ b (e : Infix b), e.symbols = s → e.spill = 0 ∧ e.read = e.meaning) ∧
      ((∀ b (e : Infix b), e.symbols ≠ s) → ¬ Tallies s) := by
  constructor
  · rintro ⟨raises, value⟩
    constructor
    · intro b e here
      have answer := value b e here
      rw [← here, evaluateInfix_symbols] at answer
      split_ifs at answer with none_spilled
      exact ⟨none_spilled, Option.some.inj answer⟩
    · intro malformed tallies
      have raised := raises.2 fun ⟨b, e, here⟩ => malformed b e here
      rw [← evaluateInfix_isSome_iff, raised] at tallies
      cases tallies
  · rintro ⟨right, counts⟩
    have value (b : Bool) (e : Infix b) (here : e.symbols = s) :
        evaluateInfix (chars s) = some e.meaning := by
      obtain ⟨none_spilled, read⟩ := right b e here
      rw [← here, evaluateInfix_symbols, if_pos none_spilled, read]
    refine ⟨⟨?_, ?_⟩, value⟩
    · rintro raised ⟨b, e, here⟩
      rw [value b e here] at raised
      cases raised
    · intro malformed
      have untallied := counts fun b e here => malformed ⟨b, e, here⟩
      rw [← evaluateInfix_isSome_iff] at untallied
      exact Option.not_isSome_iff_eq_none.1 untallied

theorem count_parentheses {b : Bool} (e : Infix b) :
    e.symbols.count .opening = e.symbols.count .closing := by
  induction e with
  | truth bangs value => simp [Infix.symbols, List.count_append, List.count_replicate]
  | group bangs e ih => simp [Infix.symbols, List.count_append, List.count_replicate, ih]
  | chain e o t ih ih' => simp [Infix.symbols, List.count_append, ih, ih']

/-- An unclosed parenthesis goes unnoticed. -/
theorem unclosed_accepted : ¬ Meets [.opening, .truth true] := by
  intro meets
  have answered : evaluateInfix (chars [.opening, .truth true]) = some true := by decide
  have raised := meets.raises.2 fun ⟨b, e, here⟩ => by
    have counts := count_parentheses e
    rw [here] at counts
    exact absurd counts (by decide)
  rw [answered] at raised
  cases raised

end SmoArchipelago.World
