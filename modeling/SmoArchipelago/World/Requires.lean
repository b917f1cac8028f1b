import SmoArchipelago.Bridge.DataPackage
import SmoArchipelago.Library.Formula
import SmoArchipelago.Library.TextScan

/-! # The two readers of requirement strings

A requirement string joins item tokens, calls of rule functions and parentheses by the words
`and` and `or`. The engine reads it by replacing tokens throughout the string; the entrance
logic reads it token by token. Both hand the result to the same operator parser.

## Implementation notes

A string is the list of its characters, and `none` stands for an exception. `isnumeric` and
`\w` are kept to ASCII: the evaluation ignores any other numeral, and a letter outside ASCII
only matters next to one of the two words. The rule functions are a parameter. -/

namespace SmoArchipelago.World

open Library Library.TextScan
open Bridge (isSpace)

/-! ## The operator parser -/

def isOperator (c : Char) : Bool := c = '&' || c = '|' || c = '!'

/-- The table `prec`. -/
def prec (c : Char) : ℕ := if c = '!' then 3 else 2

structure Shunt where
  stack : List Char
  out : List Char

/-- One character of `infix_to_postfix`; a parenthesis that closes nothing raises. -/
def Shunt.step (s : Shunt) (c : Char) : Option Shunt :=
  if c.isDigit then some { s with out := s.out ++ [c] }
  else if isOperator c then
    let binds (t : Char) : Bool := t ≠ '(' && prec c ≤ prec t
    some { stack := c :: s.stack.dropWhile binds, out := s.out ++ s.stack.takeWhile binds }
  else if c = '(' then some { s with stack := c :: s.stack }
  else if c = ')' then
    match s.stack.dropWhile (· ≠ '(') with
    | [] => none
    | _ :: stack => some { stack, out := s.out ++ s.stack.takeWhile (· ≠ '(') }
  else some s

def infixToPostfix (expr : List Char) : Option (List Char) :=
  (expr.foldlM Shunt.step { stack := [], out := [] }).map fun s => s.out ++ s.stack

/-- One character of `evaluate_postfix`. -/
def evaluateStep (stack : List Bool) (c : Char) : Option (List Bool) :=
  if c = '0' then some (false :: stack)
  else if c = '1' then some (true :: stack)
  else if c = '&' then
    match stack with
    | op2 :: op1 :: rest => some ((op1 && op2) :: rest)
    | _ => none
  else if c = '|' then
    match stack with
    | op2 :: op1 :: rest => some ((op1 || op2) :: rest)
    | _ => none
  else if c = '!' then
    match stack with
    | op :: rest => some ((!op) :: rest)
    | _ => none
  else some stack

def evaluatePostfix (expr : List Char) : Option Bool :=
  match expr.foldlM evaluateStep [] with
  | some [value] => some value
  | _ => none

def evaluateInfix (expr : List Char) : Option Bool := (infixToPostfix expr).bind evaluatePostfix

/-! ## The patterns -/

def isWordChar (c : Char) : Bool := c.isAlphanum || c = '_'

/-- `\|[^|]+\|`. -/
def itemPattern : Matcher := fun _ s =>
  match s with
  | [] => none
  | c :: t =>
      let body := t.takeWhile (· ≠ '|')
      if c = '|' ∧ body ≠ [] ∧ t.dropWhile (· ≠ '|') ≠ [] then some (body.length + 2) else none

/-- `\{(\w+)\(([^)]*)\)\}`. -/
def callPattern : Matcher := fun _ s =>
  match s with
  | [] => none
  | c :: t =>
      let name := t.takeWhile isWordChar
      match t.dropWhile isWordChar with
      | [] => none
      | d :: u =>
          let arg := u.takeWhile (· ≠ ')')
          if c = '{' ∧ d = '(' ∧ name ≠ [] ∧ [')', '}'].isPrefixOf (u.dropWhile (· ≠ ')')) then
            some (name.length + arg.length + 4)
          else none

/-- The groups of a match of the call pattern: the function and its arguments. -/
def callName (u : List Char) : List Char := u.tail.takeWhile isWordChar

def callArg (u : List Char) : List Char := (u.tail.dropWhile isWordChar).tail.takeWhile (· ≠ ')')

/-- The text begins with the word, in any letter case. -/
def StartsWord (word s : List Char) : Prop := (s.take word.length).map Char.toLower = word

instance (word s : List Char) : Decidable (StartsWord word s) :=
  inferInstanceAs (Decidable (_ = _))

/-- `\s?\bWORD\b\s?`, without regard to letter case. -/
def looseWord (word : List Char) : Matcher := fun prev s =>
  let tail (t : List Char) : Option ℕ :=
    if StartsWord word t ∧ ¬ (t.drop word.length).head?.any isWordChar then
      some (word.length + if (t.drop word.length).head?.any isSpace then 1 else 0)
    else none
  match s with
  | [] => none
  | c :: t =>
      if isSpace c then (tail t).map (· + 1)
      else if prev.any isWordChar then none
      else tail (c :: t)

/-- `\s+word\s+`, without regard to letter case. -/
def spacedWord (word : List Char) : Matcher := fun _ s =>
  let before := s.takeWhile isSpace
  let t := s.dropWhile isSpace
  let after := (t.drop word.length).takeWhile isSpace
  if before ≠ [] ∧ StartsWord word t ∧ after ≠ [] then
    some (before.length + word.length + after.length)
  else none

/-! ## Integers -/

def digitValue (c : Char) : ℕ := c.toNat - '0'.toNat

/-- Digits onto an accumulator; an underscore may stand between two of them. -/
def readDigits : ℕ → List Char → Option ℕ
  | acc, [] => some acc
  | acc, '_' :: c :: s =>
      if c.isDigit then readDigits (10 * acc + digitValue c) s else none
  | acc, c :: s => if c.isDigit then readDigits (10 * acc + digitValue c) s else none

def readNat : List Char → Option ℕ
  | [] => none
  | c :: s => if c.isDigit then readDigits (digitValue c) s else none

/-- `int(text)`. -/
def parseInt (text : List Char) : Option ℤ :=
  match trim isSpace text with
  | [] => none
  | c :: s =>
      if c = '-' then (readNat s).map fun n : ℕ => -(n : ℤ)
      else (readNat (if c = '+' then s else c :: s)).map fun n : ℕ => (n : ℤ)

/-! ## The engine's reader -/

/-- What a rule function returns. -/
inductive HookResult where
  | truth (value : Bool)
  | text (requires : List Char)

def digit (value : Bool) : Char := if value then '1' else '0'

/-- What the requirements of a player are read against, apart from what is held: the pool
and the categories of the items, the rule functions in the current state, and
`ceil(count * clamp(float(percent) / 100, 0, 1))`. -/
structure Setup where
  itemsCounts : String → ℕ
  categoryItems : String → List String
  hooks : List Char → List (List Char) → Option HookResult
  percentOf : List Char → ℕ → Option ℤ

/-- The number that the count of a token asks for, where the pool has so many items. -/
def Setup.tokenCount (env : Setup) (itemCount : List Char) (current : ℕ) : Option ℤ :=
  if itemCount.map Char.toLower = "all".toList then some current
  else if itemCount.map Char.toLower = "half".toList then some ((current / 2 : ℕ) : ℤ)
  else if itemCount.getLast? = some '%' ∧ 1 < itemCount.length then
    env.percentOf itemCount.dropLast current
  else parseInt itemCount

/-- `item.lstrip('|@$').rstrip('|')`. -/
def tokenBody (item : List Char) : List Char :=
  ((item.dropWhile fun c => c = '|' || c = '@' || c = '$').reverse.dropWhile (· = '|')).reverse

/-- The name and the count of a token. -/
def tokenParts (body : List Char) : List Char × List Char :=
  match body.splitOn ':' with
  | name :: count :: _ => (trim isSpace name, trim isSpace count)
  | _ => (body, ['1'])

/-- Replace a token by what it is worth, wherever it occurs. -/
def Setup.replaceItem (env : Setup) (held : String → ℕ) (requires item : List Char) :
    Option (List Char) :=
  let parts := tokenParts (tokenBody item)
  let name := String.ofList parts.1
  if ['|', '@'].isPrefixOf item then
    let names := env.categoryItems name
    (env.tokenCount parts.2 (names.map env.itemsCounts).sum).map fun count : ℤ =>
      let counted := names.foldl
        (fun (s : ℕ × List Char) n =>
          let total := s.1 + held n
          (total, if count ≤ total then replaceAll item ['1'] s.2 else s.2)) (0, requires)
      if counted.1 ≤ count then replaceAll item ['0'] counted.2 else counted.2
  else
    (env.tokenCount parts.2 (env.itemsCounts name)).map fun count : ℤ =>
      let counted := if count ≤ held name then replaceAll item ['1'] requires else requires
      if held name ≤ count then replaceAll item ['0'] counted else counted

/-- `func_args`. -/
def callArgs (arg : List Char) : List (List Char) := if arg = [] then [] else arg.splitOn ','

def HookResult.spliced : HookResult → List Char
  | truth value => [digit value]
  | text requires => requires

/-- Replace a call by its result, wherever it occurs. -/
def Setup.replaceCall (env : Setup) (requires call : List Char) : Option (List Char) :=
  (env.hooks (callName call) (callArgs (callArg call))).map fun result =>
    replaceAll call result.spliced requires

/-- `checkRequireStringForArea`. -/
def Setup.checkRequireString (env : Setup) (held : String → ℕ) (requires : List Char) :
    Option Bool :=
  if requires = [] then some true
  else
    ((findAll callPattern requires).foldlM env.replaceCall requires).bind fun spliced =>
      ((findAll itemPattern spliced).foldlM (env.replaceItem held) spliced).bind fun counted =>
        evaluateInfix (substitute (looseWord "or".toList) (fun _ => ['|'])
          (substitute (looseWord "and".toList) (fun _ => ['&']) counted))

/-! ## The entrance logic's reader -/

/-- What one token is worth. -/
def interiorToken (held : String → ℕ) (item : List Char) : Option (List Char) :=
  let segments := item.tail.dropLast.splitOn ':'
  let name := String.ofList (trim isSpace (segments.headD []))
  ((segments[1]?.map fun count => parseInt (trim isSpace count)).getD (some 1)).map fun count : ℤ =>
    [digit (count ≤ held name)]

def interiorPiece (held : String → ℕ) : Piece → Option (List Char)
  | .plain c => some [c]
  | .hit item => interiorToken held item

/-- The text that goes to the operator parser. -/
def interiorText (held : String → ℕ) (requires : List Char) : Option (List Char) :=
  ((scan itemPattern 0 none requires).mapM (interiorPiece held)).map fun parts =>
      trim isSpace (substitute (spacedWord "or".toList) (fun _ => ['|'])
        (substitute (spacedWord "and".toList) (fun _ => ['&']) parts.flatten))

/-- `evaluate_interior_requires`: a text that does not parse counts as satisfied. -/
def evaluateInteriorRequires (held : String → ℕ) (requires : List Char) : Option Bool :=
  if requires = [] then some true
  else
    (interiorText held requires).map fun result =>
      if result = [] then true else (evaluateInfix result).getD true

/-- The arguments, without the white space around them. -/
def strippedArgs (arg : List Char) : List (List Char) :=
  if trim isSpace arg = [] then [] else ((trim isSpace arg).splitOn ',').map (trim isSpace)

/-- What a call found by the pattern is replaced by. -/
def Setup.callValue (env : Setup) (call : List Char) : List Char :=
  match env.hooks (callName call) (strippedArgs (callArg call)) with
  | some (.text requires) => if requires = [] then ['1'] else '(' :: (requires ++ [')'])
  | some (.truth value) => [digit value]
  | none => ['1']

/-- The loop over the calls, of so many rounds. -/
def Setup.spliceCalls (env : Setup) : ℕ → List Char → List Char
  | 0, expr => expr
  | rounds + 1, expr =>
      match search callPattern none expr with
      | none => expr
      | some found => env.spliceCalls rounds (found.1 ++ env.callValue found.2.1 ++ found.2.2)

/-- `evaluate_full_requires`. -/
def Setup.evaluateFullRequires (env : Setup) (held : String → ℕ) (requires : List Char) :
    Option Bool :=
  if requires = [] then some true
  else evaluateInteriorRequires held (env.spliceCalls 16 requires)

/-! ## The grammar -/

inductive Connective where
  | and
  | or
  deriving DecidableEq

namespace Connective

def word : Connective → List Char
  | and => "and".toList
  | or => "or".toList

def symbol : Connective → Char
  | and => '&'
  | or => '|'

def apply : Connective → Bool → Bool → Bool
  | and, a, b => a && b
  | or, a, b => a || b

end Connective

theorem blank_nil : ∀ c ∈ [], isSpace c = true := List.forall_mem_nil _

theorem isSpace_space : isSpace ' ' = true := by decide

structure Blank where
  chars : List Char := []
  blank : ∀ c ∈ chars, isSpace c = true := by exact blank_nil

/-- A word as it is written, in some letter case and with white space on both sides. -/
structure Written (o : Connective) where
  before : Blank := {}
  left : Char := ' '
  left_space : isSpace left = true := by exact isSpace_space
  chars : List Char
  spelled : chars.map Char.toLower = o.word
  right : Char := ' '
  right_space : isSpace right = true := by exact isSpace_space
  after : Blank := {}

/-- A formula of the grammar, over atoms of some kind. -/
abbrev Requires (α : Type) (closed : Bool) : Type := Formula α Connective Blank Written closed

/-- An item token: a name and perhaps a count. -/
structure ItemToken where
  name : List Char
  count : Option ℤ := none
  named : name ≠ []
  whole : ∀ c ∈ name, c ≠ '|' ∧ c ≠ ':'
  stripped : trim isSpace name = name

namespace ItemToken

def body (t : ItemToken) : List Char :=
  match t.count with
  | none => t.name
  | some n => t.name ++ ':' :: (toString n).toList

def text (t : ItemToken) : List Char := '|' :: (t.body ++ ['|'])

def holds (held : String → ℕ) (t : ItemToken) : Bool :=
  t.count.getD 1 ≤ held (String.ofList t.name)

/-- The name holds none of the characters that the engine gives a meaning to, and does not
begin with a closing parenthesis. -/
structure Tame (t : ItemToken) : Prop where
  ordinary : ∀ c ∈ t.name, c ≠ '@' ∧ c ≠ '$' ∧ c ≠ '{'
  opening : t.name.head? ≠ some ')'

end ItemToken

/-- A call of a rule function. -/
structure Call where
  name : List Char
  arg : List Char
  named : name ≠ []
  word : ∀ c ∈ name, isWordChar c = true
  whole : ∀ c ∈ arg, c ≠ ')' ∧ c ≠ '{'

def Call.text (c : Call) : List Char := '{' :: (c.name ++ '(' :: (c.arg ++ [')', '}']))

/-- What a formula is made of after the calls are spliced, and before. -/
inductive Leaf where
  | item (t : ItemToken)
  | lit (value : Bool)

inductive Atom where
  | leaf (l : Leaf)
  | call (c : Call)

def Leaf.text : Leaf → List Char
  | item t => t.text
  | lit value => [digit value]

def Leaf.value (held : String → ℕ) : Leaf → Bool
  | item t => t.holds held
  | lit value => value

def Atom.text : Atom → List Char
  | leaf l => l.text
  | call c => c.text

/-- How one lexeme is written. -/
def writeLexeme {α : Type} (write : α → List Char) :
    Lexeme α Connective Blank Written → List Char
  | .opening pad => '(' :: pad.chars
  | .closing pad => pad.chars ++ [')']
  | .atom a => write a
  | .op _ w => w.before.chars ++ w.left :: (w.chars ++ w.right :: w.after.chars)

/-- The text of a formula. -/
def Requires.text {α : Type} {b : Bool} (write : α → List Char) (e : Requires α b) : List Char :=
  e.lexemes.flatMap (writeLexeme write)

/-- What a call of a rule function returns, where it returns a truth value or a closed
formula over items. -/
inductive Returned where
  | truth (value : Bool)
  | requires (e : Requires Leaf true)

namespace Returned

def result : Returned → HookResult
  | truth value => .truth value
  | requires e => .text (e.text Leaf.text)

def formula : Returned → Requires Leaf true
  | truth value => .atom (.lit value)
  | requires e => e

/-- With the parentheses that the entrance logic adds. -/
def wrapped : Returned → Requires Leaf true
  | truth value => .atom (.lit value)
  | requires e => .group {} e {}

def meaning (held : String → ℕ) (r : Returned) : Bool :=
  r.formula.meaning Connective.apply (Leaf.value held)

end Returned

/-- The rule function answers the call, whichever reader makes it. -/
structure Setup.Returns (env : Setup) (c : Call) (r : Returned) : Prop where
  plain : env.hooks c.name (callArgs c.arg) = some r.result
  stripped : env.hooks c.name (strippedArgs c.arg) = some r.result

end SmoArchipelago.World
