import Mathlib.Data.List.Basic

/-! # Compiling moon requirements

A moon record lists the ways to collect a moon: a jump height, cap throws, other moves and
captures. Two compilers write it as a requirement string, one when the logic data is built
and one when entrances are shuffled.

## Implementation notes

The two compilers are one function over the tables and joiners in which they differ; `none`
stands for a `KeyError`. -/

namespace SmoArchipelago.World

/-- A way to collect a moon. -/
structure Method where
  jumpHeight : Option String := none
  capThrows : List String := []
  otherRequired : List String := []

structure MoonRecord where
  methods : List (Option Method)
  captureGroups : List (List String)

/-! ## The tables -/

inductive JumpKey where
  | pj1
  | pj2
  | capBounce
  | backflip
  | sideFlip
  | spinJump
  | gpj
  | longJump
  deriving DecidableEq

/-- `JUMP_FRAG`; the run-time table has no entry for the spin jump and never looks it up. -/
def jumpFrag : JumpKey → String
  | .pj1 => "|Progressive Jump:1|"
  | .pj2 => "|Progressive Jump:2|"
  | .capBounce => "|Cap Bounce|"
  | .backflip => "(|Backflip| and |Progressive Crouch:1|)"
  | .sideFlip => "|Side Flip|"
  | .spinJump => "|Spin|"
  | .gpj => "(|Ground Pound Jump| and |Progressive Ground Pound:1|)"
  | .longJump => "(|Long Jump| and |Progressive Crouch:1|)"

/-- `HEIGHT_SATISFIERS` of the run-time compiler. -/
def interiorHeights : String → Option (List JumpKey)
  | "double" => some [.pj1, .capBounce, .backflip, .sideFlip, .gpj, .pj2]
  | "cap_return" => some [.capBounce, .backflip, .sideFlip, .gpj, .pj2]
  | "backflip" => some [.capBounce, .backflip, .sideFlip, .gpj, .pj2]
  | "gpj" => some [.gpj, .pj2]
  | "triple" => some [.pj2]
  | _ => none

/-- `HEIGHT_SATISFIERS` of the build-time compiler. -/
def buildHeights : String → Option (List JumpKey)
  | "double" => some [.pj1, .capBounce, .backflip, .sideFlip, .spinJump, .gpj, .pj2]
  | "cap_return" => some [.capBounce, .backflip, .sideFlip, .spinJump, .gpj, .pj2]
  | "backflip" => some [.capBounce, .backflip, .sideFlip, .spinJump, .gpj, .pj2]
  | "gpj" => some [.gpj, .pj2]
  | "triple" => some [.pj2]
  | _ => none

/-- `THROW_FRAG`. -/
def throwFrag : String → Option String
  | "up" => some "|Up Throw|"
  | "down" => some "|Down Throw|"
  | "spin" => some "|Spin Throw|"
  | _ => none

/-- `OTHER_FRAG`: the fragment of a known move, and nothing for a free one. -/
def otherFrag : String → Option (Option String)
  | "ground_pound" => some (some "|Progressive Ground Pound:1|")
  | "dive" => some (some "|Progressive Ground Pound:2|")
  | "crouch" => some (some "|Progressive Crouch:1|")
  | "roll" => some (some "|Progressive Crouch:2|")
  | "roll_boost" => some (some "|Progressive Crouch:3|")
  | "wall_slide" => some (some "|Wall Slide|")
  | "climb" => some (some "|Climb|")
  | "cap_bounce" => some (some "|Cap Bounce|")
  | "bonk_roll" => some (some "|Progressive Crouch:2|")
  | "single" => some none
  | _ => none

/-! ## The joiners -/

/-- The parts that are not empty, in parentheses where there are several. -/
def joinParts (sep : String) (parts : List (List Char)) : List Char :=
  match parts.filter (· ≠ []) with
  | [] => []
  | [part] => part
  | parts => '(' :: (List.intercalate sep.toList parts ++ [')'])

/-- The first occurrence of each member. -/
def dedupe (parts : List (List Char)) : List (List Char) :=
  parts.foldl (fun seen part => if part ∈ seen then seen else seen ++ [part]) []

/-- `_and_join`, and the `and_join` that drops duplicates. -/
def interiorAndJoin : List (List Char) → List Char := joinParts " and "

def buildAndJoin (parts : List (List Char)) : List Char := joinParts " and " (dedupe parts)

/-- `_or_join` and `or_join`. -/
def orJoin : List (List Char) → List Char := joinParts " or "

/-! ## The compilers -/

/-- What the two compilers differ in. -/
structure Compiler where
  heights : String → Option (List JumpKey)
  freeCaptures : List String
  andJoin : List (List Char) → List Char
  /-- An unknown throw or move raises. -/
  strict : Bool

/-- `f"|{c}|"`. -/
def bars (name : String) : List Char := '|' :: (name.toList ++ ['|'])

namespace Compiler

variable (c : Compiler)

/-- The alternatives of the groups; `none` where one is free. -/
def captureParts : List (List String) → Option (List (List Char))
  | [] => some []
  | g :: groups =>
      let items := g.filter (· ∉ c.freeCaptures)
      if items = [] then none
      else (captureParts groups).map (c.andJoin (items.map bars) :: ·)

/-- `capture_term`. -/
def captureTerm (groups : List (List String)) : Option (List Char) :=
  if groups = [] then none else (c.captureParts groups).map orJoin

def heightTerms (jumpHeight : Option String) : List (List Char) :=
  if jumpHeight = some "long_jump" then [(jumpFrag .longJump).toList]
  else
    match jumpHeight.bind c.heights with
    | some keys => [orJoin (keys.map fun k => (jumpFrag k).toList)]
    | none => []

def throwTerms (throws : List String) : Option (List (List Char)) :=
  if throws ≠ [] ∧ ¬ ("neutral" ∈ throws ∨ "none" ∈ throws) then
    if c.strict ∧ ∃ t ∈ throws, throwFrag t = none then none
    else some [orJoin ((throws.filterMap throwFrag).map String.toList)]
  else some []

def otherTerm (groups : List (List String)) (o : String) : Option (List (List Char)) :=
  if o = "capture" then some (c.captureTerm groups).toList
  else
    match otherFrag o with
    | some frag => some (frag.map String.toList).toList
    | none => if c.strict then none else some []

/-- `compile_method`. -/
def compileMethod (groups : List (List String)) (m : Method) : Option (List Char) :=
  (c.throwTerms m.capThrows).bind fun throws =>
    (m.otherRequired.mapM (c.otherTerm groups)).map fun others =>
      c.andJoin (c.heightTerms m.jumpHeight ++ (throws ++ others.flatten))

/-- `compile_interior_requires` and `compile_moon`. -/
def compileMoon (record : MoonRecord) : Option (List Char) :=
  ((record.methods.filterMap id).mapM (c.compileMethod record.captureGroups)).map fun exprs =>
    if [] ∈ dedupe exprs then [] else orJoin (dedupe exprs)

end Compiler

/-- The compiler of `entrance_logic`. -/
def interiorCompiler : Compiler where
  heights := interiorHeights
  freeCaptures := ["Frog", "Chain Chomp"]
  andJoin := interiorAndJoin
  strict := false

/-- The compiler of the build script. -/
def buildCompiler : Compiler where
  heights := buildHeights
  freeCaptures := ["Frog", "Chain Chomp", "Broode's Chain Chomp"]
  andJoin := buildAndJoin
  strict := true

def compileInteriorRequires (record : MoonRecord) : Option (List Char) :=
  interiorCompiler.compileMoon record

/-- `compile_moon`. -/
def compileMoonRequires (record : MoonRecord) : Option (List Char) :=
  buildCompiler.compileMoon record

end SmoArchipelago.World
