import SnapshotArchive.Text.Class

/-!
# Command line arguments

A grammar says which options and operands a command takes. Options and operands may be mixed. An
option may be shortened as long as no other starts alike, and its value follows it, after an equals
sign or as the next argument. Operands take arguments greedily, as many as they can, at each place
where some stand together. After a double dash all arguments are operands.

* `Grammar.parse` : what the arguments mean, or that help is asked for or the usage is wrong.
-/

namespace SnapshotArchive

open Text

/-- What an option does. -/
inductive OptionKind where
  | valued
  | flag
  | help
  deriving DecidableEq

/-- An option and its spellings, the first of which is its name. -/
structure OptionRule where
  spellings : List String
  kind : OptionKind

/-- How many arguments an operand takes. -/
inductive Arity where
  | one
  | atLeastOne
  /-- A command: all that is left, options too. -/
  | remainder
  deriving DecidableEq

/-- The options and operands of a command. -/
structure Grammar where
  options : List OptionRule
  operands : List Arity

/-- Arguments taken apart. -/
structure Parsed where
  /-- The options by name, each with its value if it has one, in the order given. -/
  options : List (String × Option String)
  /-- The arguments of each operand. -/
  operands : List (List String)
  /-- Whether an operand has no argument. -/
  isShort : Bool
  /-- Whether an argument is left over. -/
  isLong : Bool

/-- Why arguments are not acted upon. -/
inductive Halt where
  | help
  | usage
  deriving DecidableEq

namespace Grammar

/-! ### Telling options from operands -/

/-- A value in the same argument as its option: after an equals sign, or right after its letter. -/
inductive Attached where
  | equals (value : String)
  | glued (value : String)

/-- What an argument is taken for. -/
inductive Mark where
  | operand
  /-- The first double dash. -/
  | dashes
  | unknownOption
  /-- An option in one of its spellings, perhaps with a value attached. -/
  | option (rule : OptionRule) (spelling : String) (value : Option Attached)

/-- The spellings of a grammar, each with its option. -/
def spellings (g : Grammar) : List (String × OptionRule) :=
  g.options.flatMap fun rule => rule.spellings.map (·, rule)

/-- A text up to its first equals sign, and what follows the sign. -/
def splitValue (cs : List Char) : List Char × Option (List Char) :=
  match cs.dropWhile (· ≠ '=') with
  | _ :: value => (cs.takeWhile (· ≠ '='), some value)
  | [] => (cs, none)

/-- Whether a character is a decimal digit of some script. -/
def isDigit (c : Char) : Bool :=
  (digit? c).isSome

/-- Whether a text is a negative number, which is an operand. A line may end after it. -/
def isNegativeNumber (cs : List Char) : Bool :=
  let line := if cs.getLast? = some '\n' then cs.dropLast else cs
  match line with
  | '-' :: number =>
    match number.dropWhile isDigit with
    | [] => number ≠ []
    | c :: fraction => c = '.' && fraction ≠ [] && fraction.all isDigit
  | _ => false

/-- The options that an argument may shorten, each with the value attached. -/
def candidates (g : Grammar) (cs : List Char) : List Mark :=
  match cs with
  | '-' :: '-' :: _ =>
    let (short, value) := splitValue cs
    g.spellings.filterMap fun (spelling, rule) =>
      if short.isPrefixOf spelling.toList then
        some (.option rule spelling (value.map (.equals ∘ String.ofList)))
      else none
  | '-' :: letter :: rest =>
    g.spellings.filterMap fun (spelling, rule) =>
      if spelling.toList = ['-', letter] then
        some (.option rule spelling (some (.glued (String.ofList rest))))
      else if cs.isPrefixOf spelling.toList then some (.option rule spelling none)
      else none
  | _ => []

/-- What an argument that starts with a dash is taken for. -/
def markDashed (g : Grammar) (argument : String) : Except Halt Mark :=
  let cs := argument.toList
  let (short, value) := splitValue cs
  match g.spellings.lookup argument, g.spellings.lookup (String.ofList short), value with
  | some rule, _, _ => .ok (.option rule argument none)
  | none, some rule, some value => 
    .ok (.option rule (String.ofList short) (some (.equals (String.ofList value))))
  | _, _, _ =>
    match g.candidates cs with
    | [mark] => .ok mark
    | [] =>
      .ok (if isNegativeNumber cs || cs.contains ' ' then .operand else .unknownOption)
    | _ => .error .usage

/-- Takes each argument for an operand, an option or the double dash. -/
def marks (g : Grammar) : List String → Except Halt (List (String × Mark))
  | [] => .ok []
  | argument :: arguments =>
    if argument = "--" then
      .ok ((argument, .dashes) :: arguments.map (·, .operand))
    else do
      let mark ← if "-".toList.isPrefixOf argument.toList && argument ≠ "-" then
        g.markDashed argument else .ok .operand
      return (argument, mark) :: (← g.marks arguments)

/-! ### Operands -/

/-- Whether an argument is the double dash. -/
def Mark.isDashes : Mark → Bool
  | dashes => true
  | _ => false

/-- Whether an argument is an operand. -/
def Mark.isOperand : Mark → Bool
  | operand => true
  | _ => false

/-- Takes the arguments of one operand. The double dash is not one of them. -/
def takeOperand (arity : Arity) (marked : List (String × Mark)) :
    Option (List String × List (String × Mark)) :=
  let start := marked.takeWhile (·.2.isDashes)
  match marked.dropWhile (·.2.isDashes) with
  | (argument, .operand) :: rest =>
    let goesOn (mark : Mark) : Bool :=
      match arity with
      | .one => mark.isDashes
      | .atLeastOne => mark.isOperand || mark.isDashes
      | .remainder => true
    let taken := start ++ (argument, .operand) :: rest.takeWhile (goesOn ·.2)
    let arguments := taken.map (·.1)
    some (if arity = .remainder then arguments else arguments.erase "--",
      rest.dropWhile (goesOn ·.2))
  | _ => none

/-- Takes the arguments of as many operands as possible. Gives them with the arities and the
arguments that are left. -/
def takeOperands : List Arity → List (String × Mark) →
    List (List String) × List Arity × List (String × Mark)
  | [], marked => ([], [], marked)
  | arity :: arities, marked =>
    match takeOperand arity marked with
    | some (taken, rest) =>
      let (more, left, rest) := takeOperands arities rest
      (taken :: more, left, rest)
    | none => ([], arity :: arities, marked)

/-! ### Options -/

/-- The options of one argument: most often one, but letters may share a dash. -/
structure Cluster where
  given : List (OptionRule × Option String)
  /-- Whether a letter among them is no option. -/
  isLong : Bool
  rest : List (String × Mark)

/-- What is attached to a letter, by the characters after it. -/
def attached? : List Char → Option Attached
  | [] => none
  | '=' :: value => some (.equals (String.ofList value))
  | value => some (.glued (String.ofList value))

/-- Takes the options of one argument, and the value of the last from the arguments after it. -/
def takeCluster (g : Grammar) (rule : OptionRule) (spelling : String) (value : Option Attached) :
    (fuel : Nat) → List (String × Mark) → Except Halt Cluster
  | 0, _ => .error .usage
  | fuel + 1, rest =>
    match rule.kind, value with
    | .valued, some (.equals value) => .ok ⟨[(rule, value)], false, rest⟩
    | .valued, some (.glued value) => .ok ⟨[(rule, value)], false, rest⟩
    | .valued, none =>
      match rest with
      | (argument, .operand) :: rest => .ok ⟨[(rule, argument)], false, rest⟩
      | _ => .error .usage
    | _, none => .ok ⟨[(rule, none)], false, rest⟩
    | _, some (.equals _) => .error .usage
    | _, some (.glued value) =>
      match spelling.toList, value.toList with
      | [dash, _], letter :: more =>
        if letter = dash then .error .usage
        else
          let next := String.ofList [dash, letter]
          match g.spellings.lookup next with
          | none => .ok ⟨[(rule, none)], true, rest⟩
          | some nextRule => do
            let c ← g.takeCluster nextRule next (attached? more) fuel rest
            return { c with given := (rule, none) :: c.given }
      | _, _ => .error .usage

/-- Acts on the options of one argument. -/
def takeOptions (g : Grammar) (argument : String) (rule : OptionRule) (spelling : String)
    (value : Option Attached) (rest : List (String × Mark)) : Except Halt Cluster := do
  let c ← g.takeCluster rule spelling value (argument.length + 1) rest
  if c.given.any (·.1.kind = .help) then throw .help
  return c

/-! ### All arguments -/

/-- Whether options are among arguments. -/
def hasOption (marked : List (String × Mark)) : Bool :=
  marked.any fun m => !m.2.isOperand && !m.2.isDashes

/-- Takes marked arguments apart. -/
def parseMarked (g : Grammar) : (fuel : Nat) → List Arity → List (String × Mark) →
    Except Halt Parsed
  | 0, _, _ => .error .usage
  | fuel + 1, arities, marked =>
    match marked with
    | (_, .unknownOption) :: rest => do
      let p ← parseMarked g fuel arities rest
      return { p with isLong := true }
    | (argument, .option rule spelling value) :: rest => do
      let c ← g.takeOptions argument rule spelling value rest
      let p ← parseMarked g fuel arities c.rest
      let named := c.given.map fun (rule, value) => (rule.spellings.headD spelling, value)
      return { p with options := named ++ p.options, isLong := c.isLong || p.isLong }
    | _ => do
      let (taken, left, rest) := takeOperands arities marked
      if hasOption rest then
        let stray := if taken = [] then rest.takeWhile fun m => m.2.isOperand || m.2.isDashes else []
        let p ← parseMarked g fuel left (rest.drop stray.length)
        return { p with operands := taken ++ p.operands, isLong := p.isLong || stray ≠ [] }
      else return ⟨[], taken, left ≠ [], rest ≠ []⟩

/-- Takes arguments apart. -/
def parse (g : Grammar) (arguments : List String) : Except Halt Parsed := do
  let marked ← g.marks arguments
  g.parseMarked (marked.length + 1) g.operands marked

end Grammar

/-! ### Looking at the result -/

/-- The last value of an option. -/
def Parsed.value? (p : Parsed) (name : String) : Option String :=
  (p.options.reverse.find? (·.1 = name)).bind (·.2)

/-- Whether an option is given. -/
def Parsed.has (p : Parsed) (name : String) : Bool :=
  p.options.any (·.1 = name)

end SnapshotArchive
