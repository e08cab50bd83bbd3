import Polish.Decimal.Reading
import Polish.Expr.Drawing
import Polish.Expr.Report

/-!
The command line: one expression, options that give the variables values, and an option that asks for
a drawing. Left out are the options that ask for more to be logged (`-v`, `--verbose`) or for help
(`-h`, `--help`): here they are options that do not exist. The arguments are first spelled out into single requests, in order and whatever their
spelling; the requests are then taken one by one, so that the first that is wrong decides, and the
outcome depends on the arguments only through what they request.
-/

namespace Polish.CommandLine

/-- A single request; an argument may hold several, or need the next one for its value. -/
inductive Request where
  | expression (text : List Char)
  | assign (v : Variable) (text : List Char)
  | drawing
  /-- Asks for less to be logged; as nothing is, it changes nothing. -/
  | quiet
  | version
  /-- No option is written so, or an option lacks its value. The options for more logging and for help
  are left out, and so are among those that are not known. -/
  | invalid
  deriving DecidableEq

/-- The requests of one argument, and a variable whose value is the argument after it. -/
structure Spelling where
  requests : List Request
  pending : Option Variable
  deriving DecidableEq

/-- The variable of a one-letter option name. -/
def named? (name : List Char) : Option Variable := Variable.ofName? (String.ofList name)

/-- Behind a long option's name: nothing, or an equals sign and a value. -/
def splitName (cs : List Char) : List Char × Option (List Char) :=
  match cs.dropWhile (· != '=') with
  | [] => (cs, none)
  | _ :: value => (cs.takeWhile (· != '='), some value)

/-- A long option, the two dashes left out; `verbose` and `help` are not among the options here. -/
def spellLong (cs : List Char) : Spelling :=
  let (name, value) := splitName cs
  match named? name, value with
  | some v, some value => ⟨[.assign v value], none⟩
  | some v, none => ⟨[], some v⟩
  | none, some _ => ⟨[.invalid], none⟩
  | none, none =>
    if name = "tree".toList then ⟨[.drawing], none⟩
    else if name = "quiet".toList then ⟨[.quiet], none⟩
    else if name = "version".toList then ⟨[.version], none⟩
    else ⟨[.invalid], none⟩

/-- The value that is written on to a one-letter option, an equals sign before it left out. -/
def attached : List Char → List Char
  | '=' :: cs => cs
  | cs => cs

/-- One-letter options in a row, the dash left out. A variable takes the rest of the row for its
value, or the next argument if nothing is left of the row. The letters `v` and `h` are not among the
options here. -/
def spellShort : List Char → Spelling
  | [] => ⟨[], none⟩
  | c :: cs =>
    match named? [c] with
    | some v => if cs = [] then ⟨[], some v⟩ else ⟨[.assign v (attached cs)], none⟩
    | none =>
      if c = 'q' then { spellShort cs with requests := .quiet :: (spellShort cs).requests }
      else if c = 'V' then ⟨[.version], none⟩
      else ⟨[.invalid], none⟩

/-- The requests of an argument in front of the terminator: a dash alone is an expression. -/
def spell : List Char → Spelling
  | '-' :: '-' :: cs => spellLong cs
  | '-' :: c :: cs => spellShort (c :: cs)
  | cs => ⟨[.expression cs], none⟩

/-- The requests of all arguments. A pending variable takes the next argument for its value, however
that is written; behind the terminator `--` every argument is an expression. -/
def requests : List (List Char) → List Request
  | [] => []
  | arg :: rest =>
    if arg = ['-', '-'] then rest.map .expression
    else
      match (spell arg).pending, rest with
      | none, rest => (spell arg).requests ++ requests rest
      | some _, [] => (spell arg).requests ++ [.invalid]
      | some v, value :: rest => (spell arg).requests ++ .assign v value :: requests rest

/-- What has been requested so far. -/
structure Settings where
  expression : Option (List Char) := none
  values : List (Variable × Float) := []
  drawing : Bool := false

/-- The point at which to evaluate: zero for a variable without a value. -/
def Settings.point (s : Settings) : Point where
  x := (s.values.lookup .x).getD 0
  y := (s.values.lookup .y).getD 0
  z := (s.values.lookup .z).getD 0

/-- An expression to evaluate, and how. -/
structure Job where
  expression : String
  point : Point
  drawing : Bool

/-- What the arguments come to. -/
inductive Settlement where
  | job (j : Job)
  | version
  | rejected

/-- Takes the requests one by one: each may come once, except for quiet. -/
def settle (s : Settings) : List Request → Settlement
  | [] =>
    match s.expression with
    | some text => .job ⟨String.ofList text, s.point, s.drawing⟩
    | none => .rejected
  | .expression text :: rest =>
    if s.expression.isSome then .rejected else settle { s with expression := some text } rest
  | .assign v text :: rest =>
    match s.values.lookup v, Decimal.read? (String.ofList text) with
    | none, some value => settle { s with values := (v, value) :: s.values } rest
    | _, _ => .rejected
  | .drawing :: rest => if s.drawing then .rejected else settle { s with drawing := true } rest
  | .quiet :: rest => settle s rest
  | .version :: _ => .version
  | .invalid :: _ => .rejected

/-- What a run of the program writes, and its exit code. -/
structure Outcome where
  code : UInt8
  stdout : String
  stderr : String
  deriving DecidableEq

/-- The name and the version of the program. -/
def versionLine : String := "prefix-expression-cli 0.1.0\n"

/-- The line about arguments that are rejected. -/
def usageLine : String := "usage: [-q] [--tree] [-x X] [-y Y] [-z Z] [--] EXPRESSION\n"

/-- Every line of a text moved four places to the right, an empty one as well. -/
def indent (text : String) : String :=
  "    " ++ String.join (text.toList.map fun c => if c = '\n' then "\n    " else String.singleton c)

/-- The report on a text that is no expression. -/
def failure (u : Unreadable) : String :=
  "Error: " ++ u.message ++ "\n\nCaused by:\n" ++ indent u.reason.message ++ "\n"

/-- Carries out a job. No operation that has been read lacks operands, so there is a value. -/
def Job.outcome (j : Job) : Outcome :=
  match Expr.read j.expression with
  | .error u => ⟨1, "", failure u⟩
  | .ok e =>
    match e.describe? j.point with
    | none => ⟨101, "", "operand missing\n"⟩
    | some text => ⟨0, text ++ "\n" ++ (if j.drawing then e.drawing else ""), ""⟩

/-- What a run comes to; rejected arguments end it with code 2. -/
def Settlement.outcome : Settlement → Outcome
  | job j => j.outcome
  | version => ⟨0, versionLine, ""⟩
  | rejected => ⟨2, "", usageLine⟩

/-- The outcome of a run with the given arguments. -/
def run (args : List String) : Outcome := (settle {} (requests (args.map String.toList))).outcome

end Polish.CommandLine
