import CallProfiler.Text.Address
import CallProfiler.Text.Integer

/-!
# Arguments on a command line

A command takes options by their long names, flags also by one letter, and at most one argument
without a name.  A value follows its option, or stands behind an equals sign, and must stand there if
it starts with a dash; behind `--` everything is without a name.  Each option may be given once.

Arguments are taken from left to right.  An argument that is complete is looked at only when the next
one that is known comes up, so an unknown one behind it is refused first.
-/

namespace CallProfiler.Command

/-- Why a command line is refused; asking for help is one of the reasons. -/
inductive Refusal where
  | help
  | helpForNothing
  | missingCommand
  | unknownCommand
  | unknownArgument
  | missingArgument
  /-- An option is given twice. -/
  | repeated
  /-- A flag has a value. -/
  | tooManyValues
  /-- A value is missing, or a path is empty. -/
  | noValue
  | badValue
  deriving DecidableEq

/-- The name of a refusal. -/
def Refusal.kind : Refusal → String
  | help => "DisplayHelp"
  | helpForNothing => "DisplayHelpOnMissingArgumentOrSubcommand"
  | missingCommand => "MissingSubcommand"
  | unknownCommand => "InvalidSubcommand"
  | unknownArgument => "UnknownArgument"
  | missingArgument => "MissingRequiredArgument"
  | repeated => "ArgumentConflict"
  | tooManyValues => "TooManyValues"
  | noValue => "InvalidValue"
  | badValue => "ValueValidation"

/-- A value that was read. -/
inductive Value where
  | flag
  | number (n : Int)
  | path (s : String)
  deriving DecidableEq

/-- What an argument takes. -/
inductive Kind where
  | help
  | flag
  | natural
  | integer
  | address
  | path
  deriving DecidableEq

/-- A value follows. -/
def Kind.takesValue : Kind → Bool
  | help => false
  | flag => false
  | _ => true

/-- Reads a value. -/
def Kind.read (k : Kind) (s : String) : Except Refusal Value :=
  let number (n : Option Int) : Except Refusal Value :=
    match n with
    | some n => .ok (.number n)
    | none => .error .badValue
  match k with
  | help => .ok .flag
  | flag => .ok .flag
  | natural => number ((Text.readNatural? s.toList).map Int.ofNat)
  | integer => number (Text.readInteger? s.toList)
  | address => number ((Text.parseAddress s).toOption.map Int.ofNat)
  | path => if s = "" then .error .noValue else .ok (.path s)

/-- An argument that a command knows. -/
structure Parameter where
  name : String
  kind : Kind
  /-- The letter that stands for it. -/
  letter : Option Char := none
  deriving DecidableEq

/-- What a command takes. -/
structure Signature where
  options : List Parameter
  /-- The argument without a name. -/
  operand : Option Parameter := none
  /-- The commands that may follow. -/
  commands : List String := []
  deriving DecidableEq

/-- The arguments found so far. -/
structure Found where
  values : List (String × Value) := []
  /-- The last argument with its value, if it has come; it has not been looked at. -/
  waiting : Option (Parameter × Option String) := none
  operandTaken : Bool := false
  deriving DecidableEq

namespace Found

/-- Looks at an argument with its value. -/
def take (f : Found) (p : Parameter) (value : Option String) : Except Refusal Found :=
  if p.kind.takesValue && value.isNone then .error .noValue
  else if p.kind = .help then .error .help
  else if f.values.any (·.1 = p.name) then .error .repeated
  else
    match p.kind.read (value.getD "") with
    | .error e => .error e
    | .ok v => .ok { f with values := f.values ++ [(p.name, v)] }

/-- Looks at the argument that waits. -/
def settle (f : Found) : Except Refusal Found :=
  match f.waiting with
  | none => .ok f
  | some (p, value) => { f with waiting := none }.take p value

/-- Looks at the argument that waits and then at another one. -/
def next (f : Found) (p : Parameter) (value : Option String) : Except Refusal Found :=
  match f.settle with
  | .error e => .error e
  | .ok f => f.take p value

/-- Lets an argument wait, after a look at the one before it. -/
def hold (f : Found) (p : Parameter) (value : Option String) : Except Refusal Found :=
  match f.settle with
  | .error e => .error e
  | .ok f => .ok { f with waiting := some (p, value) }

def number (f : Found) (name : String) (standard : Int) : Int :=
  match f.values.lookup name with
  | some (.number n) => n
  | _ => standard

def path? (f : Found) (name : String) : Option String :=
  match f.values.lookup name with
  | some (.path s) => some s
  | _ => none

def has (f : Found) (name : String) : Bool := f.values.any (·.1 = name)

end Found

/-- The name in a long option, and the value behind an equals sign. -/
def longParts? (arg : String) : Option (String × Option String) :=
  match arg.toList with
  | '-' :: '-' :: c :: rest =>
    match Text.cutAt '=' (c :: rest) with
    | some (name, value) => some (String.ofList name, some (String.ofList value))
    | none => some (String.ofList (c :: rest), none)
  | _ => none

/-- The letters behind a single dash. -/
def letters? (arg : String) : Option (List Char) :=
  match arg.toList with
  | '-' :: c :: rest => if c = '-' then none else some (c :: rest)
  | _ => none

namespace Signature

/-- Takes a long option. -/
def takeLong (sig : Signature) (f : Found) (name : String) (value : Option String) :
    Except Refusal Found :=
  match sig.options.find? (·.name = name) with
  | none => .error .unknownArgument
  | some p =>
    if p.kind.takesValue then
      match value with
      | some v => f.next p (some v)
      | none => f.hold p none
    else if value.isSome then .error .tooManyValues
    else f.next p none

/-- Takes flags by their letters. -/
def takeLetters (sig : Signature) : Found → List Char → Except Refusal Found
  | f, [] => .ok f
  | f, c :: rest =>
    match sig.options.find? (·.letter = some c) with
    | none => .error .unknownArgument
    | some p =>
      match f.next p none with
      | .error e => .error e
      | .ok f => takeLetters sig f rest

/-- Takes an argument without a name. -/
def takeOperand (sig : Signature) (trailing : Bool) (f : Found) (arg : String) : Except Refusal Found :=
  match sig.operand, f.operandTaken with
  | some p, false => { f with operandTaken := true }.hold p (some arg)
  | _, _ =>
    if sig.commands = [] ∨ (trailing ∧ arg ∈ sig.commands) then .error .unknownArgument
    else .error .unknownCommand

/-- Takes one argument in front of `--`. -/
def takeOne (sig : Signature) (f : Found) (arg : String) : Except Refusal Found :=
  match longParts? arg with
  | some (name, value) => sig.takeLong f name value
  | none =>
    match letters? arg with
    | some letters => sig.takeLetters f letters
    | none =>
      match f.waiting with
      | some (p, none) => .ok { f with waiting := some (p, some arg) }
      | _ => sig.takeOperand false f arg

/-- Takes arguments up to their end or to a command, of which the arguments are given. -/
def takeAll (sig : Signature) : Bool → Found → List String →
    Except Refusal (Found × Option (String × List String))
  | _, f, [] => f.settle.map (·, none)
  | true, f, arg :: rest =>
    match sig.takeOperand true f arg with
    | .error e => .error e
    | .ok f => takeAll sig true f rest
  | false, f, arg :: rest =>
    if arg ∈ sig.commands then .ok (f, some (arg, rest))
    else if arg = "--" then takeAll sig true f rest
    else
      match sig.takeOne f arg with
      | .error e => .error e
      | .ok f => takeAll sig false f rest

end Signature

end CallProfiler.Command
