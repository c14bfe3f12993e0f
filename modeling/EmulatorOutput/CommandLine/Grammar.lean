/-!
# Grammars of arguments

Switches with a long name and perhaps a short one stand alone, count how often they are given,
or take a value: from the same argument, after an equals sign or right after a short name, or
from the next. Short names can be bundled. A value is looked at only when the next switch is
dealt with or the arguments end, so that an argument that is no part of the grammar is reported
first. Two dashes end the switches, and no other arguments are taken but subcommands.
-/

namespace EmulatorOutput.CommandLine

/-- Why arguments were not accepted, or what was asked for instead. -/
inductive UsageError where
  | unknownArgument (given : String)
  /-- A value that is missing, or none of those that are possible. -/
  | invalidValue (switch given : String)
  /-- A value that does not mean anything. -/
  | valueValidation (switch given : String)
  /-- A switch given twice. -/
  | argumentConflict (switch : String)
  | invalidSubcommand (given : String)
  /-- A value for a switch that takes none. -/
  | tooManyValues (switch given : String)
  | displayHelp
  | displayVersion
  deriving DecidableEq, Repr

namespace UsageError

/-- Whether the program did what it was asked for all the same. -/
def isAnswer : UsageError → Bool
  | .displayHelp | .displayVersion => true
  | _ => false

/-- The code that the program ends with. -/
def exitCode (e : UsageError) : Nat := if e.isAnswer then 0 else 2

def message : UsageError → String
  | .unknownArgument given => s!"unexpected argument '{given}' found"
  | .invalidValue switch given => s!"invalid value '{given}' for '{switch}'"
  | .valueValidation switch given => s!"invalid value '{given}' for '{switch}'"
  | .argumentConflict switch => s!"the argument '{switch}' cannot be used multiple times"
  | .invalidSubcommand given => s!"unrecognized subcommand '{given}'"
  | .tooManyValues switch given => s!"unexpected value '{given}' for '{switch}' found"
  | .displayHelp => "help requested"
  | .displayVersion => "version requested"

end UsageError

/-- What a switch does to what is read so far. -/
inductive Use (σ : Type) where
  /-- Stands alone, and but once. -/
  | flag (apply : σ → σ)
  /-- Stands alone, any number of times. -/
  | count (apply : σ → σ)
  /-- Takes a value, once. -/
  | value (apply : String → σ → Except UsageError σ)
  /-- Ends the reading with an answer. -/
  | answer (result : UsageError)

/-- A switch. -/
structure Switch (σ : Type) where
  long : String
  short : Option Char := none
  use : Use σ

/-- A switch that still has its value to come, or its value to be looked at. -/
structure Pending (σ : Type) where
  name : String
  apply : String → σ → Except UsageError σ
  value : Option String := none

/-- What is read so far. -/
structure Progress (σ : Type) where
  state : σ
  /-- The switches that may not be given again. -/
  used : List String := []
  pending : Option (Pending σ) := none

namespace Progress

variable {σ : Type}

/-- Whether the next argument can be a value. -/
def isWaiting (p : Progress σ) : Bool :=
  match p.pending with
  | some { value := none, .. } => true
  | _ => false

/-- Notes that a switch is used, which it may be but once. -/
def once (p : Progress σ) (name : String) : Except UsageError (Progress σ) :=
  if name ∈ p.used then .error (.argumentConflict name)
  else .ok { p with used := name :: p.used }

def give (p : Progress σ) (name : String) (apply : String → σ → Except UsageError σ)
    (value : String) : Except UsageError (Progress σ) := do
  let p ← p.once name
  return { p with state := ← apply value p.state }

/-- Deals with the switch that is pending, if there is one. -/
def resolve (p : Progress σ) : Except UsageError (Progress σ) :=
  match p.pending with
  | none => .ok p
  | some { name, apply, value } =>
    match value with
    | none => .error (.invalidValue name "")
    | some v => give { p with pending := none } name apply v

/-- Deals with a switch that stands alone. -/
def act (p : Progress σ) (s : Switch σ) : Except UsageError (Progress σ) := do
  let p ← p.resolve
  match s.use with
  | .flag apply =>
    let p ← p.once s.long
    return { p with state := apply p.state }
  | .count apply => return { p with state := apply p.state }
  | .answer result => throw result
  | .value apply => return { p with pending := some { name := s.long, apply } }

/-- Deals with a switch that is given with a value. -/
def actWith (p : Progress σ) (s : Switch σ) (value : String) : Except UsageError (Progress σ) :=
  match s.use with
  | .value apply => do
    let p ← p.resolve
    p.give s.long apply value
  | _ => .error (.tooManyValues s.long value)

end Progress

/-- The arguments taken at one level: switches and subcommands. -/
structure Grammar (σ : Type) where
  switches : List (Switch σ)
  subcommands : List String := []

namespace Grammar

variable {σ : Type}

/-- Reads a switch by its long name, with the value that is attached to it. -/
def long (g : Grammar σ) (p : Progress σ) (given name : String) (value : Option String) :
    Except UsageError (Progress σ) :=
  match g.switches.find? (·.long == name) with
  | none => .error (.unknownArgument given)
  | some s =>
    match value with
    | some v => p.actWith s v
    | none => p.act s

/-- Reads bundled short names. The first that takes a value takes what follows as its value. -/
def bundle (g : Grammar σ) (given : String) :
    List Char → Progress σ → Except UsageError (Progress σ)
  | [], p => .ok p
  | c :: rest, p =>
    match g.switches.find? (·.short == some c) with
    | none => .error (.unknownArgument given)
    | some s =>
      match s.use, rest with
      | .value _, '=' :: value => p.actWith s (String.ofList value)
      | .value _, value@(_ :: _) => p.actWith s (String.ofList value)
      | _, rest => do
        let p ← p.act s
        g.bundle given rest p

/-- Why an argument that is no switch and no value is not taken. -/
def stray (g : Grammar σ) (afterDashes : Bool) (given : String) : UsageError :=
  if afterDashes ∧ given ∈ g.subcommands ∨ g.subcommands.isEmpty then .unknownArgument given
  else .invalidSubcommand given

/-- What comes of asking for help on what the arguments name. -/
def help (g : Grammar σ) : List String → UsageError
  | [] => .displayHelp
  | [topic] => if topic ∈ g.subcommands then .displayHelp else .invalidSubcommand topic
  | topic :: next :: _ =>
    if topic ∈ g.subcommands then .invalidSubcommand next else .invalidSubcommand topic

/-- The name of the subcommand that asks for help. -/
def helpName : String := "help"

/-- Reads arguments up to their end or to a subcommand, which comes with the arguments after
it. -/
def scan (g : Grammar σ) (afterDashes : Bool) :
    List String → Progress σ → Except UsageError (Progress σ × Option (String × List String))
  | [], p => .ok (p, none)
  | a :: rest, p =>
    if afterDashes then .error (g.stray true a)
    else if !p.isWaiting && g.subcommands.contains a then
      if a = helpName then .error (g.help rest) else .ok (p, some (a, rest))
    else if a = "--" then g.scan true rest p
    else
      match a.toList with
      | '-' :: '-' :: cs => do
        let name := String.ofList (cs.takeWhile (· ≠ '='))
        let value := match cs.dropWhile (· ≠ '=') with
          | _ :: value => some (String.ofList value)
          | [] => none
        let p ← g.long p a name value
        g.scan false rest p
      | '-' :: c :: cs => do
        let p ← g.bundle a (c :: cs) p
        g.scan false rest p
      | _ =>
        match p.pending with
        | some { name, apply, value := none } =>
          g.scan false rest { p with pending := some { name, apply, value := some a } }
        | _ => .error (g.stray false a)

end Grammar

end EmulatorOutput.CommandLine
