import StackMachine.Journal

namespace StackMachine.CommandLine

inductive ValueKind where
  | path
  | level
  | count
  deriving Repr, DecidableEq

def ValueKind.accepts (kind : ValueKind) (value : String) : Bool :=
  match kind with
  | path => !value.isEmpty
  | level => (Journal.Level.ofText? value).isSome
  | count => (Text.count? value.toList).isSome

/-- What comes of an option. -/
inductive OptionKind where
  | value (kind : ValueKind)
  | flag
  /-- It asks for an explanation, and the rest of the command line does not matter. -/
  | help
  | version
  deriving Repr, DecidableEq

structure OptionSpec where
  /-- The long name, without its dashes. -/
  name : String
  short : Option Char
  kind : OptionKind
  deriving Repr, DecidableEq

/-- What a tool takes: its options, and as many paths as it has names for. -/
structure Interface where
  options : List OptionSpec
  positionals : List String
  deriving Repr, DecidableEq

/-- The arguments of an accepted command line. -/
structure Arguments where
  /-- The options that were given, with their values; a flag has an empty one. -/
  options : List (String × String)
  positionals : List String
  deriving Repr, DecidableEq

namespace Arguments

def value? (a : Arguments) (name : String) : Option String :=
  a.options.lookup name

def has (a : Arguments) (name : String) : Bool :=
  (a.value? name).isSome

def positional? (a : Arguments) (index : Nat) : Option String :=
  a.positionals[index]?

end Arguments

/-- What a command line comes to. -/
inductive Reading where
  | accepted (arguments : Arguments)
  | rejected
  | help
  | version
  deriving Repr, DecidableEq

/-- The characters of an option's value; an equals sign before it does not belong to it. -/
def attached : List Char → List Char
  | '=' :: value => value
  | value => value

/-- An argument that is read as options. -/
inductive Written where
  /-- A long option with the value written to it, if any. -/
  | long (name : List Char) (value : Option (List Char))
  /-- Short options in a row, the last of which may have a value written to it. -/
  | short (letters : List Char)
  /-- The two dashes alone. -/
  | separator
  | plain
  deriving Repr, DecidableEq

/-- How an argument is written. A single dash is not an option. -/
def Written.ofText : List Char → Written
  | ['-', '-'] => separator
  | '-' :: '-' :: text =>
    let name := text.takeWhile (· != '=')
    match text.dropWhile (· != '=') with
    | [] => long name none
    | _ :: value => long name (some value)
  | ['-'] => plain
  | '-' :: letters => short letters
  | _ => plain

namespace Interface

def long? (spec : Interface) (name : List Char) : Option OptionSpec :=
  spec.options.find? fun o => o.name.toList == name

def short? (spec : Interface) (letter : Char) : Option OptionSpec :=
  spec.options.find? fun o => o.short == some letter

def give (a : Arguments) (o : OptionSpec) (value : String) : Option Arguments :=
  if a.has o.name then none
  else some { a with options := a.options ++ [(o.name, value)] }

def giveValue (a : Arguments) (o : OptionSpec) (kind : ValueKind) (value : String) :
    Option Arguments :=
  if kind.accepts value then give a o value else none

def givePath (spec : Interface) (a : Arguments) (value : String) : Option Arguments :=
  if ValueKind.path.accepts value ∧ a.positionals.length < spec.positionals.length then
    some { a with positionals := a.positionals ++ [value] }
  else none

/-- The result of an argument, so far. -/
inductive Progress where
  | done (arguments : Arguments)
  /-- The next argument is the value of an option. -/
  | waiting (option : OptionSpec) (kind : ValueKind) (arguments : Arguments)
  | ended (reading : Reading)

def Progress.ofArguments : Option Arguments → Progress
  | some arguments => done arguments
  | none => ended .rejected

def takeLong (spec : Interface) (a : Arguments) (name : List Char) (value : Option (List Char)) :
    Progress :=
  match spec.long? name with
  | none => .ended .rejected
  | some o =>
    match o.kind, value with
    | .value kind, some value => .ofArguments (giveValue a o kind (String.ofList value))
    | .value kind, none => .waiting o kind a
    | .flag, none => .ofArguments (give a o "")
    | .help, none => .ended .help
    | .version, none => .ended .version
    | _, some _ => .ended .rejected

def takeShort (spec : Interface) : Arguments → List Char → Progress
  | a, [] => .done a
  | a, letter :: rest =>
    match spec.short? letter with
    | none => .ended .rejected
    | some o =>
      match o.kind with
      | .value kind =>
        if rest.isEmpty then .waiting o kind a
        else .ofArguments (giveValue a o kind (String.ofList (attached rest)))
      | .flag =>
        match give a o "" with
        | some a => takeShort spec a rest
        | none => .ended .rejected
      | .help => .ended .help
      | .version => .ended .version

def readPaths (spec : Interface) : Arguments → List String → Reading
  | a, [] => .accepted a
  | a, value :: rest =>
    match spec.givePath a value with
    | some a => readPaths spec a rest
    | none => .rejected

/-- Takes in arguments, the first of them as the value of an option that waits for it. -/
def readFrom (spec : Interface) : Arguments → Option (OptionSpec × ValueKind) → List String →
    Reading
  | a, none, [] => .accepted a
  | _, some _, [] => .rejected
  | a, some (o, kind), value :: rest =>
    match Written.ofText value.toList with
    | .plain =>
      match giveValue a o kind value with
      | some a => readFrom spec a none rest
      | none => .rejected
    | _ => .rejected
  | a, none, argument :: rest =>
    let progress : Option Progress := match Written.ofText argument.toList with
      | .separator => none
      | .plain => some (.ofArguments (spec.givePath a argument))
      | .long name value => some (spec.takeLong a name value)
      | .short letters => some (spec.takeShort a letters)
    match progress with
    | none => readPaths spec a rest
    | some (.done a) => readFrom spec a none rest
    | some (.waiting o kind a) => readFrom spec a (some (o, kind)) rest
    | some (.ended reading) => reading

/-- Reads a command line with options and paths in any order. No option may be given twice, and one
that needs a value does not take an argument that looks like an option. -/
def read (spec : Interface) (arguments : List String) : Reading :=
  readFrom spec ⟨[], []⟩ none arguments

end Interface

end StackMachine.CommandLine
