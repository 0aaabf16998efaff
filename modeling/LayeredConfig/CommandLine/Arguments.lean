import LayeredConfig.Resolution

/-!
# Command lines

The commands of the program and the reading of their arguments. Options may stand among the files, long
or short, with their values attached or behind them; nothing may be given twice, and everything behind
two hyphens is no option. In `get` the last argument before an option or the end is the path.

`Command.ofArguments` reads a whole command line.
-/

namespace LayeredConfig.CommandLine

/-- What a command line asks for. -/
inductive Command where
  /-- Write the merged configuration. -/
  | dump (files : List String) (resolution? : Option UnresolvedPolicy) (showSecrets : Bool)
    (format : String) (output? : Option String)
  /-- Write what is at a path. -/
  | get (files : List String) (path : String) (resolve : Bool) (format : String)
    (default? : Option String)
  /-- Write all values with their paths. -/
  | flat (files : List String) (resolve : Bool)
  /-- Say for each file whether it holds a configuration. -/
  | check (files : List String)
deriving DecidableEq, Repr

/-- The names of the commands. -/
inductive Verb where
  | dump
  | get
  | flat
  | check
deriving DecidableEq, Repr

/-- The pages of the help. -/
inductive Page where
  /-- About the program as a whole. -/
  | program
  | command (v : Verb)
  /-- About the help itself. -/
  | help
deriving DecidableEq, Repr

/-- Why a command line asks for no command. -/
inductive Stop where
  /-- The arguments are wrong. -/
  | usage
  /-- It asks for a page of the help. -/
  | help (page : Page)
  /-- It asks for the version. -/
  | version
deriving DecidableEq, Repr

/-- The options of the commands. -/
inductive Switch where
  | resolve
  | skipUnresolved
  | showSecrets
  | format
  | output
  | default
deriving DecidableEq, Repr

namespace Verb

/-- All commands, in the order of the help. -/
def all : List Verb := [.dump, .get, .flat, .check]

/-- The name of a command. -/
def name : Verb → String
  | .dump => "dump"
  | .get => "get"
  | .flat => "flat"
  | .check => "check"

/-- The verb with a name. -/
def ofName? (name : String) : Option Verb :=
  all.find? (·.name == name)

/-- The format that a command writes unless another one is asked for. -/
def defaultFormat : Verb → String
  | .get => "text"
  | _ => "yaml"

/-- The options of a command. -/
def switches : Verb → List Switch
  | .dump => [.resolve, .skipUnresolved, .showSecrets, .format, .output]
  | .get => [.resolve, .format, .default]
  | .flat => [.resolve]
  | .check => []

end Verb

namespace Switch

/-- The name of an option. -/
def name : Switch → String
  | .resolve => "resolve"
  | .skipUnresolved => "skip-unresolved"
  | .showSecrets => "show-secrets"
  | .format => "format"
  | .output => "output"
  | .default => "default"

/-- The letter of an option. -/
def letter? : Switch → Option Char
  | .resolve => some 'r'
  | .format => some 'f'
  | .output => some 'o'
  | .default => some 'd'
  | .skipUnresolved | .showSecrets => none

/-- Has the option a value? -/
def takesValue : Switch → Bool
  | .format | .output | .default => true
  | .resolve | .skipUnresolved | .showSecrets => false

/-- Names of files may not be empty. -/
def accepts (s : Switch) (value : String) : Bool :=
  s ≠ .output || !value.isEmpty

end Switch

/-- What the arguments of a command have given so far. -/
structure Given where
  /-- The options with their values. One that has no value has an empty one here. -/
  switches : List (Switch × String)
  files : List String
  path? : Option String

namespace Given

/-- The value of an option, if it was given. -/
def value? (g : Given) (s : Switch) : Option String :=
  g.switches.lookup s

/-- Was the option given? -/
def has (g : Given) (s : Switch) : Bool :=
  (g.value? s).isSome

/-- Adds an option, which may be given once. -/
def add (g : Given) (s : Switch) (value : String) : Except Stop Given :=
  if g.has s || !s.accepts value then .error .usage
  else .ok { g with switches := (s, value) :: g.switches }

/-- Adds a name of a file. -/
def addFile (g : Given) (name : String) : Except Stop Given :=
  if name.isEmpty then .error .usage else .ok { g with files := g.files ++ [name] }

end Given

/-- An argument by its form. -/
inductive Form where
  /-- What follows are no options. -/
  | separator
  | long (name : String) (value? : Option String)
  | short (letters : List Char)
  | plain
deriving DecidableEq, Repr

/-- The form of an argument. One hyphen alone is no option. -/
def Form.of (argument : String) : Form :=
  match argument.toList with
  | ['-', '-'] => .separator
  | '-' :: '-' :: rest =>
    let name := rest.takeWhile (· ≠ '=')
    match rest.dropWhile (· ≠ '=') with
    | [] => .long (String.ofList name) none
    | _ :: value => .long (String.ofList name) (some (String.ofList value))
  | '-' :: c :: rest => .short (c :: rest)
  | _ => .plain

/-- Takes options of one letter. The rest behind an option with a value is the value; the result names
the option if its value is still to come. -/
def takeLetters (v : Verb) (g : Given) : List Char → Except Stop (Given × Option Switch)
  | [] => .ok (g, none)
  | c :: rest =>
    match v.switches.find? (·.letter? == some c) with
    | none => .error (if c == 'h' then .help (.command v) else .usage)
    | some s =>
      if !s.takesValue then do takeLetters v (← g.add s "") rest
      else match rest with
        | [] => .ok (g, some s)
        | '=' :: value | value => do return (← g.add s (String.ofList value), none)

/-- Takes an option by its name. The result names the option if its value is still to come. -/
def takeLong (v : Verb) (g : Given) (name : String) (value? : Option String) :
    Except Stop (Given × Option Switch) :=
  match v.switches.find? (·.name == name), value? with
  | none, none => .error (if name = "help" then .help (.command v) else .usage)
  | none, some _ => .error .usage
  | some s, none => if s.takesValue then .ok (g, some s) else do return (← g.add s "", none)
  | some s, some value =>
    if s.takesValue then do return (← g.add s value, none) else .error .usage

/-- Does the argument look like an option? -/
def Form.isOption : Form → Bool
  | .long _ _ | .short _ => true
  | .separator | .plain => false

/-- Takes a file or a path, in front of the argument `next?`. -/
def takePlain (v : Verb) (g : Given) (argument : String) (next? : Option String) :
    Except Stop Given :=
  if v ≠ .get then g.addFile argument
  else if g.path?.isSome then .error .usage
  else if next?.all fun next => (Form.of next).isOption then .ok { g with path? := some argument }
  else g.addFile argument

/-- Reads the arguments of a command. The value of the option `awaited?` comes next. Once the arguments
are `separated`, there are no options among them. -/
def readArguments (v : Verb) (g : Given) (awaited? : Option Switch) (separated : Bool) :
    List String → Except Stop Given
  | [] => if awaited?.isSome then .error .usage else .ok g
  | argument :: rest =>
    match if separated then .plain else Form.of argument, awaited? with
    | .plain, some s => do readArguments v (← g.add s argument) none separated rest
    | .plain, none => do readArguments v (← takePlain v g argument rest.head?) none separated rest
    | _, some _ => .error .usage
    | .separator, none => readArguments v g none true rest
    | .short letters, none => do
      let (g, awaited?) ← takeLetters v g letters
      readArguments v g awaited? separated rest
    | .long name value?, none => do
      let (g, awaited?) ← takeLong v g name value?
      readArguments v g awaited? separated rest

/-- The command that was given. At least one file is needed, and unresolved expressions can be skipped
only where expressions are resolved. -/
def Given.command (g : Given) (v : Verb) : Except Stop Command :=
  let resolve := g.has .resolve
  let format := (g.value? .format).getD v.defaultFormat
  if g.files.isEmpty || (g.has .skipUnresolved && !resolve) then .error .usage
  else match v with
    | .dump =>
      let policy := if g.has .skipUnresolved then .unwrap else .fail
      .ok (.dump g.files (if resolve then some policy else none) (g.has .showSecrets)
        format (g.value? .output))
    | .get =>
      match g.path? with
      | some path => .ok (.get g.files path resolve format (g.value? .default))
      | none => .error .usage
    | .flat => .ok (.flat g.files resolve)
    | .check => .ok (.check g.files)

/-- The page of the help that the arguments behind the command `help` name. -/
def Page.ofNames? : List String → Option Page
  | [] => some .program
  | [name] => if name = "help" then some .help else (Verb.ofName? name).map .command
  | _ => none

/-- Reads a whole command line. -/
def Command.ofArguments (arguments : List String) : Except Stop Command :=
  match arguments with
  | [] => .error .usage
  | first :: rest =>
    match Form.of first with
    | .plain =>
      match Verb.ofName? first with
      | some v => do (← readArguments v ⟨[], [], none⟩ none false rest).command v
      | none => .error (if first = "help" then (Page.ofNames? rest).elim .usage .help else .usage)
    | .short ('V' :: _) => .error .version
    | .short ('h' :: _) => .error (.help .program)
    | .long "version" none => .error .version
    | .long "help" none => .error (.help .program)
    | _ => .error .usage

end LayeredConfig.CommandLine
