import LayeredConfig.CommandLine.Directory
import LayeredConfig.CommandLine.Help
import LayeredConfig.Config.Edit
import LayeredConfig.Config.Export
import LayeredConfig.Config.Read

/-!
# The commands

What the program writes and how it ends, as a function of the file system and the command line. The
files of a command are layers, of which later ones mask earlier ones. Files that cannot be read or
written end a command with code 2, everything else that goes wrong with code 1.
-/

namespace LayeredConfig.CommandLine

/-- How a run ends. -/
structure Outcome where
  code : Nat
  stdout : String
  stderr : String
  /-- The file that is written, with its text. -/
  written? : Option (String × String)

namespace Outcome

/-- A run that writes a text and succeeds. -/
def success (stdout : String) : Outcome :=
  ⟨0, stdout, "", none⟩

/-- A run that fails with a message. -/
def failure (code : Nat) (message : String) : Outcome :=
  ⟨code, "", message ++ "\n", none⟩

/-- A run that fails because of an error. -/
def error (e : Error) : Outcome :=
  failure 1 ("Error: " ++ e.message)

end Outcome

/-! ## Files -/

/-- The part of a name behind the last point, if another part is in front of it. -/
def extension? (name : String) : Option String :=
  match (Text.fields '.' name.toList).reverse with
  | extension :: before :: more =>
    if before.isEmpty && more.isEmpty then none else some (String.ofList extension)
  | _ => none

/-- Is it the name of a JSON file? All others are YAML files. -/
def isJson (file : String) : Bool :=
  (Directory.names file).getLast?.bind extension? == some "json"

/-- The configuration of a file. -/
def loadFile (fs : FileSystem) (file : String) : Except String Config :=
  match fs.read file with
  | .error fault => .error ("Failed to read " ++ file ++ ": " ++ fault.message)
  | .ok text =>
    (if isJson file then Config.ofJson text else Config.ofYaml text).mapError fun e =>
      "Failed to load " ++ file ++ ": " ++ e.message

/-- The merged configuration of files. Values of later files mask those of earlier ones. -/
def loadFiles (fs : FileSystem) (files : List String) : Except String Config := do
  match ← files.mapM (loadFile fs) with
  | [] => throw "No configuration files specified"
  | first :: rest => return rest.foldl Config.withValues first

/-- Resolves the expressions of a configuration, if that is wanted. -/
def resolved (c : Config) : Option UnresolvedPolicy → Result Config
  | none => .ok c
  | some policy => c.resolve .empty policy

/-! ## Texts -/

/-- The text of a node in a format. Without a known format, a scalar is its bare text. -/
def render (n : Node) (format : String) : String :=
  if format = "json" then n.toJson.pretty ++ "\n"
  else if format = "yaml" || format = "yml" then n.yaml
  else match n with
    | .leaf s => s.display ++ "\n"
    | n => n.yaml

/-- A line for each value, with its path. -/
def renderFlat (c : Config) : String :=
  String.join (c.entries.map fun (p, s) => p.text ++ " = " ++ s.display ++ "\n")

/-- The document of a configuration in a format. -/
def document (c : Config) (format : String) (showSecrets : Bool) : String :=
  let c := if showSecrets then c else c.hideSecrets
  if format = "json" then c.toJsonWithSecrets else c.toYamlWithSecrets

/-- The line about a file that holds a configuration. -/
def validLine (file : String) (c : Config) : String :=
  let format := if isJson file then "JSON" else "YAML"
  "✓ " ++ file ++ ": valid " ++ format ++ " (" ++ toString c.entries.length ++ " values)\n"

/-- The line about a file that holds none. -/
def invalidLine (fault : String) : String :=
  "✗ " ++ fault ++ "\n"

/-- The name and the version of the program. -/
def versionText : String :=
  "treeconf 0.3.0\n"

/-! ## Commands -/

/-- Goes on with the merged configuration of files after resolution. -/
def withConfig (fs : FileSystem) (files : List String) (policy? : Option UnresolvedPolicy)
    (go : Config → Outcome) : Outcome :=
  match loadFiles fs files with
  | .error fault => .failure 2 fault
  | .ok c =>
    match resolved c policy? with
    | .error e => .error e
    | .ok c => go c

/-- Writes a text to a file. -/
def writeFile (fs : FileSystem) (file text : String) : Outcome :=
  let note := "✓ Wrote to " ++ file ++ "\n"
  match fs.sink file with
  | .error fault => .failure 2 ("Error writing file: " ++ fault.message)
  | .ok .file => ⟨0, "", note, some (file, text)⟩
  | .ok .stdout => ⟨0, text, note, none⟩
  | .ok .stderr => ⟨0, "", text ++ note, none⟩
  | .ok .nothing => ⟨0, "", note, none⟩

/-- Writes what is at a path of a configuration, or the default if nothing is there. -/
def showPath (path format : String) (default? : Option String) (c : Config) : Outcome :=
  match c.node? path, default? with
  | .ok (some (_, n)), _ => .success (render n format)
  | .ok none, some default => .success (default ++ "\n")
  | .ok none, none => .failure 1 ("Error: Path '" ++ path ++ "' not found")
  | .error e, _ => .error e

/-- Says for each file whether it holds a configuration. -/
def checkFiles (fs : FileSystem) (files : List String) : Outcome :=
  let results := files.map fun file => (file, loadFile fs file)
  let line? (valid : Bool) : String × Except String Config → Option String
    | (file, .ok c) => if valid then some (validLine file c) else none
    | (_, .error fault) => if valid then none else some (invalidLine fault)
  let faults := results.filterMap (line? false)
  { code := if faults.isEmpty then 0 else 1
    stdout := String.join (results.filterMap (line? true))
    stderr := String.join faults
    written? := none }

namespace Command

/-- Runs a command. -/
def run (fs : FileSystem) : Command → Outcome
  | .dump files resolution? showSecrets format output? =>
    withConfig fs files resolution? fun c =>
      let text := document c format showSecrets
      match output? with
      | some file => writeFile fs file text
      | none => .success text
  | .get files path resolve format default? =>
    withConfig fs files (if resolve then some .fail else none) (showPath path format default?)
  | .flat files resolve =>
    withConfig fs files (if resolve then some .unwrap else none) fun c =>
      .success (renderFlat c.hideSecrets)
  | .check files => checkFiles fs files

/-- The files that a command reads. -/
def files : Command → List String
  | .dump files _ _ _ _ | .get files _ _ _ _ | .flat files _ | .check files => files

end Command

/-- What happens without a command. -/
def Stop.outcome : Stop → Outcome
  | .usage => .failure 2 (Page.usageLine .program)
  | .help page => .success page.text
  | .version => .success versionText

/-- Runs a command line. -/
def run (fs : FileSystem) (arguments : List String) : Outcome :=
  match Command.ofArguments arguments with
  | .ok command => command.run fs
  | .error stop => stop.outcome

end LayeredConfig.CommandLine
