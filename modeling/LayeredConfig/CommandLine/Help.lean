import LayeredConfig.CommandLine.Arguments

/-!
# Help

The pages of the help. A page says what the program or a command is for, how it is called, and in tables
with aligned columns what can be given. The rows come from the commands and their options, so a page
lists what the reader of arguments accepts.
-/

namespace LayeredConfig.CommandLine

/-! ## Rows -/

/-- A row of a table: what can be given, and what it is for. -/
structure Row where
  label : String
  about : String

/-- The texts of the rows, with all descriptions in one column. -/
def Row.texts (rows : List Row) : List String :=
  let width := (rows.map (·.label.length)).foldl max 0
  rows.map fun row =>
    "  " ++ String.ofList (row.label.toList.rightpad width ' ') ++ "  " ++ row.about ++ "\n"

/-- What a command is for. -/
def Verb.about : Verb → String
  | .dump => "Export the merged configuration"
  | .get => "Get a specific value from the configuration"
  | .flat => "Print every value as a `path = value` line, secrets redacted"
  | .check => "Check that files parse into a configuration tree"

/-- What the help is for. -/
def helpAbout : String :=
  "Print this message or the help of the given subcommand(s)"

/-- A note about a value that is used where none is given. -/
def defaultNote (value : String) : String :=
  " [default: " ++ value ++ "]"

namespace Switch

/-- How an option is given. -/
def label (s : Switch) : String :=
  (s.letter?.elim "    " fun letter => String.ofList ['-', letter, ',', ' ']) ++ "--" ++ s.name ++
    (if s.takesValue then " <" ++ s.name.toUpper ++ ">" else "")

/-- What an option of a command is for. -/
def about (v : Verb) : Switch → String
  | .resolve => "Resolve $\x7b...\x7d expressions"
  | .skipUnresolved => "Keep unresolvable expressions as text instead of failing"
  | .showSecrets => "Don't redact secret values (use with caution)"
  | .format =>
    let formats := match v with
      | .get => "text, json, yaml"
      | _ => "yaml, json"
    "Output format: " ++ formats ++ defaultNote v.defaultFormat
  | .output => "Write to file instead of stdout"
  | .default => "Default value if key not found"

end Switch

/-! ## Pages -/

namespace Page

/-- The arguments of a command that are no options. -/
def arguments (v : Verb) : List Row :=
  let files := "Configuration file(s)" ++ match v with
    | .dump => ", later files override earlier ones"
    | .check => " to check"
    | _ => ""
  ⟨"<FILES>...", files⟩ ::
    (if v = .get then [⟨"<PATH>", "Path to the value (e.g., database.host or servers[0].port)"⟩] else [])

/-- The row of the option that asks for a page. -/
def helpRow : Row := ⟨"-h, --help", "Print help"⟩

/-- What a page is about. -/
def about : Page → String
  | .program => "Command-line interface for treeconf configuration trees"
  | .command v => v.about
  | .help => helpAbout

/-- How the subject of a page is called. -/
def usage : Page → String
  | .program => "treeconf <COMMAND>"
  | .command v =>
    " ".intercalate (["treeconf", v.name] ++ (if v.switches.isEmpty then [] else ["[OPTIONS]"]) ++
      (arguments v).map Row.label)
  | .help => "treeconf help [COMMAND]..."

/-- The tables of a page, under their titles. -/
def tables : Page → List (String × List Row)
  | .program =>
    [("Commands", Verb.all.map (fun v => ⟨v.name, v.about⟩) ++ [⟨"help", helpAbout⟩]),
      ("Options", [helpRow, ⟨"-V, --version", "Print version"⟩])]
  | .command v =>
    [("Arguments", arguments v),
      ("Options", v.switches.map (fun s => ⟨s.label, s.about v⟩) ++ [helpRow])]
  | .help => [("Arguments", [⟨"[COMMAND]...", "Print help for the subcommand(s)"⟩])]

/-- The line that says how the subject of a page is called. -/
def usageLine (p : Page) : String :=
  "Usage: " ++ p.usage ++ "\n"

/-- The text of a page. -/
def text (p : Page) : String :=
  p.about ++ "\n\n" ++ p.usageLine ++
    String.join (p.tables.map fun (title, rows) =>
      "\n" ++ title ++ ":\n" ++ String.join (Row.texts rows))

end Page

end LayeredConfig.CommandLine
