import LayeredConfig.Proofs.CommandLine.Files
import LayeredConfig.Proofs.Config.Reading
import LayeredConfig.Proofs.Path.NormalForm
import LayeredConfig.Proofs.Resolution.Preparation

/-!
# How runs end

A command that needs a configuration reads all its files, merges them, resolves the expressions if that is
asked for, and only then goes on with its own work. `Ends` says how such a run ends: with code 2 and the
message about the first file that is refused, with code 1 if the resolution fails, and as its own work ends
otherwise. It holds whatever that work is (`withConfig_ends`), so each command only adds what it writes
itself: `Dumped` says what the document of `dump` is, and `Rendered` what the text of `get` is.

`run_outcomes` says for every command line that is accepted how the run ends. For `get` the kind of an error
tells by itself whether the default is asked for (`run_get_eq_showByKind`), as no step before can fail with
a missing value.
-/

namespace LayeredConfig.CommandLine

/-! ## What a command line asks for -/

namespace Given

variable {g : Given} {v : Verb} {command : Command}

/-- What is done with expressions that cannot be resolved, if expressions are to be resolved at all. -/
def policy? (g : Given) (v : Verb) : Option UnresolvedPolicy :=
  if g.has .resolve then
    some <| match v with
      | .dump => if g.has .skipUnresolved then .unwrap else .fail
      | .flat => .unwrap
      | .get | .check => .fail
  else none

/-- The format that is asked for. Otherwise `get` writes bare text, and all others write YAML. -/
def format (g : Given) (v : Verb) : String :=
  (g.value? .format).getD (if v = .get then "text" else "yaml")

/-- What a command does is what its options say, and it has files. -/
theorem command_eq_ok (accepted : g.command v = .ok command) : g.files ≠ [] ∧
    match v with
    | .dump => command = .dump g.files (g.policy? .dump) (g.has .showSecrets) (g.format .dump)
        (g.value? .output)
    | .get => ∃ path, g.path? = some path ∧
        command = .get g.files path (g.has .resolve) (g.format .get) (g.value? .default)
    | .flat => command = .flat g.files (g.has .resolve)
    | .check => command = .check g.files := by
  unfold Given.command at accepted
  dsimp only at accepted
  split at accepted
  · cases accepted
  next given =>
    have files : g.files ≠ [] := by
      intro none
      simp [none] at given
    refine ⟨files, ?_⟩
    cases v with
    | dump =>
      cases accepted
      rfl
    | get =>
      cases named : g.path? with
      | none =>
        rw [named] at accepted
        cases accepted
      | some path =>
        rw [named] at accepted
        cases accepted
        exact ⟨path, rfl, rfl⟩
    | flat =>
      cases accepted
      rfl
    | check =>
      cases accepted
      rfl

end Given

/-- The arguments of a command that is accepted are its name and what it reads behind it. -/
theorem Command.ofArguments_eq_ok {arguments : List String} {command : Command}
    (accepted : Command.ofArguments arguments = .ok command) : ∃ (v : Verb) (rest : List String) (g : Given),
      arguments = v.name :: rest ∧ readArguments v ⟨[], [], none⟩ none false rest = .ok g ∧
      g.command v = .ok command := by
  unfold ofArguments at accepted
  split at accepted
  · cases accepted
  next first rest =>
    split at accepted
    · split at accepted
      next v named =>
        obtain ⟨g, read, made⟩ := bind_eq_ok.mp accepted
        have name : v.name = first := by simpa using List.find?_some named
        exact ⟨v, rest, g, by rw [name], read, made⟩
      · cases accepted
    all_goals cases accepted

/-! ## Runs that need a configuration -/

section Runs

variable {fs : FileSystem} {files : List String} {c m : Config} {policy? : Option UnresolvedPolicy}
  {go : Config → Outcome}

/-- The run succeeds and writes nothing but a text. -/
def Outcome.Prints (outcome : Outcome) (text : String) : Prop :=
  outcome = ⟨0, text, "", none⟩

/-- The run fails with a code and writes nothing but a message. -/
def Outcome.Fails (outcome : Outcome) (code : Nat) (message : String) : Prop :=
  outcome = ⟨code, "", message ++ "\n", none⟩

/-- What the resolution of a configuration gives. It is left as it is if none is asked for; otherwise its
expressions see no values but its own. -/
inductive Resolves (m : Config) : Option UnresolvedPolicy → Result Config → Prop
  | unasked : Resolves m none (.ok m)
  | asked (policy : UnresolvedPolicy) : Resolves m (some policy) (m.resolve .empty policy)

theorem resolved_eq_iff {result : Result Config} : resolved m policy? = result ↔ Resolves m policy? result := by
  constructor
  · rintro rfl
    cases policy? with
    | none => exact .unasked
    | some policy => exact .asked policy
  · rintro (_ | policy)
    · rfl
    · rfl

/-- How a run ends that needs the configuration of files. What is `shown` of the configuration is left to
the command. -/
structure Ends (fs : FileSystem) (files : List String) (policy? : Option UnresolvedPolicy)
    (outcome : Outcome) (shown : Config → Prop) : Prop where
  /-- The files are merged unless one of them is refused. -/
  loads : (∃ m, Merges fs files m) ↔ ¬ Refused fs files
  refused : Refused fs files → ∃ message, FirstRefused fs files message ∧ outcome.Fails 2 message
  unresolved : ∀ m e, Merges fs files m → Resolves m policy? (.error e) →
    outcome.Fails 1 ("Error: " ++ e.message)
  goes_on : ∀ m c, Merges fs files m → Resolves m policy? (.ok c) → shown c

theorem Ends.imp {outcome : Outcome} {shown shown' : Config → Prop}
    (ends : Ends fs files policy? outcome shown) (weaker : ∀ c, shown c → shown' c) :
    Ends fs files policy? outcome shown' :=
  { ends with goes_on := fun m c merges done => weaker c (ends.goes_on m c merges done) }

theorem withConfig_of_refused (given : files ≠ []) (refused : Refused fs files) :
    ∃ message, FirstRefused fs files message ∧ (withConfig fs files policy? go).Fails 2 message := by
  obtain ⟨message, first⟩ := (exists_firstRefused_iff given).mpr refused
  refine ⟨message, first, ?_⟩
  rw [withConfig, (loadFiles_eq_error_iff given).mpr first]
  rfl

theorem withConfig_of_error {e : Error} (merges : Merges fs files m)
    (failed : Resolves m policy? (.error e)) : withConfig fs files policy? go = .error e := by
  simp only [withConfig, loadFiles_eq_ok_iff.mpr merges, resolved_eq_iff.mpr failed]

theorem withConfig_of_ok (merges : Merges fs files m) (done : Resolves m policy? (.ok c)) :
    withConfig fs files policy? go = go c := by
  simp only [withConfig, loadFiles_eq_ok_iff.mpr merges, resolved_eq_iff.mpr done]

theorem withConfig_ends (given : files ≠ []) (policy? : Option UnresolvedPolicy) (go : Config → Outcome) :
    Ends fs files policy? (withConfig fs files policy? go) fun c =>
      withConfig fs files policy? go = go c where
  loads := exists_merges_iff given
  refused := withConfig_of_refused given
  unresolved m e merges failed := by
    rw [withConfig_of_error merges failed]
    rfl
  goes_on m c merges done := withConfig_of_ok merges done

/-- Apart from files that are refused, code 2 can only come from what the command does itself. -/
theorem withConfig_code_eq_two_iff (given : files ≠ []) :
    (withConfig fs files policy? go).code = 2 ↔ Refused fs files ∨
      ∃ m c, Merges fs files m ∧ Resolves m policy? (.ok c) ∧ (go c).code = 2 := by
  constructor
  · intro two
    by_cases refused : Refused fs files
    · exact .inl refused
    · obtain ⟨m, merges⟩ := (exists_merges_iff given).mpr refused
      cases done : resolved m policy? with
      | error e =>
        rw [withConfig_of_error merges (resolved_eq_iff.mp done)] at two
        cases two
      | ok c =>
        rw [withConfig_of_ok merges (resolved_eq_iff.mp done)] at two
        exact .inr ⟨m, c, merges, resolved_eq_iff.mp done, two⟩
  · rintro (refused | ⟨m, c, merges, done, two⟩)
    · obtain ⟨message, -, fails⟩ : ∃ message, FirstRefused fs files message ∧
          (withConfig fs files policy? go).Fails 2 message := withConfig_of_refused given refused
      rw [fails]
    · rw [withConfig_of_ok merges done]
      exact two

/-- A command that does not end with code 2 itself does so for files that are refused only. -/
theorem withConfig_code_eq_two_iff_refused (given : files ≠ []) (other : ∀ c, (go c).code ≠ 2) :
    (withConfig fs files policy? go).code = 2 ↔ Refused fs files := by
  rw [withConfig_code_eq_two_iff given]
  constructor
  · rintro (refused | ⟨_, c, -, -, two⟩)
    · exact refused
    · exact absurd two (other c)
  · exact .inl

end Runs

/-! ### Documents -/

/-- The document of a configuration in a format. All formats but one are YAML, and secrets are hidden unless
they are asked for. -/
inductive Dumped (c : Config) : String → Bool → String → Prop
  | json : Dumped c "json" false c.toJson
  | jsonWithSecrets : Dumped c "json" true c.toJsonWithSecrets
  | yaml {format : String} (other : format ≠ "json") : Dumped c format false c.toYaml
  | yamlWithSecrets {format : String} (other : format ≠ "json") : Dumped c format true c.toYamlWithSecrets

theorem dumped_document (c : Config) (format : String) (showSecrets : Bool) :
    Dumped c format showSecrets (document c format showSecrets) := by
  rw [document]
  by_cases json : format = "json"
  · subst json
    cases showSecrets with
    | true => exact .jsonWithSecrets
    | false => exact .json
  · rw [if_neg json]
    cases showSecrets with
    | true => exact .yamlWithSecrets json
    | false => exact .yaml json

/-- How a run ends that writes a text: on the standard output unless there is a file for it. -/
def Writes (fs : FileSystem) (output? : Option String) (text : String) (outcome : Outcome) : Prop :=
  match output? with
  | none => outcome.Prints text
  | some file => match fs.sink file with
    | .error fault => outcome.Fails 2 ("Error writing file: " ++ fault.message)
    | .ok sink => outcome.code = 0 ∧
      (sink = .file → outcome.stdout = "" ∧ outcome.written? = some (file, text))

theorem writes_writeFile (fs : FileSystem) (file text : String) :
    Writes fs (some file) text (writeFile fs file text) := by
  rw [Writes, writeFile]
  cases fs.sink file with
  | error fault => rfl
  | ok sink => cases sink <;> simp

theorem Writes.code_eq_two_iff {fs : FileSystem} {output? : Option String} {text : String} {outcome : Outcome}
    (writes : Writes fs output? text outcome) :
    outcome.code = 2 ↔ ∃ file fault, output? = some file ∧ fs.sink file = .error fault := by
  cases output? with
  | none =>
    rw [show outcome = _ from writes]
    exact iff_of_false nofun nofun
  | some file =>
    rw [Writes] at writes
    cases sink : fs.sink file with
    | error fault =>
      rw [sink] at writes
      rw [show outcome = _ from writes]
      exact iff_of_true rfl ⟨file, fault, rfl, sink⟩
    | ok goal =>
      rw [sink] at writes
      refine iff_of_false (by rw [writes.1]; nofun) ?_
      rintro ⟨_, fault, ⟨⟩, failed⟩
      cases sink.symm.trans failed

/-! ### What is at a path -/

section Paths

variable {path format : String} {default? : Option String} {c : Config}

/-- The text of a node in a format. In a format that is not known a scalar is its bare text, and all else is
YAML. -/
inductive Rendered (n : Node) : String → String → Prop
  | json : Rendered n "json" (n.toJson.pretty ++ "\n")
  | yaml {format : String} (known : format = "yaml" ∨ format = "yml") : Rendered n format n.yaml
  | scalar {format : String} {s : Scalar} (other : format ∉ ["json", "yaml", "yml"]) (leaf : n = .leaf s) :
    Rendered n format (s.display ++ "\n")
  | container {format : String} (other : format ∉ ["json", "yaml", "yml"]) (inner : ∀ s, n ≠ .leaf s) :
    Rendered n format n.yaml

theorem rendered_render (n : Node) (format : String) : Rendered n format (render n format) := by
  by_cases json : format = "json"
  · subst json
    exact .json
  unfold render
  rw [if_neg json]
  split
  next yaml => exact .yaml (by simpa using yaml)
  next notYaml =>
    have other : format ∉ ["json", "yaml", "yml"] := by simpa [json] using notYaml
    split
    next s => exact .scalar other rfl
    next inner => exact .container other inner

/-- How a run ends that shows what is at a path of a configuration, beside the run without a default. -/
structure ShowsPath (c : Config) (path format : String) (default? : Option String)
    (outcome undefaulted : Outcome) : Prop where
  found : ∀ p n, Path.parse path = .ok p → c.root.get? p = some n →
    ∃ text, Rendered n format text ∧ outcome.Prints text
  default : ∀ p default, Path.parse path = .ok p → c.root.get? p = none → default? = some default →
    outcome.Prints (default ++ "\n")
  missing : ∀ p, Path.parse path = .ok p → c.root.get? p = none → default? = none →
    outcome.Fails 1 ("Error: Path '" ++ path ++ "' not found")
  invalid : ∀ e, Path.parse path = .error e → outcome.Fails 1 ("Error: " ++ e.message)
  /-- The default is what is written, and not by chance what is found, exactly if the path can be parsed,
  nothing is there and there is a default. -/
  default_iff : (∃ default, default? = some default ∧ outcome.Prints (default ++ "\n") ∧
      outcome ≠ undefaulted) ↔
    default?.isSome ∧ ∃ p, Path.parse path = .ok p ∧ c.root.get? p = none

theorem showPath_of_error {e : Error} (invalid : Path.parse path = .error e) :
    showPath path format default? c = .error e := by
  have failed : c.node? path = .error e := bind_eq_error.mpr (.inl invalid)
  unfold showPath
  rw [failed]

theorem showPath_of_ok {p : Path} (parsed : Path.parse path = .ok p) :
    showPath path format default? c = match c.root.get? p, default? with
      | some n, _ => .success (render n format)
      | none, some default => .success (default ++ "\n")
      | none, none => .failure 1 ("Error: Path '" ++ path ++ "' not found") := by
  unfold showPath
  rw [Config.node?_eq parsed]
  cases c.root.get? p <;> cases default? <;> rfl

theorem showPath_default_iff (path format : String) (default? : Option String) (c : Config) :
    (∃ default, default? = some default ∧
      (showPath path format default? c).Prints (default ++ "\n") ∧
      showPath path format default? c ≠ showPath path format none c) ↔
    default?.isSome ∧ ∃ p, Path.parse path = .ok p ∧ c.root.get? p = none := by
  constructor
  · rintro ⟨default, rfl, -, other⟩
    refine ⟨rfl, ?_⟩
    cases parsed : Path.parse path with
    | error e => exact absurd ((showPath_of_error parsed).trans (showPath_of_error parsed).symm) other
    | ok p =>
      refine ⟨p, rfl, ?_⟩
      rw [showPath_of_ok parsed, showPath_of_ok parsed] at other
      cases found : c.root.get? p with
      | none => rfl
      | some n =>
        rw [found] at other
        exact absurd rfl other
  · rintro ⟨given, p, parsed, nothing⟩
    obtain ⟨default, rfl⟩ := Option.isSome_iff_exists.mp given
    rw [showPath_of_ok parsed, showPath_of_ok parsed, nothing]
    exact ⟨default, rfl, rfl, nofun⟩

theorem showsPath_showPath (path format : String) (default? : Option String) (c : Config) :
    ShowsPath c path format default? (showPath path format default? c)
      (showPath path format none c) where
  found p n parsed found := by
    rw [showPath_of_ok parsed, found]
    exact ⟨render n format, rendered_render n format, rfl⟩
  default p default parsed nothing given := by
    rw [showPath_of_ok parsed, nothing, given]
    rfl
  missing p parsed nothing none := by
    rw [showPath_of_ok parsed, nothing, none]
    rfl
  invalid e invalid := by
    rw [showPath_of_error invalid]
    rfl
  default_iff := showPath_default_iff path format default? c

/-- What `get` makes of what it found or of an error, of which it sees the kind only. -/
def showByKind (path format : String) (default? : Option String) : Result (Path × Node) → Outcome
  | .ok (_, n) => .success (render n format)
  | .error e =>
    if e.kind = .missingValue then
      match default? with
      | some default => .success (default ++ "\n")
      | none => .failure 1 ("Error: Path '" ++ path ++ "' not found")
    else .error e

theorem showByKind_error {e : Error} (other : e.kind ≠ .missingValue) :
    showByKind path format default? (.error e) = .error e :=
  if_neg other

theorem showPath_eq_showByKind (path format : String) (default? : Option String) (c : Config) :
    showPath path format default? c =
      showByKind path format default? (c.node? path >>= Config.orMissing path) := by
  cases parsed : Path.parse path with
  | error e =>
    obtain ⟨problem, rfl⟩ := Path.parse_eq_error parsed
    have failed : c.node? path = .error (.invalidPath path problem) := bind_eq_error.mpr (.inl parsed)
    rw [showPath_of_error parsed, failed]
    exact (showByKind_error (by rintro ⟨⟩)).symm
  | ok p =>
    rw [showPath_of_ok parsed, Config.node?_eq parsed]
    cases c.root.get? p with
    | some n => rfl
    | none => cases default? <;> rfl

/-- What goes wrong in a resolution is no value that is missing. -/
theorem kind_of_resolved_error {policy? : Option UnresolvedPolicy} {e : Error}
    (failed : resolved c policy? = .error e) : e.kind ≠ .missingValue := by
  cases policy? with
  | none => cases failed
  | some policy =>
    rcases bind_eq_error.mp failed with failed | ⟨_, _, failed⟩
    · rcases Resolution.prepared_or_error c.root Config.empty.root with
        ⟨parsed, scope, prepared⟩ | ⟨fault, kind, every⟩
      · rw [prepared.kind_of_error failed]
        nofun
      · cases failed.symm.trans (every policy)
        rw [kind]
        nofun
    · cases failed

theorem showPath_code_ne_two (path format : String) (default? : Option String) (c : Config) :
    (showPath path format default? c).code ≠ 2 := by
  unfold showPath
  split <;> nofun

end Paths

/-! ## All commands -/

section Commands

variable {fs : FileSystem} {files : List String}

theorem dump_ends (given : files ≠ []) (policy? : Option UnresolvedPolicy) (showSecrets : Bool)
    (format : String) (output? : Option String) :
    let outcome := (Command.dump files policy? showSecrets format output?).run fs
    Ends fs files policy? outcome (fun c =>
      ∃ text, Dumped c format showSecrets text ∧ Writes fs output? text outcome) ∧
    (outcome.code = 2 ↔ Refused fs files ∨ ∃ m c file fault, Merges fs files m ∧
      Resolves m policy? (.ok c) ∧ output? = some file ∧ fs.sink file = .error fault) := by
  intro outcome
  let go (c : Config) : Outcome :=
    match output? with
    | some file => writeFile fs file (document c format showSecrets)
    | none => .success (document c format showSecrets)
  have writes (c : Config) : Writes fs output? (document c format showSecrets) (go c) := by
    cases output? with
    | none => exact rfl
    | some file => exact writes_writeFile fs file _
  have same : outcome = withConfig fs files policy? go := rfl
  rw [same]
  constructor
  · refine (withConfig_ends given policy? go).imp fun c same => ?_
    rw [same]
    exact ⟨_, dumped_document c format showSecrets, writes c⟩
  · rw [withConfig_code_eq_two_iff given]
    simp only [(writes _).code_eq_two_iff, exists_and_left]

theorem get_ends (given : files ≠ []) (path : String) (resolve : Bool) (format : String)
    (default? : Option String) :
    let outcome := (Command.get files path resolve format default?).run fs
    let undefaulted := (Command.get files path resolve format none).run fs
    Ends fs files (if resolve then some .fail else none) outcome
      (fun c => ShowsPath c path format default? outcome undefaulted) ∧
    (outcome.code = 2 ↔ Refused fs files) := by
  intro outcome undefaulted
  have ends (default? : Option String) :=
    @withConfig_ends fs files given (if resolve then some .fail else none) (showPath path format default?)
  refine ⟨{ ends default? with goes_on := fun m c merges done => ?_ }, ?_⟩
  · -- both runs come to the same configuration, and only then does the default matter
    have here : outcome = showPath path format default? c := (ends default?).goes_on m c merges done
    have beside : undefaulted = showPath path format none c := (ends none).goes_on m c merges done
    rw [here, beside]
    exact showsPath_showPath path format default? c
  · exact withConfig_code_eq_two_iff_refused given (showPath_code_ne_two path format default?)

/-- The kind of the error alone tells when the default is asked for: neither the resolution nor a path that
cannot be parsed is a value that is missing. -/
theorem run_get_eq_showByKind (fs : FileSystem) (files : List String) (path : String) (resolve : Bool)
    (format : String) (default? : Option String) :
    (Command.get files path resolve format default?).run fs = withConfig fs files none fun m =>
      showByKind path format default? (do
        let c ← resolved m (if resolve then some .fail else none)
        Config.orMissing path (← c.node? path)) := by
  rw [Command.run]
  cases loaded : loadFiles fs files with
  | error fault => simp only [withConfig, loaded]
  | ok m =>
    have merges : Merges fs files m := loadFiles_eq_ok_iff.mp loaded
    rw [withConfig_of_ok merges .unasked]
    cases done : resolved m (if resolve then some .fail else none) with
    | error e =>
      rw [withConfig_of_error merges (resolved_eq_iff.mp done)]
      exact (showByKind_error (kind_of_resolved_error done)).symm
    | ok c =>
      rw [withConfig_of_ok merges (resolved_eq_iff.mp done)]
      exact showPath_eq_showByKind path format default? c

theorem flat_ends (given : files ≠ []) (resolve : Bool) :
    let outcome := (Command.flat files resolve).run fs
    Ends fs files (if resolve then some .unwrap else none) outcome
      (fun c => outcome.Prints (String.join
        (c.hideSecrets.entries.map fun (p, s) => p.text ++ " = " ++ s.display ++ "\n"))) ∧
    (outcome.code = 2 ↔ Refused fs files) :=
  ⟨withConfig_ends given _ _, withConfig_code_eq_two_iff_refused given fun _ => nofun⟩

end Commands

/-- How every command line that is accepted ends. The commands that need a configuration end with code 2 if
a file is refused, and otherwise never do, but for `dump` if it cannot write its document; and with code 1
if the resolution fails that the options ask for. After that `dump` writes the document, `flat` all values,
and `get` what is at the path, the default if nothing is there, and nothing if there is no default or the
path cannot be parsed. `check` reports on all files, and its code says whether all of them can be loaded. -/
theorem run_outcomes {arguments : List String} {command : Command}
    (accepted : Command.ofArguments arguments = .ok command) (fs : FileSystem) :
    ∃ (v : Verb) (rest : List String) (g : Given), arguments = v.name :: rest ∧
      readArguments v ⟨[], [], none⟩ none false rest = .ok g ∧ g.command v = .ok command ∧
      let outcome := run fs arguments
      match v with
      | .dump =>
        Ends fs g.files (g.policy? .dump) outcome (fun c => ∃ text,
          Dumped c (g.format .dump) (g.has .showSecrets) text ∧ Writes fs (g.value? .output) text outcome) ∧
        (outcome.code = 2 ↔ Refused fs g.files ∨ ∃ m c file fault, Merges fs g.files m ∧
          Resolves m (g.policy? .dump) (.ok c) ∧ g.value? .output = some file ∧
          fs.sink file = .error fault)
      | .get => ∃ path, g.path? = some path ∧
        Ends fs g.files (g.policy? .get) outcome (fun c =>
          ShowsPath c path (g.format .get) (g.value? .default) outcome
            ((Command.get g.files path (g.has .resolve) (g.format .get) none).run fs)) ∧
        (outcome.code = 2 ↔ Refused fs g.files)
      | .flat =>
        Ends fs g.files (g.policy? .flat) outcome (fun c => outcome.Prints (String.join
          (c.hideSecrets.entries.map fun (p, s) => p.text ++ " = " ++ s.display ++ "\n"))) ∧
        (outcome.code = 2 ↔ Refused fs g.files)
      | .check => Checks fs g.files outcome := by
  obtain ⟨v, rest, g, named, read, made⟩ := Command.ofArguments_eq_ok accepted
  refine ⟨v, rest, g, named, read, made, ?_⟩
  rw [run, accepted]
  obtain ⟨given, asks⟩ := Given.command_eq_ok made
  cases v with
  | dump =>
    rw [asks]
    exact dump_ends given _ _ _ _
  | get =>
    obtain ⟨path, isPath, asks⟩ := asks
    rw [asks]
    exact ⟨path, isPath, get_ends given path _ _ _⟩
  | flat =>
    rw [asks]
    exact flat_ends given _
  | check =>
    rw [asks]
    exact checks_checkFiles fs g.files

/-- The default stands in for a value that is missing, but not for one behind a path that cannot be parsed,
for an expression that cannot be resolved or for a file that cannot be read. -/
theorem run_outcomes_default :
    let fs : FileSystem := ⟨fun file =>
      if file = "c.json" then .ok "\x7b\"a\":\"$\x7bq\x7d\"\x7d" else .error .missing, fun _ => .ok .file⟩
    let arguments (file path : String) (more : List String) := ["get", file, path, "-d", "x"] ++ more
    let command (file path : String) (resolve : Bool) : Command :=
      .get [file] path resolve "text" (some "x")
    Command.ofArguments (arguments "c.json" "b" []) = .ok (command "c.json" "b" false) ∧
      Command.ofArguments (arguments "c.json" "a..b" []) = .ok (command "c.json" "a..b" false) ∧
      Command.ofArguments (arguments "c.json" "b" ["-r"]) = .ok (command "c.json" "b" true) ∧
      Command.ofArguments (arguments "d.json" "b" []) = .ok (command "d.json" "b" false) ∧
      (run fs (arguments "c.json" "b" [])).Prints "x\n" ∧
      (run fs (arguments "c.json" "a..b" [])).Fails 1
        ("Error: " ++ (Error.invalidPath "a..b" "Blank path segment").message) ∧
      (run fs (arguments "c.json" "b" ["-r"])).Fails 1
        ("Error: " ++ (Error.unresolvedExpression "a" "$\x7bq\x7d").message) ∧
      (run fs (arguments "d.json" "b" [])).Fails 2
        "Failed to read d.json: No such file or directory (os error 2)" := by
  intro fs arguments command
  have missing : Command.ofArguments (arguments "c.json" "b" []) = .ok (command "c.json" "b" false) := by
    cbv
  have invalid : Command.ofArguments (arguments "c.json" "a..b" []) =
      .ok (command "c.json" "a..b" false) := by cbv
  have unresolved : Command.ofArguments (arguments "c.json" "b" ["-r"]) =
      .ok (command "c.json" "b" true) := by cbv
  have unread : Command.ofArguments (arguments "d.json" "b" []) = .ok (command "d.json" "b" false) := by
    cbv
  have ends {file path : String} {more : List String} {resolve : Bool}
      (accepted : Command.ofArguments (arguments file path more) = .ok (command file path resolve)) :
      Ends fs [file] (if resolve then some .fail else none) (run fs (arguments file path more)) fun c =>
        ShowsPath c path "text" (some "x") (run fs (arguments file path more))
          ((Command.get [file] path resolve "text" none).run fs) := by
    obtain ⟨v, rest, g, -, -, made, ends⟩ := run_outcomes accepted fs
    have asks := (Given.command_eq_ok made).2
    cases v with
    | dump => cases asks
    | flat => cases asks
    | check => cases asks
    | get =>
      obtain ⟨path', isPath', same⟩ := asks
      obtain ⟨path'', isPath, ends, -⟩ := ends
      cases isPath'.symm.trans isPath
      injection same with files path resolve format default
      rw [← path, ← files, ← resolve, ← format, ← default, Given.policy?, ← resolve] at ends
      exact ends
  let c := Config.empty.withRoot (.map [("a", .leaf (.literal (.string "$\x7bq\x7d")))])
  have merges : Merges fs ["c.json"] c := by
    have loaded : loadFile fs "c.json" = .ok c := by cbv
    exact ⟨c, [], .cons (loadFile_eq_ok_iff.mp loaded) .nil, rfl⟩
  have failed : Resolves c (some .fail) (.error (.unresolvedExpression "a" "$\x7bq\x7d")) :=
    resolved_eq_iff.mp (by cbv)
  refine ⟨missing, invalid, unresolved, unread, ?_, ?_, ?_, ?_⟩
  · exact ((ends missing).goes_on c c merges .unasked).default [.name "b"] "x" (by cbv) rfl rfl
  · exact ((ends invalid).goes_on c c merges .unasked).invalid _ rfl
  · exact (ends unresolved).unresolved c _ merges failed
  · have noFile : fs.read "d.json" = .error .missing := rfl
    obtain ⟨message, first, fails⟩ := (ends unread).refused ⟨"d.json", List.mem_cons_self, _, .unread noFile⟩
    have failed : loadFiles fs ["d.json"] = .error message :=
      (loadFiles_eq_error_iff (List.cons_ne_nil _ _)).mpr first
    have refused : loadFiles fs ["d.json"] =
      .error "Failed to read d.json: No such file or directory (os error 2)" := by cbv
    cases refused.symm.trans failed
    exact fails

end LayeredConfig.CommandLine
