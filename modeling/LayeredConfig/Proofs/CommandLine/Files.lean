import LayeredConfig.CommandLine
import LayeredConfig.Proofs.Computation

/-!
# Files of a command

A file is one of JSON if the last name along its path ends in `.json` with something in front of it, and one
of YAML otherwise (`isJson_iff`). `Loads` says which configuration a file holds, and `Refuses` with which
message it is refused, because it cannot be read or because its text makes none.

Most commands merge what their files hold, in their order, unless one of them is refused; then they fail with
the message about the first such file (`loadFiles_eq_ok_iff`, `loadFiles_eq_error_iff`). `check` goes on
behind a file that is refused and says something about every file (`checks_checkFiles`).
-/

namespace LayeredConfig.CommandLine

/-! ## Names of files -/

/-- The last name along a path. Empty names and single points are none. -/
def lastName? (file : String) : Option (List Char) :=
  ((file.toList.splitOn '/').filter fun name => name ≠ [] ∧ name ≠ ['.']).getLast?

/-- The file is one of JSON by its name. -/
def NamedJson (file : String) : Prop :=
  ∃ stem, stem ≠ [] ∧ lastName? file = some (stem ++ ".json".toList)

theorem getLast?_names (file : String) :
    (Directory.names file).getLast? = (lastName? file).map String.ofList := by
  have empty (name : List Char) : String.ofList name = "" ↔ name = [] := String.ofList_eq_empty_iff
  have point (name : List Char) : String.ofList name = "." ↔ name = ['.'] := String.ofList_inj
  rw [Directory.names, Directory.steps, List.filter_filter, List.filter_map, List.getLast?_map,
    Text.fields_eq_splitOn, lastName?]
  simp only [Function.comp_def, ne_eq, empty, point, Bool.decide_and, Bool.and_comm]

/-- A point that comes first makes no extension. -/
theorem extension?_of_spelled {name extension : String} {stem : List Char}
    (free : '.' ∉ extension.toList) (spelled : name.toList = stem ++ '.' :: extension.toList) :
    extension? name = if stem = [] then none else some extension := by
  have cut : Text.fields '.' name.toList = stem.splitOn '.' ++ [extension.toList] := by
    rw [Text.fields_eq_splitOn, spelled, List.splitOn_append_cons_self, List.splitOn_eq_singleton free]
  have whole : ['.'].intercalate (stem.splitOn '.') = stem := List.intercalate_splitOn '.'
  rw [extension?, cut, List.reverse_append, List.reverse_singleton, List.singleton_append]
  cases parts : (stem.splitOn '.').reverse with
  | nil => exact absurd (List.reverse_eq_nil_iff.mp parts) (List.splitOn_ne_nil '.' stem)
  | cons before more =>
    have first : before.isEmpty && more.isEmpty ↔ stem = [] := by
      rw [Bool.and_eq_true, List.isEmpty_iff, List.isEmpty_iff]
      constructor
      · rintro ⟨rfl, rfl⟩
        rw [← whole, List.reverse_eq_iff.mp parts]
        rfl
      · rintro rfl
        exact ⟨(List.cons.inj parts).1.symm, (List.cons.inj parts).2.symm⟩
    simp only [first, String.ofList_toList]

/-- The part of a name behind its last point, if there is something in front of that point. -/
theorem extension?_eq_some_iff {name extension : String} (free : '.' ∉ extension.toList) :
    extension? name = some extension ↔
      ∃ stem, stem ≠ [] ∧ name.toList = stem ++ '.' :: extension.toList := by
  constructor
  · intro found
    by_cases point : '.' ∈ name.toList
    · obtain ⟨last, before, parts, free'⟩ := List.eq_append_cons_of_mem (List.mem_reverse.mpr point)
      have spelled : name.toList = before.reverse ++ '.' :: (String.ofList last.reverse).toList := by
        rw [List.reverse_eq_iff.mp parts]
        simp
      rw [extension?_of_spelled (by simpa using free') spelled] at found
      split at found
      · cases found
      next some =>
        cases found
        exact ⟨before.reverse, some, spelled⟩
    · rw [extension?, Text.fields_eq_splitOn, List.splitOn_eq_singleton point] at found
      cases found
  · rintro ⟨stem, some, spelled⟩
    rw [extension?_of_spelled free spelled, if_neg some]

theorem isJson_iff {file : String} : isJson file ↔ NamedJson file := by
  have named (name : List Char) : extension? (String.ofList name) = some "json" ↔
      ∃ stem, stem ≠ [] ∧ name = stem ++ ".json".toList := by
    rw [extension?_eq_some_iff (by decide), String.toList_ofList]
    rfl
  rw [isJson, beq_iff_eq, getLast?_names, NamedJson]
  cases lastName? file with
  | none => simp
  | some name => simp [named]

/-! ## One file -/

section File

variable {fs : FileSystem} {file text format message : String} {c : Config}

/-- What a text makes that stands in a file, read in the format of the name of the file. -/
inductive Makes (file text : String) : String → Result Config → Prop
  | json (named : NamedJson file) : Makes file text "JSON" (Config.ofJson text)
  | yaml (named : ¬ NamedJson file) : Makes file text "YAML" (Config.ofYaml text)

/-- The file can be read, and its text makes a configuration. -/
def Loads (fs : FileSystem) (file format : String) (c : Config) : Prop :=
  ∃ text, fs.read file = .ok text ∧ Makes file text format (.ok c)

/-- The file cannot be read, or its text makes no configuration. The message names the file. -/
inductive Refuses (fs : FileSystem) (file : String) : String → Prop
  | unread {fault : FileFault} (read : fs.read file = .error fault) :
    Refuses fs file ("Failed to read " ++ file ++ ": " ++ fault.message)
  | unloaded {text format : String} {e : Error} (read : fs.read file = .ok text)
    (made : Makes file text format (.error e)) :
    Refuses fs file ("Failed to load " ++ file ++ ": " ++ e.message)

theorem makes_iff {made : Result Config} :
    (if isJson file then Config.ofJson text else Config.ofYaml text) = made ↔
      ∃ format, Makes file text format made := by
  constructor
  · rintro rfl
    split
    next named => exact ⟨"JSON", .json (isJson_iff.mp named)⟩
    next named => exact ⟨"YAML", .yaml (mt isJson_iff.mpr named)⟩
  · rintro ⟨_, named | named⟩
    · exact if_pos (isJson_iff.mpr named)
    · exact if_neg (mt isJson_iff.mp named)

theorem loadFile_eq_ok_iff : loadFile fs file = .ok c ↔ ∃ format, Loads fs file format c := by
  unfold loadFile Loads
  cases read : fs.read file with
  | error fault => simp
  | ok text =>
    rw [mapError_ok_iff, makes_iff]
    simp

theorem loadFile_eq_error_iff : loadFile fs file = .error message ↔ Refuses fs file message := by
  unfold loadFile
  constructor
  · intro refused
    cases read : fs.read file with
    | error fault =>
      rw [read] at refused
      cases refused
      exact .unread read
    | ok text =>
      rw [read] at refused
      obtain ⟨e, failed, rfl⟩ := mapError_eq_error_iff.mp refused
      obtain ⟨format, made⟩ := makes_iff.mp failed
      exact .unloaded read made
  · rintro (⟨read⟩ | ⟨read, made⟩)
    · rw [read]
    · rw [read]
      exact mapError_eq_error_iff.mpr ⟨_, makes_iff.mpr ⟨_, made⟩, rfl⟩

/-- The line about a file that holds a configuration tells its format and how many values it has. -/
theorem validLine_of_loads (loads : Loads fs file format c) : validLine file c =
    "✓ " ++ file ++ ": valid " ++ format ++ " (" ++ toString c.entries.length ++ " values)\n" := by
  obtain ⟨text, -, made⟩ := loads
  have written : (if isJson file then "JSON" else "YAML") = format := by
    generalize Except.ok c = result at made
    cases made with
    | json named => exact if_pos (isJson_iff.mpr named)
    | yaml named => exact if_neg (mt isJson_iff.mp named)
  rw [validLine, written]

end File

/-! ## All files -/

section Files

variable {fs : FileSystem} {files : List String} {c : Config} {message : String}

/-- All files hold configurations, and these are merged as layers, in their order. -/
def Merges (fs : FileSystem) (files : List String) (c : Config) : Prop :=
  ∃ first rest, List.Forall₂ (fun file layer => ∃ format, Loads fs file format layer) files (first :: rest) ∧
    c = rest.foldl Config.withValues first

/-- Some file cannot be read or loaded. -/
def Refused (fs : FileSystem) (files : List String) : Prop :=
  ∃ file ∈ files, ∃ message, Refuses fs file message

/-- The message about the first file that cannot be read or loaded. -/
def FirstRefused (fs : FileSystem) (files : List String) (message : String) : Prop :=
  ∃ before file after, files = before ++ file :: after ∧ Refuses fs file message ∧
    ∀ file ∈ before, ∃ layer format, Loads fs file format layer

theorem loadFiles_eq_ok_iff : loadFiles fs files = .ok c ↔ Merges fs files c := by
  simp only [Merges, ← loadFile_eq_ok_iff]
  rw [loadFiles, bind_eq_ok]
  constructor
  · rintro ⟨layers, read, merged⟩
    cases layers with
    | nil => cases merged
    | cons first rest => exact ⟨first, rest, mapM_eq_ok_iff.mp read, (pure_eq_ok.mp merged).symm⟩
  · rintro ⟨first, rest, loaded, rfl⟩
    exact ⟨first :: rest, mapM_eq_ok_iff.mpr loaded, rfl⟩

/-- Files fail to load only because of one of them, if there are any. -/
theorem failure?_loadFiles (given : files ≠ []) :
    failure? (loadFiles fs files) = files.findSome? fun file => failure? (loadFile fs file) := by
  rw [← failure?_mapM, loadFiles]
  cases read : files.mapM (loadFile fs) with
  | error message => rfl
  | ok layers =>
    cases layers with
    | nil => exact absurd (List.forall₂_nil_right_iff.mp (mapM_eq_ok_iff.mp read)) given
    | cons first rest => rfl

theorem loadFiles_eq_error_iff (given : files ≠ []) :
    loadFiles fs files = .error message ↔ FirstRefused fs files message := by
  rw [← failure?_eq_some_iff, failure?_loadFiles given, List.findSome?_eq_some_iff]
  simp only [failure?_eq_some_iff, failure?_eq_none_iff, loadFile_eq_error_iff, loadFile_eq_ok_iff,
    FirstRefused]

theorem exists_firstRefused_iff (given : files ≠ []) :
    (∃ message, FirstRefused fs files message) ↔ Refused fs files := by
  simp only [← loadFiles_eq_error_iff given, ← failure?_eq_some_iff, failure?_loadFiles given]
  rw [← Option.isSome_iff_exists, List.findSome?_isSome_iff]
  simp only [Option.isSome_iff_exists, failure?_eq_some_iff, loadFile_eq_error_iff, Refused]

theorem exists_merges_iff (given : files ≠ []) : (∃ m, Merges fs files m) ↔ ¬ Refused fs files := by
  rw [← exists_firstRefused_iff given]
  simp only [← loadFiles_eq_ok_iff, ← loadFiles_eq_error_iff given]
  cases loadFiles fs files <;> simp

end Files

/-! ## Checking files -/

/-- What is said about a file, and whether it holds a configuration. -/
structure Report where
  valid : Bool
  line : String

namespace Report

/-- The report about a file. -/
def of (fs : FileSystem) (file : String) : Report :=
  match loadFile fs file with
  | .ok c => ⟨true, validLine file c⟩
  | .error fault => ⟨false, invalidLine fault⟩

/-- The lines of the reports that are, or are not, about files that hold a configuration. -/
def text (valid : Bool) (reports : List Report) : String :=
  String.join ((reports.filter (·.valid == valid)).map (·.line))

end Report

/-- The reports about a file. Each of them names it. -/
inductive Reported (fs : FileSystem) (file : String) : Report → Prop
  | valid {format : String} {c : Config} (loads : Loads fs file format c) : Reported fs file
    ⟨true, "✓ " ++ file ++ ": valid " ++ format ++ " (" ++ toString c.entries.length ++ " values)\n"⟩
  | invalid {message : String} (refuses : Refuses fs file message) : Reported fs file
    ⟨false, "✗ " ++ message ++ "\n"⟩

/-- What is said about a list of files: one report on each, in their order, on one of the two outputs, and
the code says whether all of them hold a configuration. -/
structure Checks (fs : FileSystem) (files : List String) (outcome : Outcome) : Prop where
  reports : ∃ reports, List.Forall₂ (Reported fs) files reports ∧
    outcome.stdout = Report.text true reports ∧ outcome.stderr = Report.text false reports
  code : outcome.code = 0 ∨ outcome.code = 1
  code_eq_zero_iff : outcome.code = 0 ↔ ∀ file ∈ files, ∃ c format, Loads fs file format c

theorem reported_of (fs : FileSystem) (file : String) : Reported fs file (.of fs file) := by
  rw [Report.of]
  cases loaded : loadFile fs file with
  | ok c =>
    obtain ⟨format, loads⟩ := loadFile_eq_ok_iff.mp loaded
    dsimp only
    rw [validLine_of_loads loads]
    exact .valid loads
  | error message => exact .invalid (loadFile_eq_error_iff.mp loaded)

theorem Report.valid_of_iff {fs : FileSystem} {file : String} :
    (Report.of fs file).valid ↔ ∃ c format, Loads fs file format c := by
  simp only [← loadFile_eq_ok_iff]
  rw [Report.of]
  cases loadFile fs file <;> simp

theorem Report.lines_eq (fs : FileSystem) (files : List String) (valid : Bool) :
    (files.map fun file => (file, loadFile fs file)).filterMap (fun
      | (file, .ok c) => if valid then some (validLine file c) else none
      | (_, .error fault) => if valid then none else some (invalidLine fault)) =
    ((files.map (Report.of fs)).filter (·.valid == valid)).map (·.line) := by
  induction files with
  | nil => rfl
  | cons file rest ih =>
    rw [List.map_cons, List.filterMap_cons, ih, List.map_cons, List.filter_cons, Report.of]
    cases loadFile fs file <;> cases valid <;> rfl

/-- Checking files is reporting on each of them. -/
theorem checkFiles_eq (fs : FileSystem) (files : List String) :
    let reports := files.map (Report.of fs)
    checkFiles fs files =
      ⟨if reports.all (·.valid) then 0 else 1, Report.text true reports, Report.text false reports,
        none⟩ := by
  intro reports
  unfold checkFiles
  extract_lets results line? faults
  have lines (valid : Bool) : results.filterMap (line? valid) =
      (reports.filter (·.valid == valid)).map (·.line) := Report.lines_eq fs files valid
  have none : faults.isEmpty = reports.all (·.valid) := by
    rw [Bool.eq_iff_iff, show faults = _ from lines false]
    simp
  rw [none, lines true, show faults = _ from lines false]
  rfl

theorem checks_checkFiles (fs : FileSystem) (files : List String) : Checks fs files (checkFiles fs files) := by
  rw [checkFiles_eq]
  refine ⟨⟨files.map (Report.of fs), ?_, rfl, rfl⟩, ?_, ?_⟩
  · exact List.forall₂_map_right_iff.mpr (List.forall₂_same.mpr fun file _ => reported_of fs file)
  · dsimp only
    split
    · exact .inl rfl
    · exact .inr rfl
  · simp [Report.valid_of_iff]

end LayeredConfig.CommandLine
