import LayeredConfig.CommandLine
import LayeredConfig.Proofs.Config.Secrets
import LayeredConfig.Proofs.Node.Visits

/-!
# What a redacted tree tells

Redaction gives the same tree for two trees exactly if these have the same shape and the same scalars at
all leaves that are not secret (`redact_eq_iff`). So nothing that is made from redacted trees only depends
on a secret: not the text of a configuration, not its documents, and not what the commands `dump` and
`flat` write (`redact_noninterference`).
-/

namespace LayeredConfig

namespace Redactor

variable {r : Redactor} {n n' : Node} {p : Path} {s t : Scalar}

/-- Two trees of the same shape whose leaves hold the same wherever the path is not secret. What secret
leaves hold does not matter. -/
def Agree (r : Redactor) (n n' : Node) : Prop :=
  Node.Mapped (fun q s t => r.isSecret q = false → s = t) .root n n'

/-- What becomes of a leaf: the replacement if its path is secret, and the same scalar if it is not. -/
def Hides (r : Redactor) (p : Path) (s t : Scalar) : Prop :=
  (r.isSecret p = true → t = .literal (.string r.replacement)) ∧ (r.isSecret p = false → t = s)

theorem hides_iff : r.Hides p s t ↔ t = r.redactLeaf p s := by
  rw [Hides, redactLeaf]
  cases r.isSecret p <;> simp

theorem redactLeaf_eq_iff :
    r.redactLeaf p s = r.redactLeaf p t ↔ (r.isSecret p = false → s = t) := by
  rw [redactLeaf, redactLeaf]
  cases r.isSecret p <;> simp

theorem redactLeaf_idem (r : Redactor) (p : Path) (s : Scalar) :
    r.redactLeaf p (r.redactLeaf p s) = r.redactLeaf p s :=
  redactLeaf_eq_iff.mpr fun plain => by rw [redactLeaf, plain]; rfl

/-- Redaction in any monad has no effect, so it succeeds where computations may fail. -/
theorem mapLeaves_redactLeaf {m : Type → Type} [Monad m] [LawfulMonad m] (r : Redactor) (n : Node) :
    n.mapLeaves (fun p s => (pure (r.redactLeaf p s) : m Scalar)) .root = pure (r.redact n) :=
  Node.mapLeaves_pure r.redactLeaf .root n

theorem redact_hides (r : Redactor) (n : Node) : Node.Mapped r.Hides .root n (r.redact n) := by
  have same : r.Hides = fun p s t => t = r.redactLeaf p s := by
    funext p s t
    exact propext hides_iff
  rw [same]
  exact r.redact_mapped n

/-- Redacted trees are the same exactly if the trees agree wherever no secret is. -/
theorem redact_eq_iff : r.redact n = r.redact n' ↔ r.Agree n n' := by
  have first := r.redact_mapped n
  have second := r.redact_mapped n'
  constructor
  · intro same
    rw [← same] at second
    -- both trees lead to the one tree, so there is a way from one to the other
    refine first.trans (fun q s u t left right => ?_) second.symm
    exact redactLeaf_eq_iff.mp (left.symm.trans right)
  · intro agree
    have across : Node.Mapped (fun q s t => t = r.redactLeaf q s) .root n (r.redact n') := by
      refine agree.trans (fun q s t u plain replaced => ?_) second
      exact replaced.trans (redactLeaf_eq_iff.mpr plain).symm
    exact (first.eq_iff across).mpr fun _ _ _ => rfl

theorem redact_redact (r : Redactor) (n : Node) : r.redact (r.redact n) = r.redact n := by
  have once := r.redact_mapped n
  have twice : Node.Mapped (fun q s u => u = r.redactLeaf q s) .root n (r.redact (r.redact n)) := by
    refine once.trans (fun q s t u first second => ?_) (r.redact_mapped (r.redact n))
    rw [second, first, redactLeaf_idem]
  exact (twice.eq_iff once).mpr fun _ _ _ => rfl

end Redactor

/-! ## Commands -/

namespace CommandLine

variable {fs fs' : FileSystem} {files files' : List String} {c c' : Config}

theorem redactor_of_loadFile {file : String} (loaded : loadFile fs file = .ok c) :
    c.redactor = .standard := by
  have made : ∀ {format} {value? : Option Value}, Config.ofRead format value? = .ok c →
      c.redactor = .standard := by
    intro format value? made
    cases value? with
    | none => cases made
    | some value =>
      obtain ⟨root, -, same⟩ := bind_eq_ok.mp made
      cases pure_eq_ok.mp same
      rfl
  unfold loadFile at loaded
  split at loaded
  · cases loaded
  · rw [mapError_ok_iff] at loaded
    split at loaded <;> exact made loaded

/-- Configurations from files have the usual secret names. -/
theorem redactor_of_loadFiles (loaded : loadFiles fs files = .ok c) : c.redactor = .standard := by
  obtain ⟨layers, found, merged⟩ := bind_eq_ok.mp loaded
  cases files with
  | nil =>
    cases found
    cases merged
  | cons file rest =>
    rw [List.mapM_cons] at found
    obtain ⟨first, here, found⟩ := bind_eq_ok.mp found
    obtain ⟨more, -, found⟩ := bind_eq_ok.mp found
    cases pure_eq_ok.mp found
    cases pure_eq_ok.mp merged
    have kept : ∀ (more : List Config) (c : Config),
        (more.foldl Config.withValues c).redactor = c.redactor := by
      intro more
      induction more with
      | nil => exact fun _ => rfl
      | cons layer more ih => exact fun c => ih (c.withValues layer)
    rw [kept]
    exact redactor_of_loadFile here

/-- Without resolution a command goes on with the configuration of its files. -/
theorem withConfig_none (loaded : loadFiles fs files = .ok c) (go : Config → Outcome) :
    withConfig fs files none go = go c := by
  rw [withConfig, loaded]
  rfl

theorem run_dump_hidden (loaded : loadFiles fs files = .ok c) (format : String)
    (output? : Option String) :
    (Command.dump files none false format output?).run fs =
      match output? with
      | some file => writeFile fs file (document c.hideSecrets format true)
      | none => .success (document c.hideSecrets format true) := by
  rw [Command.run, withConfig_none loaded]
  rfl

theorem run_flat (loaded : loadFiles fs files = .ok c) :
    (Command.flat files false).run fs = .success (renderFlat c.hideSecrets) := by
  rw [Command.run]
  exact withConfig_none loaded _

theorem writeFile_congr {file text : String} (same : fs.sink file = fs'.sink file) :
    writeFile fs file text = writeFile fs' file text := by
  rw [writeFile, writeFile, same]

theorem document_eq_of_root {format : String} (same : c.root = c'.root) :
    document c format true = document c' format true := by
  show (if format = "json" then c.root.toJson.pretty else c.root.yaml) = _
  rw [same]
  rfl

theorem renderFlat_eq_of_root (same : c.root = c'.root) : renderFlat c = renderFlat c' := by
  rw [renderFlat, renderFlat, Config.entries, Config.entries, same]

end CommandLine

open CommandLine in
/-- Redaction succeeds for every tree, and what it makes of two trees is the same exactly if they agree
wherever no secret is. It keeps the shape and every leaf that is not secret, all others become the
replacement, and a second redaction changes nothing. So for two configurations that differ in secrets only
the texts and the documents are the same, and the commands `dump` and `flat` write the same for files with
such configurations, as long as expressions are not resolved and secrets are not asked for. -/
theorem Redactor.redact_noninterference (r : Redactor) (n n' : Node) :
    (r.redact n = r.redact n' ↔ r.Agree n n') ∧
    n.mapLeaves (fun p s => (.ok (r.redactLeaf p s) : Result Scalar)) .root = .ok (r.redact n) ∧
    Node.Mapped r.Hides .root n (r.redact n) ∧
    r.redact (r.redact n) = r.redact n ∧
    (r.Agree n n' →
      (∀ c c' : Config, c.toDocument = ⟨n, r⟩ → c'.toDocument = ⟨n', r⟩ →
        c.display = c'.display ∧ c.toYaml = c'.toYaml ∧ c.toJson = c'.toJson) ∧
      (∀ fs fs' files files' c c', r = .standard → loadFiles fs files = .ok c → c.root = n →
        loadFiles fs' files' = .ok c' → c'.root = n' →
        (∀ format output?, (∀ file, output? = some file → fs.sink file = fs'.sink file) →
          (Command.dump files none false format output?).run fs =
            (Command.dump files' none false format output?).run fs') ∧
        (Command.flat files false).run fs = (Command.flat files' false).run fs')) := by
  refine ⟨redact_eq_iff, r.mapLeaves_redactLeaf n, r.redact_hides n, r.redact_redact n, fun agree => ?_⟩
  have same : r.redact n = r.redact n' := redact_eq_iff.mpr agree
  refine ⟨fun c c' whole whole' => ?_, fun fs fs' files files' c c' usual loaded root loaded' root' => ?_⟩
  · have redacted : c.redacted = c'.redacted := by
      rw [show c.redacted = r.redact n from congrArg Document.redacted whole, same]
      exact (congrArg Document.redacted whole').symm
    refine ⟨?_, ?_, ?_⟩
    · rw [Config.display, Config.display, redacted]
    · exact congrArg Node.yaml redacted
    · exact congrArg (·.toJson.pretty) redacted
  · subst usual root root'
    have hidden : c.hideSecrets.root = c'.hideSecrets.root := by
      show c.redactor.redact c.root = c'.redactor.redact c'.root
      rw [redactor_of_loadFiles loaded, redactor_of_loadFiles loaded', same]
    refine ⟨fun format output? sinks => ?_, ?_⟩
    · rw [run_dump_hidden loaded, run_dump_hidden loaded', document_eq_of_root hidden]
      cases output? with
      | none => rfl
      | some file => exact writeFile_congr (sinks file rfl)
    · rw [run_flat loaded, run_flat loaded', renderFlat_eq_of_root hidden]

open CommandLine in
/-- Two files that differ in an element of a secret list, which is a text in one and a truth value in the
other. -/
theorem Redactor.redact_noninterference_files :
    let fs (text : String) : FileSystem := ⟨fun _ => .ok text, fun _ => .ok .file⟩
    let tree (secret : Literal) : Node :=
      .map [("keys", .list [.leaf (.literal secret)]), ("a", .leaf (.literal (.bool true)))]
    let one := fs "\x7b\"keys\":[\"k\"],\"a\":true\x7d"
    let two := fs "\x7b\"keys\":[false],\"a\":true\x7d"
    let dump : Command := .dump ["c.json"] none false "yaml" (some "out")
    let flat : Command := .flat ["c.json"] false
    Redactor.standard.Agree (tree (.string "k")) (tree (.bool false)) ∧
      loadFiles one ["c.json"] = .ok (Config.empty.withRoot (tree (.string "k"))) ∧
      loadFiles two ["c.json"] = .ok (Config.empty.withRoot (tree (.bool false))) ∧
      dump.run one = dump.run two ∧ flat.run one = flat.run two ∧
      (Config.empty.withRoot (tree (.string "k"))).toJson =
        (Config.empty.withRoot (tree (.bool false))).toJson := by
  intro fs tree one two dump flat
  have agree : Redactor.standard.Agree (tree (.string "k")) (tree (.bool false)) := by
    have secret : Redactor.standard.isSecret [.name "keys", .index 0] = true := by cbv
    refine ⟨rfl, ⟨fun plain => ?_, trivial⟩, rfl, fun _ => rfl, trivial⟩
    cases secret.symm.trans plain
  have loaded : loadFiles one ["c.json"] = .ok (Config.empty.withRoot (tree (.string "k"))) := by cbv
  have loaded' : loadFiles two ["c.json"] = .ok (Config.empty.withRoot (tree (.bool false))) := by cbv
  obtain ⟨-, -, -, -, views⟩ := redact_noninterference .standard (tree (.string "k")) (tree (.bool false))
  obtain ⟨texts, commands⟩ := views agree
  obtain ⟨dumps, flats⟩ := commands one two _ _ _ _ rfl loaded rfl loaded' rfl
  exact ⟨agree, loaded, loaded', dumps "yaml" (some "out") fun _ _ => rfl, flats,
    (texts _ _ rfl rfl).2.2⟩

end LayeredConfig
