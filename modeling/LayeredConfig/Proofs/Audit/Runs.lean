import LayeredConfig.Audit
import LayeredConfig.Proofs.Config.Reachable
import LayeredConfig.Proofs.Node.Renumber

/-!
# Runs of an audit

An audit is cloned, and paths are passed to the clones in any order. All clones share one record, so what
was not read after a run depends only on the paths that were passed and lead to something
(`unused_of_run`): the unused values are the leaves on which none of these paths lies.
-/

namespace LayeredConfig

/-- The path that a text is, if something is there. -/
def Config.locate? (c : Config) (path : String) : Option Path :=
  match Path.parse path with
  | .ok p => if (c.root.get? p).isSome then some p else none
  | .error _ => none

theorem Config.locate?_text {c : Config} {p : Path} (readable : p.Readable)
    (found : (c.root.get? p).isSome) : c.locate? p.text = some p := by
  rw [Config.locate?, Path.parse_text readable]
  exact if_pos found

namespace Audit

variable {a : Audit} {c : Config} {p : Path}

/-! ## Calls -/

/-- A call through one of the handles of an audit. All getters are `ask`, with what they read as an
argument: a value, a list, or a part of the configuration. -/
inductive Call : Type 1 where
  | clone (handle : Nat)
  | mark (handle : Nat) (path : String)
  | ask {α : Type} (handle : Nat) (path : String) (read : Config → String → Result α)

/-- The path text that is passed. -/
def Call.path? : Call → Option String
  | .clone _ => none
  | .mark _ path => some path
  | .ask _ path _ => some path

/-- An audit with its clones. Every handle has its configuration, and the record is one for all. -/
structure Session where
  configs : List Config
  read : List Path

namespace Session

def start (c : Config) : Session :=
  ⟨[c], []⟩

/-- The audit behind a handle. -/
def audit? (s : Session) (handle : Nat) : Option Audit :=
  s.configs[handle]?.map fun config => ⟨config, s.read⟩

/-- One call. There is none through a handle that was not made. -/
def step (s : Session) : Call → Option Session
  | .clone handle => (s.audit? handle).map fun a => { s with configs := s.configs ++ [a.config] }
  | .mark handle path => (s.audit? handle).map fun a => { s with read := (a.mark path).read }
  | .ask handle path read => (s.audit? handle).map fun a =>
      { s with read := (a.reading path read).2.read }

def run (c : Config) (calls : List Call) : Option Session :=
  calls.foldlM step (start c)

end Session

/-- The paths that calls pass and at which the configuration has something. -/
def passed (c : Config) (calls : List Call) : List Path :=
  calls.filterMap fun call => call.path?.bind c.locate?

/-! ## The record -/

theorem read_mark (a : Audit) (path : String) :
    (a.mark path).read = (a.config.locate? path).toList ++ a.read := by
  unfold mark Config.locate?
  cases Path.parse path with
  | error e => rfl
  | ok p =>
    dsimp only
    split <;> rfl

theorem audit?_eq_some_iff {s : Session} {handle : Nat} :
    s.audit? handle = some a ↔ s.configs[handle]? = some a.config ∧ a.read = s.read := by
  rw [Session.audit?, Option.map_eq_some_iff]
  constructor
  · rintro ⟨config, here, rfl⟩
    exact ⟨here, rfl⟩
  · rintro ⟨here, same⟩
    exact ⟨a.config, here, by rw [← same]⟩

/-- A call leaves all handles with their configuration, and adds to the record the path that it passes. -/
theorem Session.step_keeps {s s' : Session} {call : Call} (made : s.step call = some s')
    (same : ∀ d ∈ s.configs, d = c) : (∀ d ∈ s'.configs, d = c) ∧
      s'.read = (call.path?.bind c.locate?).toList ++ s.read := by
  cases call with
  | clone handle =>
    obtain ⟨a, here, rfl⟩ := Option.map_eq_some_iff.mp made
    obtain ⟨found, -⟩ := audit?_eq_some_iff.mp here
    refine ⟨fun d mem => ?_, rfl⟩
    rcases List.mem_append.mp mem with old | new
    · exact same d old
    · cases List.mem_singleton.mp new
      exact same _ (List.mem_of_getElem? found)
  | mark handle path =>
    obtain ⟨a, here, rfl⟩ := Option.map_eq_some_iff.mp made
    obtain ⟨found, record⟩ := audit?_eq_some_iff.mp here
    cases same _ (List.mem_of_getElem? found)
    refine ⟨same, ?_⟩
    rw [← record]
    exact read_mark a path
  | ask handle path read =>
    obtain ⟨a, here, rfl⟩ := Option.map_eq_some_iff.mp made
    obtain ⟨found, record⟩ := audit?_eq_some_iff.mp here
    cases same _ (List.mem_of_getElem? found)
    refine ⟨same, ?_⟩
    rw [← record]
    exact read_mark a path

theorem Session.steps_keep {s s' : Session} {calls : List Call}
    (made : calls.foldlM step s = some s') (same : ∀ d ∈ s.configs, d = c) :
    (∀ d ∈ s'.configs, d = c) ∧ s'.read = (passed c calls).reverse ++ s.read := by
  induction calls generalizing s with
  | nil =>
    cases made
    exact ⟨same, rfl⟩
  | cons call rest ih =>
    rw [List.foldlM_cons] at made
    obtain ⟨between, here, later⟩ := Option.bind_eq_some_iff.mp made
    obtain ⟨same', first⟩ := step_keeps here same
    obtain ⟨same'', record⟩ := ih later same'
    refine ⟨same'', ?_⟩
    rw [record, first, passed, passed, List.filterMap_cons]
    cases call.path?.bind c.locate? with
    | none => rfl
    | some p => rw [List.reverse_cons, List.append_assoc]; rfl

/-- Whatever the calls were, each handle has the configuration and what was passed counts as read. -/
theorem isRead_of_run {s : Session} {calls : List Call} {handle : Nat}
    (run : Session.run c calls = some s) (here : s.audit? handle = some a) :
    a.config = c ∧ ∀ p, a.isRead p = (passed c calls).any p.startsWith := by
  obtain ⟨same, record⟩ := Session.steps_keep run fun d mem => List.mem_singleton.mp mem
  obtain ⟨found, read⟩ := audit?_eq_some_iff.mp here
  refine ⟨same _ (List.mem_of_getElem? found), fun p => ?_⟩
  rw [isRead, read, record]
  simp [Session.start]

/-! ## What is left -/

/-- The leaves that were not read. -/
def unread (a : Audit) : List (Path × Scalar) :=
  (a.config.root.leaves .root).filter fun leaf => !a.isRead leaf.1

theorem unread_of_run {s : Session} {calls : List Call} {handle : Nat}
    (run : Session.run c calls = some s) (here : s.audit? handle = some a) :
    a.unread = (c.root.leaves .root).filter fun leaf => !(passed c calls).any leaf.1.startsWith := by
  obtain ⟨rfl, isRead⟩ := isRead_of_run run here
  simp only [unread, isRead]

theorem root_unused (a : Audit) :
    a.unused.root = (a.config.root.sift (fun p _ => !a.isRead p) .both .root).getD .empty := by
  rw [← Node.filterLeaves_eq]
  rfl

/-- The unused values are the leaves that were not read. Elements of lists move down where others go. -/
theorem leaves_unused (sound : a.config.Sound) : a.unused.root.leaves .root =
    a.unread.map fun leaf => (leaf.1.renumber (a.unread.map Prod.fst), leaf.2) := by
  have agree : Node.KeptBelow (a.unread.map Prod.fst) (fun p _ => !a.isRead p) .root
      (a.config.root.leaves .root) := by
    intro q _
    rw [List.mem_map]
    constructor
    · rintro ⟨⟨_, s⟩, mem, rfl⟩
      exact ⟨s, List.mem_filter.mp mem⟩
    · rintro ⟨s, mem⟩
      exact ⟨(q, s), List.mem_filter.mpr mem, rfl⟩
  rw [root_unused]
  exact Node.leaves_sift sound.wellFormed.distinctKeys agree

theorem isEmpty_of_unused {n : Node} (notRoot : p ≠ .root) (found : a.unused.root.get? p = some n) :
    n.isEmpty = false := by
  rw [root_unused] at found
  cases sifted : a.config.root.sift (fun p _ => !a.isRead p) .both .root with
  | none =>
    rw [sifted] at found
    match p with
    | [] => exact absurd rfl notRoot
    | .name k :: rest => cases found
    | .index i :: rest => cases found
  | some left =>
    rw [sifted] at found
    exact (Pruning.prunes_both n).symm.trans (Node.prunes_of_sift sifted found)

/-- The texts of the paths of the unused values, in order. -/
def listing (a : Audit) : List String :=
  ((a.unread.map Prod.fst).map fun p => (p.renumber (a.unread.map Prod.fst)).text).mergeSort

theorem listing_eq_nil_iff : a.listing = [] ↔ a.unread = [] := by
  rw [listing, ← List.length_eq_zero_iff, List.length_mergeSort, List.length_map, List.length_map,
    List.length_eq_zero_iff]

theorem texts_unused (sound : a.config.Sound) :
    (a.unused.entries.map fun leaf => leaf.1.text) = a.listing := by
  rw [Config.entries, List.map_mergeSort (f := fun leaf : Path × Scalar => leaf.1.text)
    (s := fun x y => decide (x ≤ y)) fun _ _ _ _ => rfl, leaves_unused sound, List.map_map, listing,
    List.map_map]
  rfl

theorem ensureAllUsed_of_nil (sound : a.config.Sound) (none : a.unread = []) :
    a.ensureAllUsed = .ok () := by
  rw [ensureAllUsed, texts_unused sound, listing_eq_nil_iff.mpr none]

theorem ensureAllUsed_of_ne_nil (sound : a.config.Sound) (some : a.unread ≠ []) :
    a.ensureAllUsed = .error (.unusedValues a.listing) := by
  rw [ensureAllUsed, texts_unused sound]
  split
  · next none => exact absurd (listing_eq_nil_iff.mp none) some
  · rfl

theorem ensureAllUsed_eq_ok_iff (sound : a.config.Sound) :
    a.ensureAllUsed = .ok () ↔ a.unread = [] := by
  constructor
  · intro ok
    by_contra some
    rw [ensureAllUsed_of_ne_nil sound some] at ok
    cases ok
  · exact ensureAllUsed_of_nil sound

/-- Audits of one configuration from which the same was read have the same unused values. -/
theorem unused_congr {b : Audit} (config : b.config = a.config) (same : ∀ p, b.isRead p = a.isRead p) :
    b.unused = a.unused ∧ b.ensureAllUsed = a.ensureAllUsed := by
  have unused : b.unused = a.unused := by
    rw [Audit.unused, Audit.unused, config, funext same]
  exact ⟨unused, by rw [ensureAllUsed, ensureAllUsed, unused]⟩

theorem any_startsWith_eq_true_iff {paths : List Path} :
    paths.any p.startsWith = true ↔ ∃ q ∈ paths, q <+: p := by
  rw [List.any_eq_true]
  exact exists_congr fun q => and_congr_right fun _ => List.isPrefixOf_iff_prefix

/-- A list with two texts. -/
def twoTexts : Config :=
  Config.empty.withRoot (.map [("l", .list [.leaf (.literal (.string "a")), .leaf (.literal (.string "b"))])])

theorem reachable_twoTexts : twoTexts.Reachable := by
  have value : Value.Admissible (.sequence [.literal (.string "a"), .literal (.string "b")]) := by
    refine .sequence (by decide) fun v mem => ?_
    rcases List.mem_pair.mp mem with rfl | rfl
    · exact .literal _
    · exact .literal _
  have made : Config.empty.put "l" (.sequence [.literal (.string "a"), .literal (.string "b")]) =
      .ok twoTexts :=
    bind_eq_ok.mpr ⟨[.name "l"], by cbv, rfl⟩
  exact .put .empty value made

/-- Only the paths that were passed and lead to something matter in a run of an audit and its clones. The
unused values are the leaves on which none of them lies, in their order, without empty containers below
the root, and all is used exactly if there is none of these leaves. The order of the calls, their number
and what came of them do not matter. -/
theorem unused_of_run {s : Session} {calls : List Call} {handle : Nat} (reached : c.Reachable)
    (run : Session.run c calls = some s) (here : s.audit? handle = some a) :
    (a.unused.root.leaves .root).map Prod.snd =
      ((c.root.leaves .root).filter fun leaf => !(passed c calls).any leaf.1.startsWith).map Prod.snd ∧
    (∀ p n, p ≠ .root → a.unused.root.get? p = some n → n.isEmpty = false) ∧
    (a.ensureAllUsed = .ok () ↔
      ∀ leaf ∈ c.root.leaves .root, ∃ p ∈ passed c calls, p <+: leaf.1) ∧
    ∀ s' calls' handle' a', Session.run c calls' = some s' → s'.audit? handle' = some a' →
      (∀ p, p ∈ passed c calls' ↔ p ∈ passed c calls) →
        a'.unused = a.unused ∧ a'.ensureAllUsed = a.ensureAllUsed := by
  obtain ⟨rfl, isRead⟩ := isRead_of_run run here
  have sound := reached.sound
  refine ⟨?_, fun p n notRoot found => isEmpty_of_unused notRoot found, ?_, ?_⟩
  · rw [leaves_unused sound, List.map_map, ← unread_of_run run here]
    rfl
  · rw [ensureAllUsed_eq_ok_iff sound, unread_of_run run here, List.filter_eq_nil_iff]
    refine forall₂_congr fun leaf _ => ?_
    rw [Bool.not_eq_true', Bool.not_eq_false, any_startsWith_eq_true_iff]
  · intro s' calls' handle' a' run' here' samePaths
    obtain ⟨config, isRead'⟩ := isRead_of_run run' here'
    refine unused_congr config fun p => ?_
    rw [isRead, isRead', Bool.eq_iff_iff, any_startsWith_eq_true_iff, any_startsWith_eq_true_iff]
    exact exists_congr fun q => and_congr_left fun _ => samePaths q

/-- A text is read as a number through a clone. That fails, and counts. -/
theorem unused_of_run_clone :
    let p : Path := [.name "l", .index 0]
    let calls : List Call := [.clone 0, .ask 1 "l[0]" fun c path => c.get (.int .u16) path]
    twoTexts.Reachable ∧ Session.run twoTexts calls = some ⟨[twoTexts, twoTexts], [p]⟩ ∧
      Session.audit? ⟨[twoTexts, twoTexts], [p]⟩ 0 = some ⟨twoTexts, [p]⟩ ∧
      ((Audit.mk twoTexts [p]).unused.root.leaves .root).map Prod.snd = [.literal (.string "b")] := by
  intro p calls
  have located : twoTexts.locate? "l[0]" = some p :=
    Config.locate?_text (p := [.name "l", .index 0]) (by decide) rfl
  have run : Session.run twoTexts calls = some ⟨[twoTexts, twoTexts], [p]⟩ := by
    have record : ((Audit.mk twoTexts []).mark "l[0]").read = [p] := by
      rw [read_mark, located]
      rfl
    exact congrArg (fun read => some (Session.mk [twoTexts, twoTexts] read)) record
  have here : Session.audit? ⟨[twoTexts, twoTexts], [p]⟩ 0 = some ⟨twoTexts, [p]⟩ := rfl
  refine ⟨reachable_twoTexts, run, here, ?_⟩
  have only : passed twoTexts calls = [p] := by
    simp [passed, calls, Call.path?, located]
  obtain ⟨left, -⟩ := unused_of_run reachable_twoTexts run here
  rw [left, only]
  rfl

end Audit

end LayeredConfig
