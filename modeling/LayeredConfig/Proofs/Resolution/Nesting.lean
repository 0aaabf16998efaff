import LayeredConfig.Proofs.Node.Visits
import LayeredConfig.Proofs.Resolution.CycleGuard
import Mathlib

/-!
# How deep resolution goes

To resolve an expression, others have to be resolved that it refers to, and each of these calls puts a
template of the scope on the chain that was not there. So there can be only as many calls at a time as
there are such templates, and one more (`length_le_of_active`).

`resolveWithin` is resolution with a limit for the calls at a time. It keeps the chain and looks alternatives
up one after the other, like `resolve`, and gives no result when it gets to the limit. With that number as
the limit it never does (`resolveWithin_eq`). `resolution_terminates` puts this together, also for whole
trees, whatever cycles their references form.
-/

namespace LayeredConfig

namespace Resolution

variable {scope : Node} {chain chain' : Chain} {e : Expression} {reference : String}

/-! ## Templates that are not on the chain -/

/-- The number of different templates in a tree that are not on the chain. -/
def openCount (scope : Node) (chain : Chain) : Nat :=
  (openTemplates scope chain).toFinset.card

theorem mem_openTemplates_iff {t : String} :
    t ∈ openTemplates scope chain ↔ t ∈ templates scope ∧ t ∉ chain := by
  simp [openTemplates]

/-- Entering an expression of the scope leaves one template less open. -/
theorem openCount_enter (found : leafAt? scope reference = some (.expression e))
    (free : closesCycle chain e = false) :
    openCount scope (chain.enter e) + 1 = openCount scope chain := by
  have notOn : e.template ∉ chain := by
    rw [← closesCycle_iff, free]
    exact Bool.false_ne_true
  have mem : e.template ∈ (openTemplates scope chain).toFinset :=
    List.mem_toFinset.mpr (mem_openTemplates_iff.mpr ⟨mem_templates_of_leafAt? found, notOn⟩)
  -- several leaves may hold this template, so it is as a set that one template is lost
  have rest : (openTemplates scope (chain.enter e)).toFinset =
      (openTemplates scope chain).toFinset.erase e.template := by
    ext t
    simp only [List.mem_toFinset, mem_openTemplates_iff, mem_enter_iff, Finset.mem_erase]
    tauto
  rw [openCount, rest, Finset.card_erase_add_one mem, openCount]

theorem openCount_mono (more : ∀ t ∈ chain, t ∈ chain') :
    openCount scope chain' ≤ openCount scope chain := by
  refine Finset.card_le_card fun t mem => ?_
  rw [List.mem_toFinset, mem_openTemplates_iff] at mem ⊢
  exact ⟨mem.1, fun on => mem.2 (more t on)⟩

/-! ## Calls at a time -/

/-- An expression that is being resolved, with the chain that its references are looked up with. -/
structure Call where
  expression : Expression
  chain : Chain

/-- To resolve the one, the other may have to be resolved: it is at one of the alternatives of a
reference, and closes no cycle. -/
inductive Calls (scope : Node) : Call → Call → Prop
  | follow {e e' : Expression} {chain : Chain} {source reference : String}
      {alternatives : List String} :
      .reference source alternatives ∈ e.segments → reference ∈ alternatives →
      leafAt? scope reference = some (.expression e') → closesCycle chain e' = false →
      Calls scope ⟨e, chain⟩ ⟨e', chain.enter e'⟩

/-- Calls that were made one by the other, from the first one on. -/
abbrev Active (scope : Node) (calls : List Call) : Prop :=
  calls.IsChain (Calls scope)

/-- Below a call, there are at most as many calls as templates that are not on its chain. -/
theorem length_le_of_active {call : Call} {nested : List Call} (active : Active scope (call :: nested)) :
    nested.length ≤ openCount scope call.chain := by
  induction nested generalizing call with
  | nil => exact Nat.zero_le _
  | cons next nested ih =>
    obtain ⟨calls, later⟩ := List.isChain_cons_cons.mp active
    have below := ih later
    cases calls with
    | follow _ _ found free =>
      rw [List.length_cons, ← openCount_enter found free]
      exact Nat.succ_le_succ below

/-! ## Resolution with a limit -/

/-- The value of a path text. An expression that closes no cycle is resolved first, by `run`. -/
def askGuarded (scope : Node) (run : Expression → Chain → Option Scalar) (chain : Chain)
    (reference : String) : Option (Option Literal) :=
  match leafAt? scope reference with
  | some (.literal v) => some (some v)
  | some (.expression e) =>
    if closesCycle chain e then some none else (run e (chain.enter e)).map Scalar.literal?
  | none => some none

/-- Resolves an expression with at most `limit` calls at a time. -/
def resolveWithin (scope : Node) : Nat → Expression → Chain → Option Scalar
  | 0, _, _ => none
  | limit + 1, e, chain => fillAsking (askGuarded scope (resolveWithin scope limit) chain) e

/-- The limit is never met if it is above the number of open templates. -/
theorem resolveWithin_eq {limit : Nat} (enough : openCount scope chain < limit) :
    resolveWithin scope limit e chain = some (resolve scope e chain) := by
  induction limit generalizing e chain with
  | zero => exact absurd enough (Nat.not_lt_zero _)
  | succ limit ih =>
    have answers : askGuarded scope (resolveWithin scope limit) chain =
        fun reference => some (lookup scope chain reference) := by
      funext reference
      unfold askGuarded
      match found : leafAt? scope reference with
      | none => rw [lookup_of_none found]
      | some (.literal v) => rw [lookup_of_literal found]
      | some (.expression e') =>
        cases free : closesCycle chain e' with
        | true => simp [free, lookup_of_cycle found free]
        | false =>
          -- what is entered has a lower limit, and one template less is open for it
          have less := openCount_enter found free
          have below : openCount scope (chain.enter e') < limit := by omega
          simp [free, ih below, lookup_of_expression found free]
    rw [resolveWithin, answers, fillAsking_some, resolve]

/-- Resolves a leaf with at most `limit` calls at a time. -/
def resolveScalarWithin (scope : Node) (limit : Nat) : Scalar → Option Scalar
  | .literal v => some (.literal v)
  | .expression e => resolveWithin scope limit e (Chain.enter [] e)

theorem resolveScalarWithin_eq {limit : Nat} (enough : openCount scope [] < limit) (s : Scalar) :
    resolveScalarWithin scope limit s = some (resolveScalar scope s) := by
  cases s with
  | literal v => rfl
  | expression e =>
    have fewer : openCount scope (Chain.enter [] e) ≤ openCount scope [] :=
      openCount_mono fun _ on => (nomatch on)
    exact resolveWithin_eq (Nat.lt_of_le_of_lt fewer enough)

/-! ## Whole trees -/

/-- A computation that comes to an end, as one that might not. -/
def ending {α : Type} (x : Result α) : ExceptT Error Option α :=
  ExceptT.mk (some x)

/-- Resolves a tree like `resolveTree`, with at most `limit` calls at a time for each leaf. -/
def resolveTreeWithin (limit : Nat) (root values : Node) (policy : UnresolvedPolicy) :
    ExceptT Error Option Node := do
  let parsed ← ending (root.mapLeaves parseLeaf .root)
  let scope ← ending (scopeOf values parsed)
  parsed.mapLeaves (fun p s => do
    let resolved ← ExceptT.lift (resolveScalarWithin scope limit s)
    ending (settle policy p resolved)) .root

theorem ending_compatible :
    Node.Compatible fun α (x : Result α) (y : ExceptT Error Option α) => ending x = y := by
  refine ⟨fun _ => rfl, ?_⟩
  intro α β x y next next' first later
  subst first
  cases x with
  | error e => rfl
  | ok a => exact later a

/-- For every pair of trees there is a limit that is never met. -/
theorem exists_limit (root values : Node) (policy : UnresolvedPolicy) :
    ∃ enough, ∀ limit ≥ enough,
      (resolveTreeWithin limit root values policy).run = some (resolveTree root values policy) := by
  cases read : root.mapLeaves parseLeaf .root with
  | error e =>
    refine ⟨0, fun limit _ => ?_⟩
    rw [resolveTreeWithin, resolveTree, read]
    rfl
  | ok parsed =>
    cases made : scopeOf values parsed with
    | error e =>
      refine ⟨0, fun limit _ => ?_⟩
      rw [resolveTreeWithin, resolveTree, read]
      show (ending (scopeOf values parsed) >>= _).run = some (scopeOf values parsed >>= _)
      rw [made]
      rfl
    | ok scope =>
      refine ⟨openCount scope [] + 1, fun limit enough => ?_⟩
      rw [resolveTreeWithin, resolveTree, read]
      show (ending (scopeOf values parsed) >>= _).run = some (scopeOf values parsed >>= _)
      rw [made]
      refine congrArg ExceptT.run (Node.mapLeaves_related ending_compatible fun leaf _ => ?_).symm
      rw [resolveScalarWithin_eq enough]
      rfl

/-- Resolution comes to an end for every scope, expression and chain. At any time there are at most as many
calls as there are different templates in the scope that are not on the chain, and one more; so this
limit makes no difference. And for every pair of trees there is a limit that makes none. -/
theorem resolution_terminates :
    (∀ (scope : Node) (e : Expression) (chain : Chain) (nested : List Call),
      Active scope (⟨e, chain⟩ :: nested) →
        List.length (⟨e, chain⟩ :: nested) ≤ 1 + openCount scope chain) ∧
    (∀ (scope : Node) (e : Expression) (chain : Chain),
      resolveWithin scope (1 + openCount scope chain) e chain = some (resolve scope e chain)) ∧
    ∀ (root values : Node) (policy : UnresolvedPolicy), ∃ enough, ∀ limit ≥ enough,
      (resolveTreeWithin limit root values policy).run = some (resolveTree root values policy) := by
  refine ⟨fun scope e chain nested active => ?_, fun scope e chain => ?_, exists_limit⟩
  · have below : nested.length ≤ openCount scope chain := length_le_of_active active
    rw [List.length_cons]
    omega
  · exact resolveWithin_eq (by omega)

/-- Two leaves that refer to each other. All three calls that there may be are made, and with a lower limit
there is no result. -/
theorem resolution_terminates_cycle :
    let toA : Expression := ⟨"${a}", [.reference "a" ["a"]]⟩
    let toB : Expression := ⟨"${b}", [.reference "b" ["b"]]⟩
    let scope : Node := .map [("a", .leaf (.expression toB)), ("b", .leaf (.expression toA))]
    let calls : List Call := [⟨toA, []⟩, ⟨toB, ["${b}"]⟩, ⟨toA, ["${a}", "${b}"]⟩]
    Active scope calls ∧ calls.length = 3 ∧ calls.length ≤ 1 + openCount scope [] ∧
      openCount scope [] = 2 ∧ resolveWithin scope 2 toA [] = none ∧
      resolveWithin scope 3 toA [] = some (resolve scope toA []) := by
  intro toA toB scope calls
  have atA : leafAt? scope "a" = some (.expression toB) := by cbv
  have atB : leafAt? scope "b" = some (.expression toA) := by cbv
  have active : Active scope calls := by
    refine .cons_cons (.follow List.mem_cons_self List.mem_cons_self atA rfl) ?_
    exact .cons_cons (.follow List.mem_cons_self List.mem_cons_self atB rfl) (.singleton _)
  have two : openCount scope [] = 2 := by decide
  have limited := resolution_terminates.2.1 scope toA []
  rw [two] at limited
  exact ⟨active, rfl, resolution_terminates.1 scope toA [] _ active, two, by cbv, limited⟩

end Resolution

end LayeredConfig
