import LayeredConfig.Expression.Template
import LayeredConfig.Node.Leaves
import LayeredConfig.Node.Merge
import LayeredConfig.Path.Parser

/-!
# Resolving expressions

A reference stands for the leaf at the first of its alternatives that has a value; if there are several
alternatives and none has a value, for the text of the last. A leaf that is itself an expression is
resolved first. The templates of the expressions that are being resolved form a chain, and a leaf whose
template is on the chain counts as absent, so leaves that refer to each other come to an end.

* `lookup` is the recursion; it ends because every step adds a template of the scope to the chain
  (`open_lt`);
* `resolveTree` resolves all leaves of a tree.
-/

namespace LayeredConfig

namespace Resolution

/-- The templates of the expressions that are being resolved, the last one first. -/
abbrev Chain := List String

/-- Would resolving `e` close a cycle? -/
def closesCycle (chain : Chain) (e : Expression) : Bool :=
  chain.contains e.template

/-- The chain of someone who resolves `e` next. -/
def Chain.enter (chain : Chain) (e : Expression) : Chain :=
  e.template :: chain

/-- The template of a leaf with an expression. -/
def template? : Scalar → Option String
  | .literal _ => none
  | .expression e => some e.template

/-- The templates of all expressions in a tree. -/
def templates (scope : Node) : List String :=
  (scope.leaves .root).filterMap fun leaf => template? leaf.2

/-- The templates of a tree that are not on the chain. -/
def openTemplates (scope : Node) (chain : Chain) : List String :=
  (templates scope).filter fun t => !chain.contains t

/-- The leaf that a text refers to. A text that is no path, or the path of the root, refers to none. -/
def leafAt? (scope : Node) (reference : String) : Option Scalar :=
  match Path.parse reference with
  | .ok (step :: rest) => (scope.get? (step :: rest)).bind Node.scalar?
  | _ => none

/-- The value of a reference, given the value of each path text. The last of several alternatives is a
text to fall back to. -/
def choose (value? : String → Option Literal) (alternatives : List String) : Option Literal :=
  match alternatives.findSome? value? with
  | some v => some v
  | none =>
    match alternatives with
    | _ :: other :: rest => some (.string ((other :: rest).getLast (by simp)))
    | _ => none

/-- The segment with its reference replaced by a value, if it has one. -/
def fillSegment (value? : String → Option Literal) : Segment → Segment
  | .fixed v => .fixed v
  | .reference source alternatives =>
    match choose value? alternatives with
    | some v => .fixed v
    | none => .reference source alternatives

/-- The expression with as many references replaced as have a value. -/
def fillExpression (value? : String → Option Literal) (e : Expression) : Scalar :=
  Expression.toScalar { e with segments := e.segments.map (fillSegment value?) }

theorem mem_templates_of_leafAt? {scope : Node} {reference : String} {e : Expression}
    (h : leafAt? scope reference = some (.expression e)) : e.template ∈ templates scope := by
  unfold leafAt? at h
  split at h
  · next step rest _ =>
    obtain ⟨node, found, isLeaf⟩ := Option.bind_eq_some_iff.mp h
    cases node with
    | map es => simp [Node.scalar?] at isLeaf
    | list xs => simp [Node.scalar?] at isLeaf
    | leaf s =>
      simp only [Node.scalar?, Option.some.injEq] at isLeaf
      subst isLeaf
      exact List.mem_filterMap.mpr ⟨_, Node.mem_leaves_of_get? .root found, rfl⟩
  · simp at h

/-- Entering an expression of the scope leaves fewer templates open. -/
theorem open_lt {scope : Node} {chain : Chain} {reference : String} {e : Expression}
    (found : leafAt? scope reference = some (.expression e))
    (free : ¬ closesCycle chain e = true) :
    (openTemplates scope (Chain.enter chain e)).length < (openTemplates scope chain).length := by
  have mem := mem_templates_of_leafAt? found
  have sub : openTemplates scope (Chain.enter chain e) =
      (openTemplates scope chain).filter fun t => !(t == e.template) := by
    simp only [openTemplates, List.filter_filter]
    congr 1
    funext t
    simp only [Chain.enter, List.contains_cons, Bool.not_or]
  rw [sub]
  refine List.length_filter_lt_length_iff_exists.mpr ⟨e.template, ?_, by simp⟩
  exact List.mem_filter.mpr ⟨mem, by simpa [closesCycle] using free⟩

set_option linter.unusedVariables false in
/-- The value that a path text has in the scope, while the templates on the chain are being resolved.
An expression is resolved first and has no value if a reference is left in it. -/
def lookup (scope : Node) (chain : Chain) (reference : String) : Option Literal :=
  match found : leafAt? scope reference with
  | some (.literal v) => some v
  | some (.expression e) =>
    if free : closesCycle chain e then none
    else
      match fillExpression (lookup scope (Chain.enter chain e)) e with
      | .literal v => some v
      | .expression _ => none
  | none => none
termination_by (openTemplates scope chain).length
decreasing_by exact open_lt found free

/-- Resolves an expression as far as possible, while the templates on the chain are being resolved. -/
def resolve (scope : Node) (e : Expression) (chain : Chain) : Scalar :=
  fillExpression (lookup scope chain) e

/-- Resolves a leaf. A literal stays as it is. -/
def resolveScalar (scope : Node) : Scalar → Scalar
  | .literal v => .literal v
  | .expression e => resolve scope e (Chain.enter [] e)

end Resolution

/-- What becomes of a leaf with a reference that has no value. -/
inductive UnresolvedPolicy where
  /-- It is an error. -/
  | fail
  /-- The leaf keeps its template as a text. -/
  | unwrap
deriving DecidableEq, Repr

namespace Resolution

/-- Reads the leaf at `p` as a template, if it is one. -/
def parseLeaf (p : Path) (s : Scalar) : Result Scalar :=
  s.parse.mapError (·.withPath p.text)

/-- The leaf at `p` after resolution. -/
def settle (policy : UnresolvedPolicy) (p : Path) : Scalar → Result Scalar
  | .literal v => .ok (.literal v)
  | .expression e =>
    match policy with
    | .fail => .error (.unresolvedExpression p.text e.template)
    | .unwrap => .ok (.literal (.string e.template))

/-- The tree in which references are looked up: the given values, and the tree itself where they have
nothing. -/
def scopeOf (values parsed : Node) : Result Node :=
  (values.withDefaults parsed).mapLeaves parseLeaf .root

end Resolution

open Resolution in
/-- Resolves all expressions of a tree. References see the given values in front of the tree. -/
def resolveTree (root values : Node) (policy : UnresolvedPolicy) : Result Node := do
  let parsed ← root.mapLeaves parseLeaf .root
  let scope ← scopeOf values parsed
  parsed.mapLeaves (fun p s => settle policy p (resolveScalar scope s)) .root

end LayeredConfig
