import LayeredConfig.Proofs.Resolution.Lookup
import LayeredConfig.Proofs.Resolution.Preparation
import Mathlib

/-!
# What a reference to a leaf stands for

A leaf that consists of one reference should end up with the value of the leaf that it refers to.
`resolveTree` reads the leaves of a tree as templates, and resolves the result. The scope in which
references are looked up comes from the same leaves, but these are read as templates once more there. So
the reference ends up with what the referenced leaf means when it is read twice.

`resolveTree_reference` says which values the two leaves get and when they are the same: always, unless
the first reading leaves a text that opens a reference, as `$\{x}${}` does. Then the values agree only
if that text happens to resolve to itself. `resolveTree_reads_twice` is a tree where they differ.
-/

namespace LayeredConfig

namespace Resolution

/-! ## The chain below a referenced leaf

Let `ref` be an expression with a single reference, to a leaf with the expression `target`. While `target`
is being resolved `ref` has no value, whether or not its own template is on the chain. -/

section Chain

variable {scope : Node} {target ref : Expression} {source text : String} {chain chain' : Chain}

theorem lookup_ref_eq_none (leads : leafAt? scope text = some (.expression target))
    (single : ref.segments = [.reference source [text]]) (entered : target.template ∈ chain)
    {r : String} (found : leafAt? scope r = some (.expression ref)) : lookup scope chain r = none := by
  cases free : closesCycle chain ref with
  | true => exact lookup_of_cycle found free
  | false =>
    have cycle : closesCycle (chain.enter ref) target = true :=
      closesCycle_iff.mpr (mem_enter_iff.mpr (.inr entered))
    rw [lookup_of_expression found free, resolve, fillExpression_single single, choose_single,
      lookup_of_cycle leads cycle]
    rfl

/-- Two chains with the template of `target` give the same values if they agree up to the template of
`ref`. -/
theorem lookup_congr (leads : leafAt? scope text = some (.expression target))
    (single : ref.segments = [.reference source [text]])
    (only : ∀ r e, leafAt? scope r = some (.expression e) → e.template = ref.template → e = ref)
    (agree : ∀ t ≠ ref.template, t ∈ chain ↔ t ∈ chain') (entered : target.template ∈ chain)
    (entered' : target.template ∈ chain') (r : String) :
    lookup scope chain r = lookup scope chain' r := by
  have guard : ∀ e : Expression, e.template ≠ ref.template →
      ∀ {chain chain'}, (∀ t ≠ ref.template, t ∈ chain ↔ t ∈ chain') →
        closesCycle chain' e = closesCycle chain e := by
    intro e differ chain chain' agree
    rw [Bool.eq_iff_iff, closesCycle_iff, closesCycle_iff]
    exact (agree e.template differ).symm
  induction chain, r using lookup_induction scope generalizing chain' with
  | none chain r found => rw [lookup_of_none found, lookup_of_none found]
  | literal chain r v found => rw [lookup_of_literal found, lookup_of_literal found]
  | cycle chain r e found closes =>
    -- the guard may fire for `ref` on one chain only, but then `ref` has no value on the other
    by_cases same : e.template = ref.template
    · cases only r e found same
      rw [lookup_of_cycle found closes, lookup_ref_eq_none leads single entered' found]
    · have closes' := (guard e same agree).trans closes
      rw [lookup_of_cycle found closes, lookup_of_cycle found closes']
  | enter chain r e found free ih =>
    by_cases same : e.template = ref.template
    · cases only r e found same
      rw [lookup_ref_eq_none leads single entered found,
        lookup_ref_eq_none leads single entered' found]
    · have free' := (guard e same agree).trans free
      have values : lookup scope (chain.enter e) = lookup scope (chain'.enter e) := by
        funext r'
        refine ih r' (fun t differ => ?_) (mem_enter_iff.mpr (.inr entered))
          (mem_enter_iff.mpr (.inr entered'))
        rw [mem_enter_iff, mem_enter_iff, agree t differ]
      rw [lookup_of_expression found free, lookup_of_expression found free', resolve, resolve, values]

/-- If a single reference has a value, it is the one that the leaf it refers to has on its own. -/
theorem resolveScalar_of_lookup {leaf : Scalar} {v : Literal}
    (leads : leafAt? scope text = some leaf) (single : ref.segments = [.reference source [text]])
    (only : ∀ r e, leafAt? scope r = some (.expression e) → e.template = ref.template → e = ref)
    (value : lookup scope (Chain.enter [] ref) text = some v) :
    resolveScalar scope leaf = .literal v := by
  cases leaf with
  | literal w =>
    rw [lookup_of_literal leads] at value
    cases value
    rfl
  | expression target =>
    have free : closesCycle (Chain.enter [] ref) target = false := by
      rw [Bool.eq_false_iff]
      intro cycle
      rw [lookup_of_cycle leads cycle] at value
      cases value
    -- the template of `ref` is on the chain on the left only
    have values : lookup scope (Chain.enter (Chain.enter [] ref) target) =
        lookup scope (Chain.enter [] target) := by
      funext r
      refine lookup_congr leads single only ?_ List.mem_cons_self List.mem_cons_self r
      intro t differ
      simp [mem_enter_iff, differ]
    rw [lookup_of_expression leads free, resolve, values] at value
    rw [resolveScalar, resolve]
    cases resolved : fillExpression (lookup scope (Chain.enter [] target)) target with
    | literal w =>
      rw [resolved] at value
      cases value
      rfl
    | expression left =>
      rw [resolved] at value
      cases value

end Chain

/-! ## The two readings of a tree -/

section Readings

variable {p : Path} {s t : Scalar}

/-- Where references without a value are errors, a leaf is left with its value. -/
theorem settle_fail_eq_ok (settled : settle .fail p s = .ok t) : t = s ∧ ∃ v, s = .literal v := by
  cases s with
  | literal v =>
    cases settled
    exact ⟨rfl, v, rfl⟩
  | expression e => cases settled

/-- Without given values, the scope has what the tree has. -/
theorem get?_empty_withDefaults {n m : Node} {step : Step} {rest : Path}
    (found : (Node.empty.withDefaults n).get? (step :: rest) = some m) :
    n.get? (step :: rest) = some m := by
  cases n with
  | map es =>
    have same : Node.empty.withDefaults (.map es) = .map es := by
      simp [Node.empty, Node.withDefaults, Node.mergeEntries, Entries.get?]
    rwa [same] at found
  | list xs => cases step <;> cases found
  | leaf s => cases step <;> cases found

variable {root parsed scope : Node} {reference : String} {e : Expression}

/-- What is found in the scope is a leaf of the tree that is read once more. -/
theorem leaf_of_leafAt? (made : scopeOf .empty parsed = .ok scope)
    (found : leafAt? scope reference = some t) :
    ∃ path s, Path.parse reference = .ok path ∧ parsed.get? path = some (.leaf s) ∧
      s.parse = .ok t := by
  obtain ⟨step, rest, parses, leads⟩ := leafAt?_eq_some_iff.mp found
  obtain ⟨s, before, read⟩ := (Node.mapped_of_mapLeaves_ok made).leaf leads
  exact ⟨step :: rest, s, parses, get?_empty_withDefaults before, parseLeaf_eq_ok_iff.mp read⟩

/-- Reading the leaves twice gives no other expressions than reading can give. -/
theorem arises_of_leafAt?
    (arise : ∀ path e, root.get? path = some (.leaf (.expression e)) → e.Arises)
    (read : root.mapLeaves parseLeaf .root = .ok parsed) (made : scopeOf .empty parsed = .ok scope)
    (found : leafAt? scope reference = some (.expression e)) : e.Arises := by
  obtain ⟨path, s₁, -, leads, again⟩ := leaf_of_leafAt? made found
  obtain ⟨s₀, start, first⟩ := (Node.mapped_of_mapLeaves_ok read).leaf leads
  refine arises_of_parse (fun e₁ same => ?_) again e rfl
  refine arises_of_parse (fun e₀ same => ?_) (parseLeaf_eq_ok_iff.mp first) e₁ same
  exact arise path e₀ (same ▸ start)

theorem resolveScalar_single {template source text : String} :
    resolveScalar scope (.expression ⟨template, [.reference source [text]]⟩) =
      match lookup scope [template] text with
      | some v => .literal v
      | none => .expression ⟨template, [.reference source [text]]⟩ := by
  rw [resolveScalar, resolve, fillExpression_single rfl, choose_single]
  rfl

/-- Where references without a value are errors, every leaf gets the value that it resolves to. -/
theorem leaf_settled {resolved : Node} {p : Path}
    (done : parsed.mapLeaves (fun p s => settle .fail p (resolveScalar scope s)) .root = .ok resolved)
    (leaf : parsed.get? p = some (.leaf s)) :
    resolved.get? p = some (.leaf (resolveScalar scope s)) ∧
      ∃ v, resolveScalar scope s = .literal v := by
  obtain ⟨t, there, settled⟩ := (Node.mapped_of_mapLeaves_ok done).leaf_of leaf
  obtain ⟨rfl, value⟩ := settle_fail_eq_ok settled
  exact ⟨there, value⟩

/-- A single reference that has a value has the value of the leaf it refers to, read once more. -/
theorem resolveScalar_reference {p : Path} {once : Scalar} {template source : String} {v : Literal}
    (arise : ∀ path e, root.get? path = some (.leaf (.expression e)) → e.Arises)
    (read : root.mapLeaves parseLeaf .root = .ok parsed) (made : scopeOf .empty parsed = .ok scope)
    (parses : Path.parse p.text = .ok p) (leaf : parsed.get? p = some (.leaf once))
    (refers : Expression.parse template = .ok ⟨template, [.reference source [p.text]]⟩)
    (value : resolveScalar scope (.expression ⟨template, [.reference source [p.text]]⟩) = .literal v) :
    ∃ twice, once.parse = .ok twice ∧ resolveScalar scope twice = .literal v := by
  rw [resolveScalar_single] at value
  cases looked : lookup scope [template] p.text with
  | none =>
    rw [looked] at value
    cases value
  | some w =>
    rw [looked] at value
    cases value
    cases found : leafAt? scope p.text with
    | none =>
      rw [lookup_of_none found] at looked
      cases looked
    | some twice =>
      obtain ⟨path, s, parses', before, again⟩ := leaf_of_leafAt? made found
      cases parses.symm.trans parses'
      cases leaf.symm.trans before
      let ref : Expression := ⟨template, [.reference source [p.text]]⟩
      have value : lookup scope (Chain.enter [] ref) p.text = some v := looked
      refine ⟨twice, again, resolveScalar_of_lookup found rfl (fun r e there same => ?_) value⟩
      exact (arises_of_leafAt? arise read made there).eq_single (same ▸ refers) rfl

/-- Reading a leaf once more makes no difference unless the first reading left a template. -/
theorem resolveScalar_again_iff {once twice : Scalar} (again : once.parse = .ok twice) :
    resolveScalar scope twice = resolveScalar scope once ↔
      ∀ text, once = .literal (.string text) → Template.opensReference text.toList = true →
        resolveScalar scope twice = .literal (.string text) := by
  constructor
  · rintro same text rfl -
    exact same
  · intro itself
    by_cases template : ∃ text, once = .literal (.string text) ∧
        Template.opensReference text.toList = true
    · obtain ⟨text, rfl, opens⟩ := template
      exact itself text rfl opens
    · have plain : ∀ text, once = .literal (.string text) →
          Template.opensReference text.toList = false := by
        intro text same
        rw [Bool.eq_false_iff]
        exact fun opens => template ⟨text, same, opens⟩
      cases (Scalar.parse_of_plain plain).symm.trans again
      rfl

end Readings

/-! ## References -/

/-- Suppose that all expressions of a tree can be resolved, and that one leaf holds a template with a
single reference, to the path of another one. Then the referenced leaf gets the value that it has when it
is read `once`, and the reference the value that it has when it is read `twice`. They are the same exactly
if any text left by the first reading that opens a reference again resolves to itself. -/
theorem resolveTree_reference {root resolved : Node} {p q : Path} {s : Scalar}
    {template source : String}
    (arise : ∀ path e, root.get? path = some (.leaf (.expression e)) → e.Arises)
    (done : resolveTree root .empty .fail = .ok resolved)
    (parses : Path.parse p.text = .ok p)
    (leaf : root.get? p = some (.leaf s))
    (leaf' : root.get? q = some (.leaf (.literal (.string template))))
    (refers : Expression.parse template = .ok ⟨template, [.reference source [p.text]]⟩) :
    ∃ parsed scope once twice, root.mapLeaves parseLeaf .root = .ok parsed ∧
      scopeOf .empty parsed = .ok scope ∧ s.parse = .ok once ∧ once.parse = .ok twice ∧
      resolved.get? p = some (.leaf (resolveScalar scope once)) ∧
      resolved.get? q = some (.leaf (resolveScalar scope twice)) ∧
      (resolved.get? q = resolved.get? p ↔
        ∀ text, once = .literal (.string text) → Template.opensReference text.toList = true →
          resolveScalar scope twice = .literal (.string text)) := by
  obtain ⟨parsed, read, done⟩ := bind_eq_ok.mp done
  obtain ⟨scope, made, settled⟩ := bind_eq_ok.mp done
  -- the referenced leaf, read and resolved
  obtain ⟨once, leafOnce, readOnce⟩ := leaf_parsed read leaf
  obtain ⟨leafDone, -⟩ := leaf_settled settled leafOnce
  -- the reference, read and resolved
  obtain ⟨ref, leafRef, readRef⟩ := leaf_parsed read leaf'
  cases readRef.symm.trans (Scalar.parse_of_single refers)
  obtain ⟨refDone, v, value⟩ := leaf_settled settled leafRef
  obtain ⟨twice, readTwice, agrees⟩ :=
    resolveScalar_reference arise read made parses leafOnce refers value
  rw [value, ← agrees] at refDone
  refine ⟨parsed, scope, once, twice, read, made, readOnce, readTwice, leafDone, refDone, ?_⟩
  rw [leafDone, refDone, Option.some.injEq, Node.leaf.injEq]
  exact resolveScalar_again_iff readTwice

/-- A reference to a leaf that is a reference with alternatives. -/
theorem resolveTree_reference_alternatives :
    let five : Node := .leaf (.literal (.integer 5))
    let root : Node := .map [("x", five), ("p", .leaf (.literal (.string "${y?x}"))),
      ("q", .leaf (.literal (.string "${p}")))]
    ∃ resolved, resolveTree root .empty .fail = .ok resolved ∧
      resolved.get? [.name "q"] = resolved.get? [.name "p"] := by
  intro five root
  have done : resolveTree root .empty .fail = .ok (.map [("x", five), ("p", five), ("q", five)]) := by
    cbv
  have arise : ∀ path e, root.get? path = some (.leaf (.expression e)) → e.Arises := by
    intro path e leads
    have mem := Node.mem_leaves_of_get? .root leads
    simp [root, five, Node.leaves, Node.leavesOfEntries] at mem
  have refers : Expression.parse "${p}" = .ok ⟨"${p}", [.reference "p" ["p"]]⟩ := by cbv
  have readP : (Scalar.literal (.string "${y?x}")).parse =
      .ok (.expression ⟨"${y?x}", [.reference "y?x" ["y", "x"]]⟩) := by cbv
  obtain ⟨_, _, once, _, -, -, read, -, -, -, same⟩ :=
    resolveTree_reference (p := [.name "p"]) (q := [.name "q"]) arise done (by cbv) rfl rfl refers
  refine ⟨_, done, same.mpr fun text template => ?_⟩
  cases template
  cases read.symm.trans readP

/-- In `p` the braces of a reference have lost their meaning, so its value is a text. The reference `q` to
`p` does not get that text, but the value of what would be a reference without the backslash. -/
theorem resolveTree_reads_twice :
    let five : Node := .leaf (.literal (.integer 5))
    let root : Node := .map [("x", five), ("p", .leaf (.literal (.string "$\\{x}${}"))),
      ("q", .leaf (.literal (.string "${p}")))]
    Expression.parse "${p}" = .ok ⟨"${p}", [.reference "p" [Path.text [.name "p"]]]⟩ ∧
    ∃ resolved, resolveTree root .empty .fail = .ok resolved ∧
      resolved.get? [.name "p"] = some (.leaf (.literal (.string "${x}"))) ∧
      resolved.get? [.name "q"] = some five ∧
      resolved.get? [.name "q"] ≠ resolved.get? [.name "p"] := by
  intro five root
  have done : resolveTree root .empty .fail = .ok (.map [("x", five),
      ("p", .leaf (.literal (.string "${x}"))), ("q", five)]) := by
    cbv
  refine ⟨by cbv, _, done, rfl, rfl, ?_⟩
  show some five ≠ some (.leaf (.literal (.string "${x}")))
  intro same
  exact absurd (Node.leaf.inj (Option.some.inj same)) (by decide)

end Resolution

end LayeredConfig
