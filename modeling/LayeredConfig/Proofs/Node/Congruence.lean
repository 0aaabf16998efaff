import LayeredConfig.Proofs.Computation
import LayeredConfig.Proofs.Node.Equal
import LayeredConfig.Proofs.Node.Filter
import LayeredConfig.Proofs.Node.Leaves
import LayeredConfig.Proofs.Node.Merge
import LayeredConfig.Proofs.Node.Visits
import LayeredConfig.Proofs.Node.Write

/-!
# Operations on equal trees

Every operation keeps the order of the entries of maps, but none depends on it. From equal trees each makes
equal trees, or it leaves nothing of both, or it fails on both.

There is one lemma for each operation. Operations that follow a path are compared step by step, and those
that work on all children by `Equal.induction`.
-/

namespace LayeredConfig.Node

variable {n n' m m' child child' other other' : Node} {es fs : List (String × Node)}
  {xs ys : List Node} {i : Nat} {p : Path}

/-! ## Containers with other children -/

theorem Equal.put (same : (Node.map es).Equal (.map fs)) (k : String) (new : child.Equal child') :
    (Node.map (Entries.put es k child)).Equal (.map (Entries.put fs k child')) := by
  obtain ⟨distinct, distinct', each⟩ := equal_map_iff.mp same
  refine equal_map_iff.mpr ⟨Entries.nodup_keys_put distinct k child,
    Entries.nodup_keys_put distinct' k child', fun other => ?_⟩
  rw [Entries.get?_put, Entries.get?_put]
  split
  · exact .some new
  · exact each other

theorem Equal.erase (same : (Node.map es).Equal (.map fs)) (k : String) :
    (Node.map (Entries.erase es k)).Equal (.map (Entries.erase fs k)) := by
  obtain ⟨distinct, distinct', each⟩ := equal_map_iff.mp same
  refine equal_map_iff.mpr ⟨Entries.nodup_keys_of_sublist (Entries.erase_sublist es k) distinct,
    Entries.nodup_keys_of_sublist (Entries.erase_sublist fs k) distinct', fun other => ?_⟩
  rw [Entries.get?_erase distinct, Entries.get?_erase distinct']
  split
  · exact .none
  · exact each other

theorem Equal.set (same : (Node.list xs).Equal (.list ys)) (i : Nat) (new : child.Equal child') :
    (Node.list (xs.set i child)).Equal (.list (ys.set i child')) := by
  have length := (equal_list_iff.mp same).length_eq
  refine equal_list_iff.mpr (forall₂_iff_getElem?.mpr fun j => ?_)
  rw [List.getElem?_set, List.getElem?_set, length]
  split
  · split
    · exact .some new
    · exact .none
  · exact same.element j

theorem Equal.eraseIdx (same : (Node.list xs).Equal (.list ys)) (i : Nat) :
    (Node.list (xs.eraseIdx i)).Equal (.list (ys.eraseIdx i)) := by
  refine equal_list_iff.mpr (forall₂_iff_getElem?.mpr fun j => ?_)
  rw [List.getElem?_eraseIdx, List.getElem?_eraseIdx]
  split
  · exact same.element j
  · exact same.element (j + 1)

theorem Equal.append (same : (Node.list xs).Equal (.list ys)) (new : child.Equal child') :
    (Node.list (xs ++ [child])).Equal (.list (ys ++ [child'])) :=
  equal_list_iff.mpr (List.rel_append (equal_list_iff.mp same) (.cons new .nil))

theorem equal_empty : Node.empty.Equal .empty :=
  equal_map_iff.mpr ⟨List.nodup_nil, List.nodup_nil, fun _ => .none⟩

/-! ## Writing -/

section Write

variable {build build' : Path → Result Node}

theorem Equal.accepts (same : n.Equal n') (step : Step) : n'.accepts step = n.accepts step := by
  induction same using Equal.induction with
  | leaf s => rfl
  | map es fs => cases step <;> rfl
  | list xs ys => cases step <;> rfl

theorem Equal.wrap (same : n.Equal n') (full path : Path) :
    SameOutcome Error.SameKind Equal (Node.wrap full n path) (Node.wrap full n' path) := by
  induction path with
  | nil => exact .ok same
  | cons step rest ih =>
    cases step with
    | name k =>
      rw [Node.wrap, Node.wrap]
      exact ih.bind_pure fun _ _ below => equal_empty.put k below
    | index i =>
      rw [Node.wrap, Node.wrap]
      refine ih.bind fun _ _ below => ?_
      split
      · exact .ok (equal_list_iff.mpr (.cons below .nil))
      · exact .error rfl

/-- New nodes are built equal: equal trees, or errors of one kind. -/
theorem fresh_equal (each : ∀ at_, SameOutcome Error.SameKind Equal (build at_) (build' at_))
    (place path : Path) :
    SameOutcome Error.SameKind Equal (fresh build place path) (fresh build' place path) := by
  rw [fresh, fresh]
  exact (each _).bind fun _ _ same => same.wrap _ path

/-- A write makes equal trees of equal trees, or is refused for the same kind of reason. -/
theorem Equal.write (same : n.Equal n')
    (each : ∀ at_, SameOutcome Error.SameKind Equal (build at_) (build' at_)) (place path : Path) :
    SameOutcome Error.SameKind Equal (n.put build place path) (n'.put build' place path) := by
  induction path generalizing n n' place with
  | nil =>
    rw [put_nil, put_nil]
    exact each place
  | cons step rest ih =>
    cases kind : n.accepts step with
    | false =>
      rw [put_refused kind, put_refused ((same.accepts step).trans kind)]
      exact fresh_equal each place _
    | true =>
      induction same using Equal.induction with
      | leaf s => cases kind
      | map es fs same _ =>
        cases step with
        | index i => cases kind
        | name k =>
          have next := same.entry k
          rw [Node.put, Node.put]
          generalize Entries.get? es k = here, Entries.get? fs k = here' at next ⊢
          cases next with
          | none => exact (fresh_equal each _ rest).bind_pure fun _ _ below => same.put k below
          | some below => exact (ih below _).bind_pure fun _ _ below => same.put k below
      | list xs ys same _ =>
        cases step with
        | name k => cases kind
        | index i =>
          have next := same.element i
          have length := (equal_list_iff.mp same).length_eq
          rw [Node.put, Node.put, length]
          split
          · exact .error rfl
          · generalize xs[i]? = here, ys[i]? = here' at next ⊢
            cases next with
            | none => exact (fresh_equal each _ rest).bind_pure fun _ _ below => same.append below
            | some below => exact (ih below _).bind_pure fun _ _ below => same.set i below

theorem Equal.fill? (same : n.Equal n')
    (each : ∀ at_, SameOutcome Error.SameKind Equal (build at_) (build' at_)) (place path : Path) :
    SameOutcome Error.SameKind (Option.Rel Equal) (n.fill? build place path)
      (n'.fill? build' place path) := by
  induction path generalizing n n' place with
  | nil =>
    rw [Node.fill?, Node.fill?]
    exact .ok .none
  | cons step rest ih =>
    induction same using Equal.induction with
    | leaf s => cases step <;> exact .ok .none
    | map es fs same _ =>
      cases step with
      | index i => exact .ok .none
      | name k =>
        have next := same.entry k
        rw [Node.fill?, Node.fill?]
        generalize Entries.get? es k = here, Entries.get? fs k = here' at next ⊢
        cases next with
        | none =>
          cases rest.any Step.isIndex with
          | true => exact .ok .none
          | false => exact (fresh_equal each _ rest).bind_pure fun _ _ below => .some (same.put k below)
        | some below =>
          refine (ih below _).bind_pure fun _ _ below => ?_
          cases below with
          | none => exact .none
          | some below => exact .some (same.put k below)
    | list xs ys same _ =>
      cases step with
      | name k => exact .ok .none
      | index i =>
        have next := same.element i
        rw [Node.fill?, Node.fill?]
        generalize xs[i]? = here, ys[i]? = here' at next ⊢
        cases next with
        | none => exact .ok .none
        | some below =>
          refine (ih below _).bind_pure fun _ _ below => ?_
          cases below with
          | none => exact .none
          | some below => exact .some (same.set i below)

/-- So does a write where nothing is. -/
theorem Equal.fill (same : n.Equal n')
    (each : ∀ at_, SameOutcome Error.SameKind Equal (build at_) (build' at_)) (place path : Path) :
    SameOutcome Error.SameKind Equal (n.fill build place path) (n'.fill build' place path) := by
  rw [Node.fill, Node.fill]
  refine (same.fill? each place path).bind_pure fun _ _ filled => ?_
  cases filled with
  | none => exact same
  | some filled => exact filled

end Write

/-! ## Taking away -/

section Remove

variable {o : Pruning}

/-- The edits do the same to equal trees. -/
inductive SameEdit : Edit → Edit → Prop
  | unchanged : SameEdit .unchanged .unchanged
  | replaced {n n' : Node} : n.Equal n' → SameEdit (.replaced n) (.replaced n')
  | removed : SameEdit .removed .removed

theorem Equal.ofEntries (same : (Node.map es).Equal (.map fs)) (o : Pruning) :
    SameEdit (Edit.ofEntries o es) (Edit.ofEntries o fs) := by
  have empty : fs.isEmpty = es.isEmpty := same.isEmpty
  rw [Edit.ofEntries, Edit.ofEntries, empty]
  split
  · exact .removed
  · exact .replaced same

theorem Equal.ofElements (same : (Node.list xs).Equal (.list ys)) (o : Pruning) :
    SameEdit (Edit.ofElements o xs) (Edit.ofElements o ys) := by
  have empty : ys.isEmpty = xs.isEmpty := same.isEmpty
  rw [Edit.ofElements, Edit.ofElements, empty]
  split
  · exact .removed
  · exact .replaced same

theorem Equal.removeEdit (same : n.Equal n') (o : Pruning) (path : Path) :
    SameEdit (n.removeEdit o path) (n'.removeEdit o path) := by
  induction path generalizing n n' with
  | nil => induction same using Equal.induction <;> exact .unchanged
  | cons step rest ih =>
    -- at the end of the path the child goes as a whole
    have inner : ∀ {child child' : Node}, child.Equal child' →
        SameEdit (if rest.isEmpty then .removed else child.removeEdit o rest)
          (if rest.isEmpty then .removed else child'.removeEdit o rest) := by
      intro child child' below
      cases rest.isEmpty with
      | true => exact .removed
      | false => exact ih below
    induction same using Equal.induction with
    | leaf s => cases step <;> exact .unchanged
    | map es fs same _ =>
      cases step with
      | index i => exact .unchanged
      | name k =>
        have next := same.entry k
        rw [Node.removeEdit, Node.removeEdit]
        generalize Entries.get? es k = here, Entries.get? fs k = here' at next ⊢
        cases next with
        | none => exact .unchanged
        | @some child child' below =>
          have edits := inner below
          dsimp only
          generalize (if rest.isEmpty then Edit.removed else child.removeEdit o rest) = edit,
            (if rest.isEmpty then Edit.removed else child'.removeEdit o rest) = edit' at edits ⊢
          cases edits with
          | unchanged => exact .unchanged
          | replaced below => exact (same.put k below).ofEntries o
          | removed => exact (same.erase k).ofEntries o
    | list xs ys same _ =>
      cases step with
      | name k => exact .unchanged
      | index i =>
        have next := same.element i
        rw [Node.removeEdit, Node.removeEdit]
        generalize xs[i]? = here, ys[i]? = here' at next ⊢
        cases next with
        | none => exact .unchanged
        | @some child child' below =>
          have edits := inner below
          dsimp only
          generalize (if rest.isEmpty then Edit.removed else child.removeEdit o rest) = edit,
            (if rest.isEmpty then Edit.removed else child'.removeEdit o rest) = edit' at edits ⊢
          cases edits with
          | unchanged => exact .unchanged
          | replaced below => exact (same.set i below).ofElements o
          | removed => exact (same.eraseIdx i).ofElements o

/-- What is left of equal trees is equal, or nothing is left of both. -/
theorem Equal.remove (same : n.Equal n') (path : Path) (o : Pruning) :
    Option.Rel Equal (n.remove path o) (n'.remove path o) := by
  have edits := same.removeEdit o path
  rw [Node.remove, Node.remove]
  generalize n.removeEdit o path = edit, n'.removeEdit o path = edit' at edits ⊢
  cases edits with
  | unchanged => exact .some same
  | replaced below => exact .some below
  | removed => exact .none

end Remove

/-! ## Layers -/

theorem Equal.withDefaults (same : n.Equal n') (same' : other.Equal other') :
    (n.withDefaults other).Equal (n'.withDefaults other') := by
  induction same using Equal.induction generalizing other other' with
  | leaf s same =>
    rw [withDefaults_leaf, withDefaults_leaf]
    exact same
  | list xs ys same _ =>
    rw [withDefaults_list, withDefaults_list]
    exact same
  | map es fs same ih =>
    induction same' using Equal.induction with
    | leaf s => exact same
    | list ds ds' => exact same
    | map ds ds' same' _ =>
      obtain ⟨distinct, distinct', -⟩ := equal_map_iff.mp same
      obtain ⟨nodup, nodup', -⟩ := equal_map_iff.mp same'
      rw [withDefaults_maps, withDefaults_maps]
      refine equal_map_iff.mpr ⟨nodup_mergedEntries distinct nodup,
        nodup_mergedEntries distinct' nodup', fun k => ?_⟩
      have here := ih k
      have there := same'.entry k
      rw [get?_mergedEntries, get?_mergedEntries]
      generalize Entries.get? es k = child?, Entries.get? fs k = child?',
        Entries.get? ds k = default?, Entries.get? ds' k = default?' at here there ⊢
      cases here with
      | none => cases there with
        | none => exact .none
        | some default => exact .some default
      | some here =>
        obtain ⟨below, merged⟩ := here
        cases there with
        | none => exact .some below
        | some default => exact .some (merged default)

/-! ## Leaf by leaf -/

/-- Equal trees whose leaves are replaced in a way that depends on path and leaf only. -/
theorem Equal.mapped {R : Path → Scalar → Scalar → Prop}
    (unique : ∀ q s t u, R q s t → R q s u → t = u) (same : n.Equal n') (first : Mapped R p n m)
    (second : Mapped R p n' m') : m.Equal m' := by
  have keys := first.distinctKeys same.keys
  have keys' := second.distinctKeys same.keys'
  induction same using Equal.induction generalizing p m m' with
  | leaf s =>
    match m, m', first, second with
    | .leaf t, .leaf u, first, second =>
      cases unique p s t u first second
      exact equal_leaf t
  | map es fs same ih =>
    match m, m', first, second with
    | .map gs, .map gs', first, second =>
      refine equal_map_iff.mpr ⟨keys.distinct, keys'.distinct, fun k => ?_⟩
      refine rel_of_rel (ih k) (MappedEntries.get? first k) (MappedEntries.get? second k) ?_
      rintro old old' child child' found found' ⟨_, ih⟩ mapped mapped'
      exact ih mapped mapped' (keys.entry (Entries.mem_of_get? found))
        (keys'.entry (Entries.mem_of_get? found'))
  | list xs ys same ih =>
    match m, m', first, second with
    | .list zs, .list zs', first, second =>
      refine equal_list_iff.mpr (forall₂_iff_getElem?.mpr fun i => ?_)
      refine rel_of_rel (forall₂_iff_getElem?.mp ih i) (MappedElements.get? first i)
        (MappedElements.get? second i) ?_
      rintro old old' child child' found found' ⟨_, ih⟩ mapped mapped'
      exact ih mapped mapped' (keys.element (List.mem_of_getElem? found))
        (keys'.element (List.mem_of_getElem? found'))

/-- Replacing the leaves of equal trees succeeds on both or fails on both. It may be another leaf that
fails first, so `E` has to relate any two errors. -/
theorem Equal.mapLeaves {ε : Type} {E : ε → ε → Prop} {f : Path → Scalar → Except ε Scalar}
    (errors : ∀ q s q' s' e e', f q s = .error e → f q' s' = .error e' → E e e') (same : n.Equal n')
    (p : Path) : SameOutcome E Equal (n.mapLeaves f p) (n'.mapLeaves f p) := by
  cases first : n.mapLeaves f p with
  | ok m =>
    cases second : n'.mapLeaves f p with
    | ok m' =>
      refine .ok (same.mapped (fun q s t u left right => ?_) (mapped_of_mapLeaves_ok first)
        (mapped_of_mapLeaves_ok second))
      exact Except.ok.inj (left.symm.trans right)
    | error e =>
      obtain ⟨q, s, mem, failed⟩ := exists_of_mapLeaves_error second
      obtain ⟨e', failed'⟩ := mapLeaves_error_of_leaf (same.symm.leaves_subset mem) failed
      cases first.symm.trans failed'
  | error e =>
    obtain ⟨q, s, mem, failed⟩ := exists_of_mapLeaves_error first
    obtain ⟨e', second⟩ := mapLeaves_error_of_leaf (same.leaves_subset mem) failed
    obtain ⟨q', s', -, failed'⟩ := exists_of_mapLeaves_error second
    rw [second]
    exact .error (errors q s q' s' e e' failed failed')

section Filter

variable {keep : Path → Scalar → Bool} {o : Pruning}

theorem keys_siftEntries_sublist (es : List (String × Node)) :
    List.Sublist (Entries.keys (siftEntries keep o p es)) (Entries.keys es) := by
  induction es with
  | nil => exact List.Sublist.refl _
  | cons entry rest ih =>
    obtain ⟨k, child⟩ := entry
    rw [siftEntries]
    cases child.sift keep o (p.key k) with
    | none => exact ih.cons k
    | some left => exact ih.cons_cons k

/-- What is left of the entry with a key. -/
theorem get?_siftEntries (distinct : (Entries.keys es).Nodup) (k : String) :
    Entries.get? (siftEntries keep o p es) k =
      (Entries.get? es k).bind fun child => child.sift keep o (p.key k) := by
  induction es with
  | nil => rfl
  | cons entry rest ih =>
    obtain ⟨k', child⟩ := entry
    simp only [Entries.keys, List.map_cons, List.nodup_cons] at distinct
    have later := ih distinct.2
    rw [siftEntries, Entries.get?]
    by_cases same : k' = k
    · subst same
      -- no other entry has the key of one that goes
      have missing : Entries.get? rest k' = none := Entries.get?_eq_none_iff.mpr distinct.1
      rw [missing] at later
      rw [if_pos rfl]
      cases left : child.sift keep o (p.key k') with
      | none => simpa [left] using later
      | some left' => simp [left, Entries.get?]
    · rw [if_neg same]
      cases child.sift keep o (p.key k') with
      | none => exact later
      | some left =>
        rw [Entries.get?, if_neg same]
        exact later

theorem Equal.keep? (same : n.Equal n') (o : Pruning) :
    Option.Rel Equal (o.keep? n) (o.keep? n') := by
  have prunes : o.prunes n' = o.prunes n := by
    induction same using Equal.induction with
    | leaf s => rfl
    | map es fs same _ => exact congrArg (· && o.maps) same.isEmpty
    | list xs ys same _ => exact congrArg (· && o.lists) same.isEmpty
  rw [Pruning.keep?, Pruning.keep?, prunes]
  split
  · exact .none
  · exact .some same

theorem siftElements_equal
    (each : List.Forall₂ (fun x y : Node => ∀ q,
      Option.Rel Equal (x.sift keep o q) (y.sift keep o q)) xs ys) :
    List.Forall₂ Equal (siftElements keep o p i xs) (siftElements keep o p i ys) := by
  induction each generalizing i with
  | nil => exact .nil
  | @cons x y _ _ here _ ih =>
    have first := here (p.index i)
    rw [siftElements, siftElements]
    generalize x.sift keep o (p.index i) = left, y.sift keep o (p.index i) = left' at first ⊢
    cases first with
    | none => exact ih
    | some same => exact .cons same ih

theorem Equal.sift (same : n.Equal n') (p : Path) :
    Option.Rel Equal (n.sift keep o p) (n'.sift keep o p) := by
  induction same using Equal.induction generalizing p with
  | leaf s same =>
    rw [Node.sift]
    cases keep p s with
    | true => exact .some same
    | false => exact .none
  | map es fs same ih =>
    obtain ⟨distinct, distinct', -⟩ := equal_map_iff.mp same
    rw [Node.sift, Node.sift]
    refine Equal.keep? (equal_map_iff.mpr ⟨distinct.sublist (keys_siftEntries_sublist es),
      distinct'.sublist (keys_siftEntries_sublist fs), fun k => ?_⟩) o
    have here := ih k
    rw [get?_siftEntries distinct, get?_siftEntries distinct']
    generalize Entries.get? es k = child?, Entries.get? fs k = child?' at here ⊢
    cases here with
    | none => exact .none
    | some below =>
      obtain ⟨_, left⟩ := below
      exact left _
  | list xs ys same ih =>
    rw [Node.sift, Node.sift]
    refine Equal.keep? (equal_list_iff.mpr (siftElements_equal ?_)) o
    exact ih.imp fun _ _ below => below.2

/-- Of equal trees the same leaves are kept, and equal trees are left, or nothing of both. -/
theorem Equal.filterLeaves (same : n.Equal n') (keep : Path → Scalar → Bool) (p : Path) (o : Pruning) :
    Option.Rel Equal (Id.run (n.filterLeaves (fun q s => pure (keep q s)) p o))
      (Id.run (n'.filterLeaves (fun q s => pure (keep q s)) p o)) := by
  rw [filterLeaves_eq, filterLeaves_eq]
  exact same.sift p

end Filter

end LayeredConfig.Node
