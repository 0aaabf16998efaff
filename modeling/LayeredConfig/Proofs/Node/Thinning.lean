import LayeredConfig.Config.Edit
import LayeredConfig.Proofs.Computation
import LayeredConfig.Proofs.Node.Filter

/-!
# Filtering leaves

A test that decides about leaves may have effects. Filtering asks it once for each leaf, in order, before
anything is done with the answers: it is the plain recursion `sift` with the leaves that were accepted
(`filterLeaves_eq_accepted`). This needs distinct keys, as only then a leaf is told by its path.

What is left is said of every answer. It has the accepted leaves under the same names (`leavesLeft_sift`),
it is the tree without some children (`thinned_of_sift`), it has all containers if none is pruned
(`skeleton_sift`), and it stays as it is if it is filtered again and all leaves are accepted
(`sift_of_sift`). `filterLeaves_asks_once` puts this together.
-/

namespace LayeredConfig.Node

universe u

/-! ## Asking first -/

section Asking

variable {m : Type → Type u} [Monad m] {keep keep' : Path → Scalar → m Bool} {o : Pruning}

/-- Asks the test once for each of the leaves, in this order, and selects those that it accepts. -/
def accepted (keep : Path → Scalar → m Bool) (leaves : List (Path × Scalar)) :
    m (List (Path × Scalar)) :=
  leaves.filterM fun leaf => keep leaf.1 leaf.2

/-- Is the leaf one of those that were selected? -/
def isAmong (taken : List (Path × Scalar)) (p : Path) (s : Scalar) : Bool :=
  taken.contains (p, s)

/-- The test that repeats the answers of another one. -/
def repeating (taken : List (Path × Scalar)) (p : Path) (s : Scalar) : Id Bool :=
  pure (isAmong taken p s)

mutual

/-- Only the answers for the leaves of the tree matter. -/
theorem filterEdit_congr (p : Path) : ∀ n : Node,
    (∀ leaf ∈ n.leaves p, keep leaf.1 leaf.2 = keep' leaf.1 leaf.2) →
      filterEdit keep o p n = filterEdit keep' o p n
  | .leaf s, same => by
    have here : keep p s = keep' p s := same (p, s) (List.mem_singleton.mpr rfl)
    rw [filterEdit, filterEdit, here]
  | .map es, same => by rw [filterEdit, filterEdit, filterEntries_congr p es same]
  | .list xs, same => by rw [filterEdit, filterEdit, filterElements_congr p 0 xs same]

theorem filterEntries_congr (p : Path) : ∀ es : List (String × Node),
    (∀ leaf ∈ leavesOfEntries p es, keep leaf.1 leaf.2 = keep' leaf.1 leaf.2) →
      filterEntries keep o p es = filterEntries keep' o p es
  | [], _ => by rw [filterEntries, filterEntries]
  | (k, child) :: rest, same => by
    rw [filterEntries, filterEntries,
      filterEdit_congr (p.key k) child fun leaf mem => same leaf (List.mem_append_left _ mem),
      filterEntries_congr p rest fun leaf mem => same leaf (List.mem_append_right _ mem)]

theorem filterElements_congr (p : Path) (i : Nat) : ∀ xs : List Node,
    (∀ leaf ∈ leavesOfElements p i xs, keep leaf.1 leaf.2 = keep' leaf.1 leaf.2) →
      filterElements keep o p i xs = filterElements keep' o p i xs
  | [], _ => by rw [filterElements, filterElements]
  | child :: rest, same => by
    rw [filterElements, filterElements,
      filterEdit_congr (p.index i) child fun leaf mem => same leaf (List.mem_append_left _ mem),
      filterElements_congr p (i + 1) rest fun leaf mem => same leaf (List.mem_append_right _ mem)]

end

/-- What is selected elsewhere does not count. -/
theorem repeating_append_left {xs ys later : List (Path × Scalar)} (apart : xs.Disjoint ys)
    (here : List (Path × Scalar)) (there : later.Sublist ys) {leaf : Path × Scalar} (mem : leaf ∈ xs) :
    repeating (here ++ later) leaf.1 leaf.2 = repeating here leaf.1 leaf.2 := by
  have other : leaf ∉ later := fun mem' => apart mem (there.subset mem')
  simp [repeating, isAmong, other]

theorem repeating_append_right {xs ys here : List (Path × Scalar)} (apart : xs.Disjoint ys)
    (later : List (Path × Scalar)) (there : here.Sublist xs) {leaf : Path × Scalar} (mem : leaf ∈ ys) :
    repeating (here ++ later) leaf.1 leaf.2 = repeating later leaf.1 leaf.2 := by
  have other : leaf ∉ here := fun mem' => apart (there.subset mem') mem
  simp [repeating, isAmong, other]

variable [LawfulMonad m] (keep)

mutual

/-- All questions may be asked first, and then the tree is filtered by the answers. -/
theorem filterEdit_eq_accepted (p : Path) : ∀ n : Node, (n.leaves p).Nodup →
    filterEdit keep o p n =
      (fun taken => Id.run (filterEdit (repeating taken) o p n)) <$>
        accepted keep (n.leaves p)
  | .leaf s, _ => by
    rw [filterEdit, leaves, accepted, filterM_cons, filterM_nil, map_bind]
    refine bind_congr fun answer => ?_
    cases answer <;> simp [filterEdit, repeating, isAmong]
  | .map es, nodup => by
    rw [filterEdit, leaves, filterEntries_eq_accepted p es nodup, bind_map_left, ← bind_pure_comp]
    refine bind_congr fun taken => ?_
    rw [filterEdit]
    rfl
  | .list xs, nodup => by
    rw [filterEdit, leaves, filterElements_eq_accepted p 0 xs nodup, bind_map_left, ← bind_pure_comp]
    refine bind_congr fun taken => ?_
    rw [filterEdit]
    rfl

theorem filterEntries_eq_accepted (p : Path) : ∀ es : List (String × Node), (leavesOfEntries p es).Nodup →
    filterEntries keep o p es =
      (fun taken => Id.run (filterEntries (repeating taken) o p es)) <$>
        accepted keep (leavesOfEntries p es)
  | [], _ => by
    rw [filterEntries, leavesOfEntries, accepted, filterM_nil, map_pure]
    rfl
  | (k, child) :: rest, nodup => by
    have apart := List.disjoint_of_nodup_append nodup
    obtain ⟨nodup, nodup', -⟩ := List.nodup_append.mp nodup
    rw [filterEntries, leavesOfEntries, accepted, filterM_append, filterEdit_eq_accepted (p.key k) child nodup,
      filterEntries_eq_accepted p rest nodup', bind_map_left, map_bind]
    refine (always_filterM _ _).bind_eq fun here some => ?_
    rw [bind_map_left, Functor.map_map, ← bind_pure_comp]
    refine (always_filterM _ _).bind_eq fun later some' => ?_
    have first := filterEdit_congr (o := o) (p.key k) child fun leaf mem =>
      repeating_append_left apart here some' mem
    have second := filterEntries_congr (o := o) p rest fun leaf mem =>
      repeating_append_right apart later some mem
    rw [filterEntries, first, second]
    rfl

theorem filterElements_eq_accepted (p : Path) (i : Nat) : ∀ xs : List Node,
    (leavesOfElements p i xs).Nodup →
    filterElements keep o p i xs =
      (fun taken => Id.run (filterElements (repeating taken) o p i xs)) <$>
        accepted keep (leavesOfElements p i xs)
  | [], _ => by
    rw [filterElements, leavesOfElements, accepted, filterM_nil, map_pure]
    rfl
  | child :: rest, nodup => by
    have apart := List.disjoint_of_nodup_append nodup
    obtain ⟨nodup, nodup', -⟩ := List.nodup_append.mp nodup
    rw [filterElements, leavesOfElements, accepted, filterM_append,
      filterEdit_eq_accepted (p.index i) child nodup, filterElements_eq_accepted p (i + 1) rest nodup',
      bind_map_left, map_bind]
    refine (always_filterM _ _).bind_eq fun here some => ?_
    rw [bind_map_left, Functor.map_map, ← bind_pure_comp]
    refine (always_filterM _ _).bind_eq fun later some' => ?_
    have first := filterEdit_congr (o := o) (p.index i) child fun leaf mem =>
      repeating_append_left apart here some' mem
    have second := filterElements_congr (o := o) p (i + 1) rest fun leaf mem =>
      repeating_append_right apart later some mem
    rw [filterElements, first, second]
    rfl

end

/-- Filtering asks the test once for each leaf, and leaves what the plain recursion leaves. -/
theorem filterLeaves_eq_accepted {n : Node} {p : Path} (nodup : (n.leaves p).Nodup) :
    n.filterLeaves keep p o = (fun taken => n.sift (isAmong taken) o p) <$> accepted keep (n.leaves p) := by
  rw [filterLeaves, filterEdit_eq_accepted keep p n nodup, bind_map_left, ← bind_pure_comp]
  refine bind_congr fun taken => ?_
  have left : (Id.run (filterEdit (repeating taken) o p n)).apply n = n.sift (isAmong taken) o p :=
    apply_filterEdit p n
  rw [left]

omit [Monad m] [LawfulMonad m] in
/-- What was selected from leaves is what is among them. -/
theorem filter_isAmong {leaves taken : List (Path × Scalar)} (sublist : taken.Sublist leaves)
    (nodup : leaves.Nodup) : (leaves.filter fun leaf => isAmong taken leaf.1 leaf.2) = taken := by
  induction sublist with
  | slnil => rfl
  | @cons taken leaves leaf sublist ih =>
    obtain ⟨first, nodup⟩ := List.nodup_cons.mp nodup
    have other : leaf ∉ taken := fun mem => first (sublist.subset mem)
    rw [List.filter_cons_of_neg (by simpa [isAmong] using other), ih nodup]
  | @cons_cons taken leaves leaf sublist ih =>
    obtain ⟨first, nodup⟩ := List.nodup_cons.mp nodup
    rw [List.filter_cons_of_pos (by simp [isAmong])]
    have same : (leaves.filter fun other => isAmong (leaf :: taken) other.1 other.2) =
        leaves.filter fun other => isAmong taken other.1 other.2 := by
      refine List.filter_congr fun other mem => ?_
      have differ : other ≠ leaf := fun same => first (same ▸ mem)
      simp [isAmong, differ]
    rw [same, ih nodup]

end Asking

/-! ## What is left -/

/-- A leaf with the names that lead to it. Its position in a list may change. -/
def named (leaf : Path × Scalar) : List String × Scalar :=
  (leaf.1.names, leaf.2)

/-- The leaves of what is left of a node at `p`. There are none if nothing is left. -/
def leavesLeft (p : Path) (left : Option Node) : List (List String × Scalar) :=
  ((left.getD .empty).leaves p).map named

mutual

/-- The first tree is the second one without some of its children, at any depth. The others have the same keys,
and the same order. -/
inductive Thinned : Node → Node → Prop
  | leaf (s : Scalar) : Thinned (.leaf s) (.leaf s)
  | map {fs es : List (String × Node)} : ThinnedEntries fs es → Thinned (.map fs) (.map es)
  | list {ys xs : List Node} : ThinnedElements ys xs → Thinned (.list ys) (.list xs)

/-- Some of the entries are left. -/
inductive ThinnedEntries : List (String × Node) → List (String × Node) → Prop
  | nil : ThinnedEntries [] []
  | stays {k : String} {left child : Node} {fs es : List (String × Node)} :
      Thinned left child → ThinnedEntries fs es → ThinnedEntries ((k, left) :: fs) ((k, child) :: es)
  | goes {entry : String × Node} {fs es : List (String × Node)} :
      ThinnedEntries fs es → ThinnedEntries fs (entry :: es)

/-- Some of the elements are left. -/
inductive ThinnedElements : List Node → List Node → Prop
  | nil : ThinnedElements [] []
  | stays {left child : Node} {ys xs : List Node} :
      Thinned left child → ThinnedElements ys xs → ThinnedElements (left :: ys) (child :: xs)
  | goes {child : Node} {ys xs : List Node} : ThinnedElements ys xs → ThinnedElements ys (child :: xs)

end

mutual

/-- The containers of a tree, without its leaves. -/
def skeleton : Node → Option Node
  | .leaf _ => none
  | .map es => some (.map (skeletonEntries es))
  | .list xs => some (.list (skeletonElements xs))

/-- The entries that are containers. -/
def skeletonEntries : List (String × Node) → List (String × Node)
  | [] => []
  | (k, child) :: rest =>
    match child.skeleton with
    | some inner => (k, inner) :: skeletonEntries rest
    | none => skeletonEntries rest

/-- The elements that are containers. -/
def skeletonElements : List Node → List Node
  | [] => []
  | child :: rest =>
    match child.skeleton with
    | some inner => inner :: skeletonElements rest
    | none => skeletonElements rest

end

section Left

variable {keep : Path → Scalar → Bool} {o : Pruning} {p q : Path} {n left : Node}

theorem names_key (p : Path) (k : String) : (p.key k).names = p.names ++ [k] := by
  simp [Path.key, Path.names, Step.name?]

theorem names_index (p : Path) (i : Nat) : (p.index i).names = p.names := by
  simp [Path.index, Path.names, Step.name?]

mutual

/-- The leaves that are left are those that are kept, in the same order. -/
theorem leavesLeft_sift (keep : Path → Scalar → Bool) (o : Pruning) {p q : Path}
    (same : q.names = p.names) : ∀ n : Node, leavesLeft q (n.sift keep o p) =
      ((n.leaves p).filter fun leaf => keep leaf.1 leaf.2).map named
  | .leaf s => by
    rw [sift, leaves, List.filter_singleton]
    cases keep p s with
    | true => exact congrArg (fun names => [(names, s)]) same
    | false => rfl
  | .map es => by
    rw [sift, leavesLeft, leaves_keep?]
    exact named_siftEntries keep o same es
  | .list xs => by
    rw [sift, leavesLeft, leaves_keep?]
    exact named_siftElements keep o same 0 0 xs

theorem named_siftEntries (keep : Path → Scalar → Bool) (o : Pruning) {p q : Path}
    (same : q.names = p.names) : ∀ es : List (String × Node),
      (leavesOfEntries q (siftEntries keep o p es)).map named =
        ((leavesOfEntries p es).filter fun leaf => keep leaf.1 leaf.2).map named
  | [] => rfl
  | (k, child) :: rest => by
    have here := leavesLeft_sift keep o (p := p.key k) (q := q.key k) (by rw [names_key, names_key, same]) child
    have later := named_siftEntries keep o same rest
    rw [siftEntries, leavesOfEntries, List.filter_append, List.map_append, ← here, ← later]
    cases child.sift keep o (p.key k) with
    | none => rfl
    | some left => exact List.map_append

theorem named_siftElements (keep : Path → Scalar → Bool) (o : Pruning) {p q : Path}
    (same : q.names = p.names) (i j : Nat) : ∀ xs : List Node,
      (leavesOfElements q j (siftElements keep o p i xs)).map named =
        ((leavesOfElements p i xs).filter fun leaf => keep leaf.1 leaf.2).map named
  | [] => rfl
  | child :: rest => by
    have here := leavesLeft_sift keep o (p := p.index i) (q := q.index j)
      (by rw [names_index, names_index, same]) child
    rw [siftElements, leavesOfElements, List.filter_append, List.map_append, ← here]
    cases child.sift keep o (p.index i) with
    | none => exact named_siftElements keep o same (i + 1) j rest
    | some left =>
      rw [← named_siftElements keep o same (i + 1) (j + 1) rest]
      exact List.map_append

end

mutual

theorem thinned_of_sift {p : Path} : ∀ {n left : Node}, n.sift keep o p = some left → Thinned left n
  | .leaf s, left, sifted => by
    rw [sift] at sifted
    split at sifted
    · cases sifted
      exact .leaf s
    · cases sifted
  | .map es, left, sifted => by
    obtain ⟨-, rfl⟩ := Pruning.keep?_eq_some_iff.mp sifted
    exact .map (thinned_siftEntries es)
  | .list xs, left, sifted => by
    obtain ⟨-, rfl⟩ := Pruning.keep?_eq_some_iff.mp sifted
    exact .list (thinned_siftElements xs)

theorem thinned_siftEntries {p : Path} : ∀ es : List (String × Node),
    ThinnedEntries (siftEntries keep o p es) es
  | [] => .nil
  | (k, child) :: rest => by
    rw [siftEntries]
    cases here : child.sift keep o (p.key k) with
    | none => exact .goes (thinned_siftEntries rest)
    | some left => exact .stays (thinned_of_sift here) (thinned_siftEntries rest)

theorem thinned_siftElements {p : Path} {i : Nat} : ∀ xs : List Node,
    ThinnedElements (siftElements keep o p i xs) xs
  | [] => .nil
  | child :: rest => by
    rw [siftElements]
    cases here : child.sift keep o (p.index i) with
    | none => exact .goes (thinned_siftElements rest)
    | some left => exact .stays (thinned_of_sift here) (thinned_siftElements rest)

end

mutual

/-- If no container is pruned, all of them are left. -/
theorem skeleton_sift (keep : Path → Scalar → Bool) (p : Path) : ∀ n : Node,
    (n.sift keep .none p).bind skeleton = n.skeleton
  | .leaf s => by
    rw [sift]
    split <;> rfl
  | .map es => by
    have stays : Pruning.none.prunes (.map (siftEntries keep .none p es)) = false := Bool.and_false _
    rw [sift, keep?_of_not_prunes stays, Option.bind_some, skeleton, skeleton,
      skeletonEntries_siftEntries keep p es]
  | .list xs => by
    have stays : Pruning.none.prunes (.list (siftElements keep .none p 0 xs)) = false := Bool.and_false _
    rw [sift, keep?_of_not_prunes stays, Option.bind_some, skeleton, skeleton,
      skeletonElements_siftElements keep p 0 xs]

theorem skeletonEntries_siftEntries (keep : Path → Scalar → Bool) (p : Path) :
    ∀ es : List (String × Node), skeletonEntries (siftEntries keep .none p es) = skeletonEntries es
  | [] => rfl
  | (k, child) :: rest => by
    rw [siftEntries, skeletonEntries, ← skeleton_sift keep (p.key k) child,
      ← skeletonEntries_siftEntries keep p rest]
    cases child.sift keep .none (p.key k) <;> rfl

theorem skeletonElements_siftElements (keep : Path → Scalar → Bool) (p : Path) (i : Nat) :
    ∀ xs : List Node, skeletonElements (siftElements keep .none p i xs) = skeletonElements xs
  | [] => rfl
  | child :: rest => by
    rw [siftElements, skeletonElements, ← skeleton_sift keep (p.index i) child,
      ← skeletonElements_siftElements keep p (i + 1) rest]
    cases child.sift keep .none (p.index i) <;> rfl

end

/-- What is left stays as it is if all leaves are kept. -/
theorem sift_of_sift (sifted : n.sift keep o p = some left) (q : Path) :
    left.sift (fun _ _ => true) o q = some left := by
  induction n using Node.induction generalizing p q left with
  | leaf s =>
    rw [sift] at sifted
    split at sifted
    · cases sifted
      rfl
    · cases sifted
  | map es ih =>
    obtain ⟨stays, rfl⟩ := Pruning.keep?_eq_some_iff.mp sifted
    rw [sift, siftEntries_eq_self fun k child mem => ?_, keep?_of_not_prunes stays]
    obtain ⟨old, there, below⟩ := mem_siftEntries mem
    exact ih k old there below _
  | list xs ih =>
    obtain ⟨stays, rfl⟩ := Pruning.keep?_eq_some_iff.mp sifted
    rw [sift, siftElements_eq_self fun j child found => ?_, keep?_of_not_prunes stays]
    obtain ⟨old, there, i, below⟩ := mem_siftElements (List.mem_of_getElem? found)
    exact ih old there below _

theorem removeEmpty_eq (c : Config) :
    c.removeEmpty = c.withRoot ((c.root.sift (fun _ _ => true) .both .root).getD .empty) := by
  rw [← filterLeaves_eq]
  rfl

/-- Dropping empty containers loses no leaf, and once is enough. -/
theorem removeEmpty_laws (c : Config) : c.removeEmpty.removeEmpty = c.removeEmpty ∧
    leavesLeft .root (some c.removeEmpty.root) = leavesLeft .root (some c.root) := by
  have all := leavesLeft_sift (fun _ _ => true) .both (p := .root) rfl c.root
  have once := removeEmpty_eq c
  rw [List.filter_true] at all
  cases sifted : c.root.sift (fun _ _ => true) .both .root with
  | none =>
    rw [sifted, Option.getD_none] at once
    rw [sifted] at all
    rw [once]
    exact ⟨rfl, all⟩
  | some left =>
    rw [sifted, Option.getD_some] at once
    rw [sifted] at all
    have again : (c.withRoot left).removeEmpty = c.withRoot left := by
      rw [removeEmpty_eq, show (c.withRoot left).root = left from rfl, sift_of_sift sifted]
      rfl
    rw [once]
    exact ⟨again, all⟩

end Left

/-! ## Filtering -/

/-- Filtering asks the test once for each leaf, in order and with its path in the tree as it was, and what is
left is what the plain recursion leaves. So the leaves that are left are those that were accepted, keys and
order stay, and no container is left that is pruned; if none is pruned, all of them are left. Dropping empty
containers loses no leaf, and once is enough. -/
theorem filterLeaves_asks_once {m : Type → Type u} [Monad m] [LawfulMonad m] {n : Node}
    (keys : n.DistinctKeys) (keep : Path → Scalar → m Bool) (p : Path) (o : Pruning) :
    n.filterLeaves keep p o = (fun taken => n.sift (isAmong taken) o p) <$> accepted keep (n.leaves p) ∧
      leavesLeft p <$> n.filterLeaves keep p o = (·.map named) <$> accepted keep (n.leaves p) ∧
      Always (fun left? => ∀ left, left? = some left → left.Thinned n ∧
        ∀ q child, left.get? q = some child → o.prunes child = false) (n.filterLeaves keep p o) ∧
      Always (fun left? => left?.bind skeleton = n.skeleton) (n.filterLeaves keep p .none) ∧
      ∀ c : Config, c.removeEmpty.removeEmpty = c.removeEmpty ∧
        leavesLeft .root (some c.removeEmpty.root) = leavesLeft .root (some c.root) := by
  have nodup : (n.leaves p).Nodup := (nodup_leaves keys p).of_map
  have asked (o : Pruning) := filterLeaves_eq_accepted keep (o := o) nodup
  have always {P : Option Node → Prop} (o : Pruning) (holds : ∀ keep, P (n.sift keep o p)) :
      Always P (n.filterLeaves keep p o) := by
    rw [asked, ← bind_pure_comp]
    exact (always_filterM _ _).bind fun taken _ => .pure (holds (isAmong taken))
  refine ⟨asked o, ?leaves, always o fun keep left sifted => ?_, always .none fun keep => ?_,
    removeEmpty_laws⟩
  case leaves =>
    rw [asked, Functor.map_map, ← bind_pure_comp, ← bind_pure_comp]
    refine (always_filterM _ _).bind_eq fun taken sublist => ?_
    rw [leavesLeft_sift _ o rfl, filter_isAmong sublist nodup]
  · exact ⟨thinned_of_sift sifted, fun q child found => prunes_of_sift sifted found⟩
  · exact skeleton_sift keep p n

/-- The test accepts every second leaf that it is asked for. The list that is left empty goes, and so does the
one that was empty before, but not the map. -/
theorem filterLeaves_asks_once_alternating :
    let leaf (i : Int64) : Node := .leaf (.literal (.integer i))
    let n : Node := .map [("a", .list [leaf 1]), ("b", .list [leaf 2, .map [], leaf 3, .list []])]
    let keep : Path → Scalar → StateM Nat Bool := fun _ _ => do
      let asked ← get
      set (asked + 1)
      return asked % 2 == 1
    n.DistinctKeys ∧
      (n.filterLeaves keep .root .onlyLists).run 0 = (some (.map [("b", .list [leaf 2, .map []])]), 3) ∧
      leavesLeft .root <$> n.filterLeaves keep .root .onlyLists =
        (·.map named) <$> accepted keep (n.leaves .root) ∧
      (accepted keep (n.leaves .root)).run 0 = ([([.name "b", .index 0], .literal (.integer 2))], 3) := by
  intro leaf n keep
  have elements : ∀ x ∈ [leaf 2, .map [], leaf 3, .list []], x.DistinctKeys := by
    intro x mem
    simp only [List.mem_cons, List.not_mem_nil, or_false] at mem
    obtain rfl | rfl | rfl | rfl := mem
    exacts [.leaf _, .map (by decide) nofun, .leaf _, .list nofun]
  have keys : n.DistinctKeys := by
    refine .map (by decide) fun k child mem => ?_
    rcases List.mem_pair.mp mem with same | same
    · cases same
      exact .list fun x mem => List.mem_singleton.mp mem ▸ .leaf _
    · cases same
      exact .list elements
  obtain ⟨same, leaves, -⟩ := filterLeaves_asks_once keys keep .root .onlyLists
  refine ⟨keys, ?_, leaves, rfl⟩
  rw [same]
  rfl

end LayeredConfig.Node
