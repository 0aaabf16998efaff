import LayeredConfig.Proofs.Node.Filter
import Mathlib

/-!
# Positions after leaves are dropped

Where elements of a list go, the later ones move down. So a leaf that is kept has another path afterwards:
an index on the way becomes the number of earlier positions at which something is left. That is
`Path.renumber`, and `Node.leaves_sift` says that the leaves that are left are the kept ones, in their
order, under these paths.

Paths stay the same exactly if nothing goes in front of something that stays (`Path.renumber_fixed_iff`).
If one path changes then the texts of the paths, as a whole, are others (`Path.renumbered_texts_iff`).
-/

namespace LayeredConfig

namespace Path

variable {kept : List Path} {p q place : Path} {step : Step} {j : Nat}

/-- Does one of the paths lead through `p`? -/
def isAbove (p : Path) (kept : List Path) : Bool :=
  kept.any (·.startsWith p)

/-- The number of positions before `j` of the list at `p` that one of the paths leads through. -/
def rank (kept : List Path) (p : Path) (j : Nat) : Nat :=
  (List.range j).countP fun i => (p.index i).isAbove kept

/-- The rest of a path behind `place`, when only the kept paths are left. -/
def renumberFrom (kept : List Path) (place : Path) : Path → Path
  | [] => []
  | .name k :: rest => .name k :: renumberFrom kept (place.key k) rest
  | .index j :: rest => .index (rank kept place j) :: renumberFrom kept (place.index j) rest

/-- The path of a node when only the leaves at the kept paths are left. -/
def renumber (kept : List Path) (p : Path) : Path :=
  renumberFrom kept .root p

theorem isAbove_iff : p.isAbove kept = true ↔ ∃ q ∈ kept, p <+: q := by
  rw [isAbove, List.any_eq_true]
  refine exists_congr fun q => and_congr_right fun _ => ?_
  exact List.isPrefixOf_iff_prefix

theorem renumberFrom_append (place p q : Path) :
    renumberFrom kept place (p ++ q) = renumberFrom kept place p ++ renumberFrom kept (place ++ p) q := by
  induction p generalizing place with
  | nil => rw [List.append_nil]; rfl
  | cons step rest ih =>
    have path : place ++ step :: rest = place ++ [step] ++ rest := (List.append_cons ..)
    rw [path]
    cases step with
    | name k => exact congrArg (Step.name k :: ·) (ih (place.key k))
    | index j => exact congrArg (Step.index (rank kept place j) :: ·) (ih (place.index j))

theorem length_renumberFrom (place p : Path) : (renumberFrom kept place p).length = p.length := by
  induction p generalizing place with
  | nil => rfl
  | cons step rest ih =>
    cases step with
    | name k => exact congrArg Nat.succ (ih (place.key k))
    | index j => exact congrArg Nat.succ (ih (place.index j))

theorem renumber_key (p : Path) (k : String) : renumber kept (p.key k) = (renumber kept p).key k :=
  renumberFrom_append .root p [.name k]

theorem renumber_index (p : Path) (j : Nat) :
    renumber kept (p.index j) = (renumber kept p).index (rank kept p j) :=
  renumberFrom_append .root p [.index j]

theorem rank_succ (kept : List Path) (p : Path) (j : Nat) :
    rank kept p (j + 1) = rank kept p j + if (p.index j).isAbove kept then 1 else 0 := by
  rw [rank, List.range_succ, List.countP_append, List.countP_singleton]
  rfl

theorem rank_le (kept : List Path) (p : Path) (j : Nat) : rank kept p j ≤ j := by
  have bound := List.countP_le_length (p := fun i => (p.index i).isAbove kept) (l := List.range j)
  rwa [List.length_range] at bound

theorem rank_eq_iff : rank kept p j = j ↔ ∀ i < j, (p.index i).isAbove kept = true := by
  have all := List.countP_eq_length (p := fun i => (p.index i).isAbove kept) (l := List.range j)
  rw [List.length_range] at all
  refine all.trans ⟨fun holds i before => holds i (List.mem_range.mpr before), fun holds i mem => ?_⟩
  exact holds i (List.mem_range.mp mem)

/-! ## Paths that stay the same -/

/-- The kept paths stay the same exactly if in every list the positions that they lead through come
first. -/
theorem renumber_fixed_iff : (∀ p ∈ kept, renumber kept p = p) ↔
    ∀ (p : Path) i j, i < j → (p.index j).isAbove kept = true → (p.index i).isAbove kept = true := by
  constructor
  · intro fixed p i j before above
    obtain ⟨q, mem, rest, rfl⟩ := isAbove_iff.mp above
    have same := fixed _ mem
    rw [renumber, renumberFrom_append, ← renumber] at same
    -- every step stays one step, so the parts of the path in front of `rest` agree
    have front := List.append_inj_left same (length_renumberFrom .root _)
    rw [renumber_index] at front
    have last := List.append_inj_right' front rfl
    have stays := Step.index.inj (List.cons.inj last).1
    exact rank_eq_iff.mp stays i before
  · intro first p mem
    have rest (place q : Path) (mem : place ++ q ∈ kept) : renumberFrom kept place q = q := by
      induction q generalizing place with
      | nil => rfl
      | cons step rest ih =>
        have path : place ++ step :: rest = place ++ [step] ++ rest := (List.append_cons ..)
        have below := ih (place ++ [step]) (path ▸ mem)
        cases step with
        | name k => exact congrArg (Step.name k :: ·) below
        | index j =>
          have above : (place.index j).isAbove kept = true :=
            isAbove_iff.mpr ⟨_, mem, rest, path.symm⟩
          have stays := rank_eq_iff.mpr fun i before => first place i j before above
          rw [renumberFrom, stays]
          exact congrArg (Step.index j :: ·) below
    exact rest .root p mem

/-! ## The texts of the paths -/

/-- The sum of the indexes on a path. -/
def positions (p : Path) : Nat :=
  (p.filterMap Step.index?).sum

/-- The indexes never grow, so a path with the same sum is the same path. -/
theorem positions_renumberFrom (place p : Path) :
    positions (renumberFrom kept place p) ≤ positions p ∧
      (positions (renumberFrom kept place p) = positions p → renumberFrom kept place p = p) := by
  induction p generalizing place with
  | nil => exact ⟨le_refl _, fun _ => rfl⟩
  | cons step rest ih =>
    cases step with
    | name k =>
      obtain ⟨bound, same⟩ := ih (place.key k)
      exact ⟨bound, fun equal => congrArg (Step.name k :: ·) (same equal)⟩
    | index j =>
      obtain ⟨bound, same⟩ := ih (place.index j)
      have here := rank_le kept place j
      have before : positions (.index j :: rest) = j + positions rest := rfl
      have after : positions (renumberFrom kept place (.index j :: rest)) =
          rank kept place j + positions (renumberFrom kept (place.index j) rest) := rfl
      refine ⟨by omega, fun equal => ?_⟩
      have stays : rank kept place j = j := by omega
      rw [renumberFrom, stays, same (by omega)]

theorem Readable.renumberFrom (place : Path) (readable : p.Readable) :
    (renumberFrom kept place p).Readable := by
  induction p generalizing place with
  | nil => exact readable
  | cons step rest ih =>
    obtain ⟨here, later⟩ := List.forall_mem_cons.mp readable
    cases step with
    | name k => exact List.forall_mem_cons.mpr ⟨here, ih (place.key k) later⟩
    | index j =>
      have fits : rank kept place j < indexLimit := (rank_le kept place j).trans_lt here
      exact List.forall_mem_cons.mpr ⟨fits, ih (place.index j) later⟩

/-- What the text of a path says about its indexes. -/
def textPositions (text : String) : Nat :=
  match parse text with
  | .ok p => positions p
  | .error _ => 0

theorem textPositions_text (readable : p.Readable) : textPositions p.text = positions p := by
  rw [textPositions, parse_text readable]

theorem eq_of_sum_eq {α : Type} {f g : α → Nat} {xs : List α} (le : ∀ x ∈ xs, f x ≤ g x)
    (same : (xs.map f).sum = (xs.map g).sum) : ∀ x ∈ xs, f x = g x := by
  induction xs with
  | nil => exact nofun
  | cons first rest ih =>
    obtain ⟨here, later⟩ := List.forall_mem_cons.mp le
    have sums : (rest.map f).sum ≤ (rest.map g).sum := List.sum_le_sum later
    rw [List.map_cons, List.map_cons, List.sum_cons, List.sum_cons] at same
    exact List.forall_mem_cons.mpr ⟨by omega, ih later (by omega)⟩

/-- The sorted texts of the paths after and before are the same only if no path changes: the sum of all
indexes would be smaller otherwise. -/
theorem renumbered_texts_iff (readable : ∀ p ∈ kept, p.Readable) :
    (kept.map fun p => (renumber kept p).text).mergeSort = (kept.map text).mergeSort ↔
      ∀ p ∈ kept, renumber kept p = p := by
  constructor
  · intro same
    have texts : (kept.map fun p => (renumber kept p).text).Perm (kept.map text) := by
      have sorted := List.mergeSort_perm (kept.map fun p => (renumber kept p).text) (· ≤ ·)
      rw [same] at sorted
      exact sorted.symm.trans (List.mergeSort_perm ..)
    have sums := (texts.map textPositions).sum_eq
    rw [List.map_map, List.map_map] at sums
    have after : kept.map (textPositions ∘ fun p => (renumber kept p).text) =
        kept.map fun p => positions (renumber kept p) :=
      List.map_congr_left fun p mem => textPositions_text ((readable p mem).renumberFrom .root)
    have before : kept.map (textPositions ∘ text) = kept.map positions :=
      List.map_congr_left fun p mem => textPositions_text (readable p mem)
    rw [after, before] at sums
    have each := eq_of_sum_eq (fun p _ => (positions_renumberFrom .root p).1) sums
    exact fun p mem => (positions_renumberFrom .root p).2 (each p mem)
  · intro fixed
    rw [List.map_congr_left fun p mem => congrArg text (fixed p mem)]

end Path

namespace Node

variable {keep : Path → Scalar → Bool} {o : Pruning} {kept : List Path} {p : Path} {n child : Node}
  {es : List (String × Node)} {xs : List Node} {i : Nat} {k : String}

/-! ## The leaves that are left -/

/-- Among the paths below `p`, the kept ones are those of the leaves that are kept. -/
def KeptBelow (kept : List Path) (keep : Path → Scalar → Bool) (p : Path)
    (leaves : List (Path × Scalar)) : Prop :=
  ∀ q, p <+: q → (q ∈ kept ↔ ∃ s, (q, s) ∈ leaves ∧ keep q s = true)

theorem KeptBelow.entry (keys : (Node.map es).DistinctKeys) (mem : (k, child) ∈ es)
    (agree : KeptBelow kept keep p (leavesOfEntries p es)) :
    KeptBelow kept keep (p.key k) (child.leaves (p.key k)) := by
  intro q below
  refine (agree q ((List.prefix_append _ _).trans below)).trans (exists_congr fun s => ?_)
  refine and_congr_left fun _ => mem_leavesOfEntries_iff.trans ⟨?_, fun here => ⟨k, child, mem, here⟩⟩
  rintro ⟨k', child', mem', here⟩
  rcases Classical.em (Step.name k' = .name k) with same | differ
  · cases same
    have found := Entries.get?_eq_some_of_mem keys.distinct mem
    have found' := Entries.get?_eq_some_of_mem keys.distinct mem'
    cases Option.some.inj (found.symm.trans found')
    exact here
  · exact absurd rfl (ne_of_different_steps differ (starts_of_mem_leaves here) below)

theorem KeptBelow.element (found : xs[i]? = some child)
    (agree : KeptBelow kept keep p (leavesOfElements p 0 xs)) :
    KeptBelow kept keep (p.index i) (child.leaves (p.index i)) := by
  intro q below
  refine (agree q ((List.prefix_append _ _).trans below)).trans (exists_congr fun s => ?_)
  refine and_congr_left fun _ => mem_leavesOfElements_iff.trans ⟨?_, fun here =>
    ⟨i, child, found, by rwa [Nat.zero_add]⟩⟩
  rintro ⟨j, child', found', here⟩
  rw [Nat.zero_add] at here
  rcases Classical.em (Step.index j = .index i) with same | differ
  · cases same
    cases Option.some.inj (found.symm.trans found')
    exact here
  · exact absurd rfl (ne_of_different_steps differ (starts_of_mem_leaves here) below)

/-- Something is left of a node exactly if a kept path leads through it. -/
theorem KeptBelow.isSome_sift (agree : KeptBelow kept keep p (n.leaves p)) :
    (n.sift keep .both p).isSome = p.isAbove kept := by
  rw [Bool.eq_iff_iff, Path.isAbove_iff, Option.isSome_iff_ne_none, Ne, sift_eq_none_iff]
  push Not
  constructor
  · rintro ⟨⟨q, s⟩, mem, holds⟩
    have below := starts_of_mem_leaves mem
    exact ⟨q, (agree q below).mpr ⟨s, mem, eq_true_of_ne_false holds⟩, below⟩
  · rintro ⟨q, mem, below⟩
    obtain ⟨s, mem, holds⟩ := (agree q below).mp mem
    exact ⟨(q, s), mem, ne_false_of_eq_true holds⟩

/-- Where the leaves below an element stand afterwards. -/
def Renumbered (kept : List Path) (keep : Path → Scalar → Bool) (p : Path) (n : Node) : Prop :=
  ((n.sift keep .both p).getD .empty).leaves (p.renumber kept) =
    ((n.leaves p).filter fun leaf => keep leaf.1 leaf.2).map fun leaf =>
      (leaf.1.renumber kept, leaf.2)

theorem leavesOfEntries_sift
    (each : ∀ k child, (k, child) ∈ es → Renumbered kept keep (p.key k) child) :
    leavesOfEntries (p.renumber kept) (siftEntries keep .both p es) =
      ((leavesOfEntries p es).filter fun leaf => keep leaf.1 leaf.2).map fun leaf =>
        (leaf.1.renumber kept, leaf.2) := by
  induction es with
  | nil => rfl
  | cons entry rest ih =>
    obtain ⟨k, child⟩ := entry
    have here := each k child List.mem_cons_self
    have later := ih fun k' child' mem => each k' child' (List.mem_cons_of_mem _ mem)
    rw [Renumbered, Path.renumber_key] at here
    rw [siftEntries, leavesOfEntries, List.filter_append, List.map_append, ← here, ← later]
    cases child.sift keep .both (p.key k) <;> rfl

theorem leavesOfElements_sift (each : ∀ j child, xs[j]? = some child →
      Renumbered kept keep (p.index (i + j)) child ∧
        (child.sift keep .both (p.index (i + j))).isSome = (p.index (i + j)).isAbove kept) :
    leavesOfElements (p.renumber kept) (Path.rank kept p i) (siftElements keep .both p i xs) =
      ((leavesOfElements p i xs).filter fun leaf => keep leaf.1 leaf.2).map fun leaf =>
        (leaf.1.renumber kept, leaf.2) := by
  induction xs generalizing i with
  | nil => rfl
  | cons child rest ih =>
    obtain ⟨here, counted⟩ := each 0 child rfl
    have later := ih (i := i + 1) fun j child' found => by
      rw [Nat.add_assoc, Nat.add_comm 1 j]
      exact each (j + 1) child' found
    rw [Nat.add_zero] at here counted
    rw [Renumbered, Path.renumber_index] at here
    rw [siftElements, leavesOfElements, List.filter_append, List.map_append, ← here, ← later,
      Path.rank_succ, ← counted]
    cases child.sift keep .both (p.index i) <;> rfl

/-- The leaves that are left, with the paths under which they are found then. -/
theorem leaves_sift (keys : n.DistinctKeys) (agree : KeptBelow kept keep p (n.leaves p)) :
    Renumbered kept keep p n := by
  induction n using Node.induction generalizing p with
  | leaf s =>
    rw [Renumbered, sift, leaves, List.filter_singleton]
    cases keep p s <;> rfl
  | map es ih =>
    rw [Renumbered, sift, leaves_keep?]
    refine leavesOfEntries_sift fun k child mem => ?_
    exact ih k child mem (keys.entry mem) (agree.entry keys mem)
  | list xs ih =>
    rw [Renumbered, sift, leaves_keep?]
    refine leavesOfElements_sift (i := 0) fun j child found => ?_
    rw [Nat.zero_add]
    have mem := List.mem_of_getElem? found
    have agree := agree.element found
    exact ⟨ih child mem (keys.element mem) agree, agree.isSome_sift⟩

end Node

end LayeredConfig
