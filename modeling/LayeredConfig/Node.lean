import LayeredConfig.Entries
import LayeredConfig.Path
import LayeredConfig.Scalar

/-!
# Configuration trees

A tree is a map with named entries, a list, or a leaf with a scalar. The keys of a map differ and keep
the order in which they were put; there is no leaf without a value.

* `get?` follows a path from the root;
* `leaves` lists the leaves with their paths, depth first;
* `alike` is equality up to the order of map entries.
-/

namespace LayeredConfig

/-- A node of a configuration tree. -/
inductive Node where
  /-- Named entries. -/
  | map (entries : List (String × Node))
  /-- Elements, counted from zero. -/
  | list (elements : List Node)
  /-- A value. -/
  | leaf (scalar : Scalar)
deriving Repr

namespace Node

/-- The map without entries. -/
def empty : Node := .map []

instance : Inhabited Node := ⟨empty⟩

/-- Is the node a map? -/
def isMap : Node → Bool
  | .map _ => true
  | _ => false

/-- The scalar of a leaf. -/
def scalar? : Node → Option Scalar
  | .leaf s => some s
  | _ => none

/-- Is the node a map or a list without content? -/
def isEmpty : Node → Bool
  | .map es => es.isEmpty
  | .list xs => xs.isEmpty
  | .leaf _ => false

/-- The name of the type of a node in messages. -/
def typeName : Node → String
  | .map _ => "mapping"
  | .list _ => "sequence"
  | .leaf s => s.typeName

/-- The node that the path leads to. There is none if an entry is missing, or if a step is not of the
kind of the node that it leaves. -/
def get? : Node → Path → Option Node
  | n, [] => some n
  | .map es, .name k :: rest =>
    match Entries.get? es k with
    | some child => child.get? rest
    | none => none
  | .list xs, .index i :: rest =>
    match xs[i]? with
    | some child => child.get? rest
    | none => none
  | _, _ :: _ => none

mutual

/-- The leaves of a node that stands at path `p`, with their paths, depth first. -/
def leaves (p : Path) : Node → List (Path × Scalar)
  | .leaf s => [(p, s)]
  | .map es => leavesOfEntries p es
  | .list xs => leavesOfElements p 0 xs

/-- The leaves below the entries of a map. -/
def leavesOfEntries (p : Path) : List (String × Node) → List (Path × Scalar)
  | [] => []
  | (k, child) :: rest => leaves (p.key k) child ++ leavesOfEntries p rest

/-- The leaves below the elements of a list from position `i` on. -/
def leavesOfElements (p : Path) (i : Nat) : List Node → List (Path × Scalar)
  | [] => []
  | child :: rest => leaves (p.index i) child ++ leavesOfElements p (i + 1) rest

end

mutual

/-- Are two nodes equal, if the order of the entries of a map does not count? -/
def alike : Node → Node → Bool
  | .map es, .map fs => es.length == fs.length && entriesAlike es fs
  | .list xs, .list ys => elementsAlike xs ys
  | .leaf s, .leaf t => s == t
  | _, _ => false

/-- Is each of the entries also among the others? -/
def entriesAlike : List (String × Node) → List (String × Node) → Bool
  | [], _ => true
  | (k, child) :: rest, fs =>
    (match Entries.get? fs k with
      | some other => alike child other
      | none => false) && entriesAlike rest fs

/-- Are the elements equal one by one? -/
def elementsAlike : List Node → List Node → Bool
  | [], [] => true
  | x :: xs, y :: ys => alike x y && elementsAlike xs ys
  | _, _ => false

end

/-! ## Leaves and paths -/

theorem mem_leavesOfEntries {es : List (String × Node)} {k : String} {child : Node} {place : Path}
    {leaf : Path × Scalar} (found : Entries.get? es k = some child)
    (mem : leaf ∈ child.leaves (place.key k)) : leaf ∈ leavesOfEntries place es := by
  induction es with
  | nil => simp [Entries.get?] at found
  | cons entry rest ih =>
    obtain ⟨k', c⟩ := entry
    simp only [Entries.get?] at found
    rw [leavesOfEntries, List.mem_append]
    split at found
    · next same => subst same; injection found with same; subst same; exact .inl mem
    · exact .inr (ih found)

theorem mem_leavesOfElements {xs : List Node} {i start : Nat} {child : Node} {place : Path}
    {leaf : Path × Scalar} (found : xs[i]? = some child)
    (mem : leaf ∈ child.leaves (place.index (start + i))) :
    leaf ∈ leavesOfElements place start xs := by
  induction xs generalizing i start with
  | nil => simp at found
  | cons x rest ih =>
    rw [leavesOfElements, List.mem_append]
    cases i with
    | zero => injection found with same; subst same; exact .inl (by simpa using mem)
    | succ i =>
      refine .inr (ih (by simpa using found) ?_)
      rw [show start + 1 + i = start + (i + 1) by omega]
      exact mem

/-- A leaf that a path leads to is among the leaves, under that path. -/
theorem mem_leaves_of_get? {n : Node} {path : Path} {s : Scalar} (place : Path)
    (h : n.get? path = some (.leaf s)) : (place ++ path, s) ∈ n.leaves place := by
  induction path generalizing n place with
  | nil =>
    rw [get?] at h
    injection h with same
    subst same
    simp [leaves]
  | cons step rest ih =>
    cases n with
    | leaf t => cases step <;> simp [get?] at h
    | map es =>
      cases step with
      | index i => simp [get?] at h
      | name k =>
        rw [get?] at h
        split at h
        · next child found =>
          have := mem_leavesOfEntries found (ih (place.key k) h)
          rw [leaves]
          simpa [Path.key] using this
        · simp at h
    | list xs =>
      cases step with
      | name k => simp [get?] at h
      | index i =>
        rw [get?] at h
        split at h
        · next child found =>
          have := @mem_leavesOfElements xs i 0 child place _ found
            (by simpa using ih (place.index i) h)
          rw [leaves]
          simpa [Path.index] using this
        · simp at h

end Node

end LayeredConfig
