import LayeredConfig.Node

/-!
# Layers

Merging two trees key by key. A map takes the entries that it lacks from the other map, and where both
have a map these are merged in the same way. Everything else that is there stays, and masks whatever
the other tree holds at the same place.
-/

namespace LayeredConfig.Node

mutual

/-- The tree with the values of `other` where it has none. -/
def withDefaults (n other : Node) : Node :=
  match n, other with
  | .map es, .map ds =>
    .map (mergeEntries es ds ++ ds.filter fun d => (Entries.get? es d.1).isNone)
  | n, _ => n

/-- The entries, each merged with the entry of the same key among the defaults. -/
def mergeEntries (es ds : List (String × Node)) : List (String × Node) :=
  match es with
  | [] => []
  | (k, child) :: rest =>
    let merged := match Entries.get? ds k with
      | some default => child.withDefaults default
      | none => child
    (k, merged) :: mergeEntries rest ds

end

end LayeredConfig.Node
