/-!
# Entries in order of insertion

The entries of a map are a list of pairs whose first parts differ. Putting a key that is there
replaces its value in place, and a new key goes to the end, so the order of the keys is the order in
which they first came.

Each operation has one equation about `get?` and one about `keys`.
-/

namespace LayeredConfig

/-- Values under keys, in order. -/
abbrev Entries (α : Type u) := List (String × α)

namespace Entries

variable {α : Type u}

/-- The keys, in order. -/
def keys (es : Entries α) : List String :=
  es.map Prod.fst

/-- The value under `key`. -/
def get? : Entries α → String → Option α
  | [], _ => none
  | (k, v) :: rest, key => if k = key then some v else get? rest key

/-- Puts `value` under `key`: in place if the key is there, else at the end. -/
def put : Entries α → String → α → Entries α
  | [], key, value => [(key, value)]
  | (k, v) :: rest, key, value =>
    if k = key then (k, value) :: rest else (k, v) :: put rest key value

/-- Takes the entry of `key` out. The others keep their order. -/
def erase : Entries α → String → Entries α
  | [], _ => []
  | (k, v) :: rest, key => if k = key then rest else (k, v) :: erase rest key

/-- The entries of a list in which keys may repeat: each key at the place where it first stands, with
the value that it has last. -/
def ofList (pairs : List (String × α)) : Entries α :=
  pairs.foldl (fun es (key, value) => es.put key value) []

theorem get?_put (es : Entries α) (key other : String) (value : α) :
    (es.put key value).get? other = if key = other then some value else es.get? other := by
  induction es with
  | nil => rfl
  | cons entry rest ih =>
    obtain ⟨k, v⟩ := entry
    simp only [put]
    split
    · next h => subst h; simp only [get?]; split <;> rfl
    · next h =>
      simp only [get?, ih]
      split
      · next hk => subst hk; rw [if_neg (fun e => h e.symm)]
      · rfl

theorem keys_put (es : Entries α) (key : String) (value : α) :
    (es.put key value).keys = if key ∈ es.keys then es.keys else es.keys ++ [key] := by
  induction es with
  | nil => rfl
  | cons entry rest ih =>
    obtain ⟨k, v⟩ := entry
    simp only [keys] at ih
    by_cases h : k = key
    · subst h; simp [put, keys]
    · have h' : ¬ key = k := fun e => h e.symm
      by_cases mem : key ∈ rest.map Prod.fst <;> simp_all [put, keys]

end Entries

end LayeredConfig
