import LayeredConfig.Entries
import Mathlib.Data.List.Nodup

/-!
# Laws of entries

Looking up, putting and erasing, as far as they matter for maps with distinct keys: what is found is a
member and the other way round, and every operation keeps the keys distinct.
-/

namespace LayeredConfig.Entries

variable {α β : Type u} {es fs : Entries α} {key other : String} {value : α}

/-! ## Looking up -/

theorem mem_of_get? (found : es.get? key = some value) : (key, value) ∈ es := by
  induction es with
  | nil => cases found
  | cons entry rest ih =>
    obtain ⟨k, v⟩ := entry
    rw [get?] at found
    split at found
    · next same =>
      cases found
      cases same
      exact List.mem_cons_self
    · exact List.mem_cons_of_mem _ (ih found)

theorem mem_keys_of_mem (mem : (key, value) ∈ es) : key ∈ es.keys :=
  List.mem_map_of_mem (f := Prod.fst) mem

theorem get?_eq_none_iff : es.get? key = none ↔ key ∉ es.keys := by
  induction es with
  | nil => simp [get?, keys]
  | cons entry rest ih =>
    obtain ⟨k, v⟩ := entry
    rw [get?]
    split
    · next same => simp [keys, same]
    · next differ =>
      have differ' : key ≠ k := fun same => differ same.symm
      simpa [keys, differ'] using ih

/-- If the keys are distinct, one that comes later is not there before. -/
theorem get?_eq_none_of_nodup (distinct : (keys (es ++ (key, value) :: fs)).Nodup) :
    es.get? key = none := by
  rw [get?_eq_none_iff]
  intro there
  rw [keys, List.map_append, List.nodup_append] at distinct
  exact distinct.2.2 key there key List.mem_cons_self rfl

/-- If the keys are distinct, every member is found. -/
theorem get?_eq_some_of_mem (distinct : es.keys.Nodup) (mem : (key, value) ∈ es) :
    es.get? key = some value := by
  induction es with
  | nil => cases mem
  | cons entry rest ih =>
    obtain ⟨k, v⟩ := entry
    simp only [keys, List.map_cons, List.nodup_cons] at distinct
    rcases List.mem_cons.mp mem with same | later
    · cases same
      simp [get?]
    · have differ : k ≠ key := by
        rintro rfl
        exact distinct.1 (mem_keys_of_mem later)
      rw [get?, if_neg differ]
      exact ih distinct.2 later

theorem get?_append (es fs : Entries α) (key : String) :
    get? (es ++ fs) key = (es.get? key).or (get? fs key) := by
  induction es with
  | nil => rfl
  | cons entry rest ih =>
    obtain ⟨k, v⟩ := entry
    rw [List.cons_append, get?, get?]
    split
    · rfl
    · exact ih

/-- Keeping the entries of some keys. -/
theorem get?_filter (keep : String → Bool) (es : Entries α) (key : String) :
    get? (es.filter fun entry => keep entry.1) key = if keep key then es.get? key else none := by
  induction es with
  | nil => simp [get?]
  | cons entry rest ih =>
    obtain ⟨k, v⟩ := entry
    by_cases same : k = key
    · subst same
      cases kept : keep k with
      | true => simp [get?, kept]
      | false =>
        rw [kept] at ih
        simpa [kept] using ih
    · cases kept : keep k <;> simpa [get?, kept, same] using ih

/-! ## Putting -/

theorem get?_put_self (es : Entries α) (key : String) (value : α) :
    (es.put key value).get? key = some value := by
  rw [get?_put, if_pos rfl]

theorem get?_put_of_ne (es : Entries α) (value : α) (differ : key ≠ other) :
    (es.put key value).get? other = es.get? other := by
  rw [get?_put, if_neg differ]

theorem put_of_get?_eq_none (missing : es.get? key = none) (value : α) :
    es.put key value = es ++ [(key, value)] := by
  induction es with
  | nil => rfl
  | cons entry rest ih =>
    obtain ⟨k, v⟩ := entry
    rw [get?] at missing
    split at missing
    · cases missing
    · next differ => rw [put, if_neg differ, ih missing, List.cons_append]

/-- What was put under a key is replaced by what is put under it next. -/
theorem put_put (es : Entries α) (key : String) (old new : α) :
    (es.put key old).put key new = es.put key new := by
  induction es with
  | nil => exact if_pos rfl
  | cons entry rest ih =>
    obtain ⟨k, v⟩ := entry
    by_cases same : k = key
    · rw [put, if_pos same, put, if_pos same, put, if_pos same]
    · rw [put, if_neg same, put, if_neg same, put, if_neg same, ih]

/-- Putting the value that is there changes nothing. -/
theorem put_self (found : es.get? key = some value) : es.put key value = es := by
  induction es with
  | nil => cases found
  | cons entry rest ih =>
    obtain ⟨k, v⟩ := entry
    rw [get?] at found
    rw [put]
    split at found
    · next same =>
      cases found
      rw [if_pos same]
    · next differ => rw [if_neg differ, ih found]

theorem mem_keys_of_ne {k : String} {v : α} (there : key ∈ keys ((k, v) :: es)) (differ : k ≠ key) :
    key ∈ es.keys := by
  rcases List.mem_cons.mp there with here | later
  · exact absurd here.symm differ
  · exact later

/-- Putting under a key that is there changes the one entry with this key. -/
theorem put_eq_map (distinct : es.keys.Nodup) (there : key ∈ es.keys) (value : α) :
    es.put key value = es.map fun entry => if entry.1 = key then (key, value) else entry := by
  induction es with
  | nil => cases there
  | cons entry rest ih =>
    obtain ⟨k, v⟩ := entry
    simp only [keys, List.map_cons, List.nodup_cons] at distinct
    by_cases same : k = key
    · subst same
      -- no other entry has the key
      have others : rest.map (fun entry => if entry.1 = k then (k, value) else entry) = rest := by
        refine (List.map_congr_left fun entry mem => if_neg ?_).trans (List.map_id rest)
        rintro rfl
        exact distinct.1 (mem_keys_of_mem mem)
      rw [put, if_pos rfl, List.map_cons, others, if_pos rfl]
    · have later := mem_keys_of_ne there same
      rw [put, if_neg same, List.map_cons, if_neg same, ih distinct.2 later]

theorem put_append (there : key ∈ es.keys) (fs : Entries α) (value : α) :
    put (es ++ fs) key value = es.put key value ++ fs := by
  induction es with
  | nil => cases there
  | cons entry rest ih =>
    obtain ⟨k, v⟩ := entry
    by_cases same : k = key
    · rw [List.cons_append, put, put, if_pos same, if_pos same, List.cons_append]
    · have later := mem_keys_of_ne there same
      rw [List.cons_append, put, put, if_neg same, if_neg same, ih later, List.cons_append]

theorem mem_put {k : String} {v : α} (mem : (k, v) ∈ es.put key value) :
    (k, v) = (key, value) ∨ (k, v) ∈ es := by
  induction es with
  | nil => exact .inl (List.mem_singleton.mp mem)
  | cons entry rest ih =>
    obtain ⟨k', v'⟩ := entry
    rw [put] at mem
    split at mem
    · next same =>
      rcases List.mem_cons.mp mem with new | old
      · exact .inl (same ▸ new)
      · exact .inr (List.mem_cons_of_mem _ old)
    · rcases List.mem_cons.mp mem with here | later
      · exact .inr (here ▸ List.mem_cons_self)
      · exact (ih later).imp_right (List.mem_cons_of_mem _)

theorem nodup_keys_put (distinct : es.keys.Nodup) (key : String) (value : α) :
    (es.put key value).keys.Nodup := by
  rw [keys_put]
  split
  · exact distinct
  · next new => exact List.nodup_append.mpr ⟨distinct, List.nodup_singleton _, by grind⟩

/-! ## Erasing -/

theorem erase_sublist (es : Entries α) (key : String) : (es.erase key).Sublist es := by
  induction es with
  | nil => exact List.Sublist.refl _
  | cons entry rest ih =>
    obtain ⟨k, v⟩ := entry
    rw [erase]
    split
    · exact List.sublist_cons_self _ _
    · exact ih.cons_cons _

theorem get?_erase_of_ne (es : Entries α) (differ : key ≠ other) :
    (es.erase key).get? other = es.get? other := by
  induction es with
  | nil => rfl
  | cons entry rest ih =>
    obtain ⟨k, v⟩ := entry
    rw [erase]
    split
    · next same => rw [get?, if_neg (same ▸ differ)]
    · rw [get?, get?, ih]

/-- What was put under a key goes with it. -/
theorem erase_put (es : Entries α) (key : String) (value : α) :
    (es.put key value).erase key = es.erase key := by
  induction es with
  | nil => exact if_pos rfl
  | cons entry rest ih =>
    obtain ⟨k, v⟩ := entry
    by_cases same : k = key
    · rw [put, if_pos same, erase, if_pos same, erase, if_pos same]
    · rw [put, if_neg same, erase, if_neg same, erase, if_neg same, ih]

theorem length_erase (found : es.get? key = some value) : (es.erase key).length + 1 = es.length := by
  induction es with
  | nil => cases found
  | cons entry rest ih =>
    obtain ⟨k, v⟩ := entry
    rw [get?] at found
    rw [erase]
    split
    · rfl
    · next differ =>
      rw [if_neg differ] at found
      exact congrArg (· + 1) (ih found)

theorem get?_erase (distinct : es.keys.Nodup) (key other : String) :
    (es.erase key).get? other = if key = other then none else es.get? other := by
  induction es with
  | nil => exact (ite_self none).symm
  | cons entry rest ih =>
    obtain ⟨k, v⟩ := entry
    simp only [keys, List.map_cons, List.nodup_cons] at distinct
    have later := ih distinct.2
    rw [erase]
    by_cases same : k = key
    · subst same
      rw [if_pos rfl, get?]
      split
      · next here =>
        subst here
        exact get?_eq_none_iff.mpr distinct.1
      · rfl
    · rw [if_neg same, get?, get?, later]
      split
      · next here => rw [if_neg fun back => same (here.trans back.symm)]
      · rfl

theorem nodup_keys_of_sublist (sub : List.Sublist es fs) (distinct : fs.keys.Nodup) :
    es.keys.Nodup :=
  distinct.sublist (sub.map Prod.fst)

/-! ## Entries from a list -/

private theorem foldl_put {pairs : List (String × α)} (es : Entries α)
    (distinct : (keys (es ++ pairs)).Nodup) :
    pairs.foldl (fun es (key, value) => es.put key value) es = es ++ pairs := by
  induction pairs generalizing es with
  | nil => simp
  | cons pair rest ih =>
    obtain ⟨k, v⟩ := pair
    have new := get?_eq_none_of_nodup distinct
    simp only [List.foldl_cons, put_of_get?_eq_none new]
    rw [ih _ (by simpa using distinct)]
    simp

/-- Pairs with distinct keys are entries as they stand. -/
theorem ofList_of_nodup {pairs : List (String × α)} (distinct : (keys pairs).Nodup) :
    ofList pairs = pairs :=
  foldl_put [] distinct

end LayeredConfig.Entries
