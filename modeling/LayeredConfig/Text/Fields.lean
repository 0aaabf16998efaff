/-!
# Fields of a text

Cutting a text at every occurrence of a separator.

* The cut keeps everything else: joining the fields with the separator gives the text back (`join_fields`).
* Nothing but the separators counts: parts without a separator that are written one behind the other, with
  any separators between them, are the fields of the text (`fieldsBy_written`), and characters can be
  changed before or after the cut (`fieldsBy_map`).
-/

namespace LayeredConfig.Text

/-- The parts of a text between the characters for which `sep` holds. There is always at least one,
and none of them holds a separator. -/
def fieldsBy (sep : Char → Bool) : List Char → List (List Char)
  | [] => [[]]
  | c :: rest =>
    if sep c then [] :: fieldsBy sep rest
    else match fieldsBy sep rest with
      | [] => [[c]]
      | field :: more => (c :: field) :: more

/-- The parts of a text between the occurrences of one separator. -/
def fields (sep : Char) (cs : List Char) : List (List Char) :=
  fieldsBy (· == sep) cs

/-- The fields with one separator between each two neighbours. -/
def joinFields (sep : Char) : List (List Char) → List Char
  | [] => []
  | [field] => field
  | field :: more => field ++ sep :: joinFields sep more

theorem fieldsBy_ne_nil (sep : Char → Bool) (cs : List Char) : fieldsBy sep cs ≠ [] := by
  cases cs with
  | nil => simp [fieldsBy]
  | cons c rest =>
    rw [fieldsBy]
    split
    · simp
    · split <;> simp

section Fields

variable {sep : Char → Bool} {cs : List Char}

theorem fieldsBy_eq_splitOnP (sep : Char → Bool) (cs : List Char) : fieldsBy sep cs = cs.splitOnP sep := by
  induction cs with
  | nil => rfl
  | cons c rest ih =>
    rw [fieldsBy, List.splitOnP_cons_eq_if_modifyHead, ih]
    cases cut : rest.splitOnP sep with
    | nil => exact absurd cut (List.splitOnP_ne_nil sep rest)
    | cons field more => rfl

theorem fields_eq_splitOn (sep : Char) (cs : List Char) : fields sep cs = cs.splitOn sep := by
  rw [fields, fieldsBy_eq_splitOnP, List.splitOn_eq_splitOnP]

theorem joinFields_eq_intercalate (sep : Char) (fields : List (List Char)) :
    joinFields sep fields = [sep].intercalate fields := by
  induction fields with
  | nil => rfl
  | cons field more ih =>
    cases more with
    | nil => rw [joinFields, List.intercalate_singleton]
    | cons next more =>
      rw [joinFields, ih, List.intercalate_cons_cons, List.append_assoc]
      · rfl
      · exact List.cons_ne_nil next more

/-- Joining the fields gives the text back. -/
theorem join_fields (sep : Char) (cs : List Char) : joinFields sep (fields sep cs) = cs := by
  rw [joinFields_eq_intercalate, fields_eq_splitOn, List.intercalate_splitOn]

/-- Parts without the separator are the fields of the text in which they are joined. -/
theorem fields_join {sep : Char} {parts : List (List Char)} (free : ∀ part ∈ parts, sep ∉ part)
    (somePart : parts ≠ []) : fields sep (joinFields sep parts) = parts := by
  rw [joinFields_eq_intercalate, fields_eq_splitOn, List.splitOn_intercalate sep free somePart]

theorem joinFields_cons (sep : Char) (field : List Char) (more : List (List Char)) :
    joinFields sep (field :: more) = field ++ more.flatMap (sep :: ·) := by
  induction more generalizing field with
  | nil => rw [joinFields, List.flatMap_nil, List.append_nil]
  | cons next more ih =>
    rw [joinFields, ih, List.flatMap_cons, List.cons_append]
    exact List.cons_ne_nil next more

/-- A text without a separator is its only field. -/
theorem fieldsBy_of_free (free : ∀ c ∈ cs, sep c = false) : fieldsBy sep cs = [cs] := by
  rw [fieldsBy_eq_splitOnP, List.splitOnP_eq_singleton free]

/-- The first field ends at the first separator. -/
theorem fieldsBy_append_sep (free : ∀ c ∈ cs, sep c = false) {s : Char} (separates : sep s = true)
    (rest : List Char) : fieldsBy sep (cs ++ s :: rest) = cs :: fieldsBy sep rest := by
  rw [fieldsBy_eq_splitOnP, fieldsBy_eq_splitOnP,
    List.splitOnP_append_cons_of_forall_mem free s separates rest]

/-- The fields of a text that is written with a separator in front of all of its parts but the first. -/
theorem fieldsBy_written {more : List (Char × List Char)} (free : ∀ c ∈ cs, sep c = false)
    (written : ∀ part ∈ more, sep part.1 = true ∧ ∀ c ∈ part.2, sep c = false) :
    fieldsBy sep (cs ++ more.flatMap fun part => part.1 :: part.2) = cs :: more.map (·.2) := by
  induction more generalizing cs with
  | nil => rw [List.flatMap_nil, List.append_nil, fieldsBy_of_free free, List.map_nil]
  | cons part more ih =>
    obtain ⟨here, later⟩ := List.forall_mem_cons.mp written
    rw [List.flatMap_cons, List.cons_append, fieldsBy_append_sep free here.1, ih here.2 later, List.map_cons]

/-- Changing characters before the cut changes the fields, as long as separators stay separators and no
others become one. -/
theorem fieldsBy_map {f : Char → Char} {sep' : Char → Bool} (same : ∀ c, sep' (f c) = sep c)
    (cs : List Char) : fieldsBy sep' (cs.map f) = (fieldsBy sep cs).map (List.map f) := by
  induction cs with
  | nil => rfl
  | cons c rest ih =>
    rw [List.map_cons, fieldsBy, fieldsBy, same, ih]
    split
    · rfl
    · cases fieldsBy sep rest with
      | nil => rfl
      | cons field more => rfl

theorem free_of_mem_fieldsBy {field : List Char} (mem : field ∈ fieldsBy sep cs) :
    ∀ c ∈ field, sep c = false := by
  induction cs generalizing field with
  | nil =>
    obtain rfl := List.mem_singleton.mp mem
    exact fun c here => absurd here List.not_mem_nil
  | cons c rest ih =>
    rw [fieldsBy] at mem
    split at mem
    · rcases List.mem_cons.mp mem with rfl | mem
      · exact fun c here => absurd here List.not_mem_nil
      · exact ih mem
    · next other =>
      have first : sep c = false := Bool.not_eq_true _ ▸ other
      cases cut : fieldsBy sep rest with
      | nil => exact absurd cut (fieldsBy_ne_nil sep rest)
      | cons next more =>
        rw [cut] at mem ih
        rcases List.mem_cons.mp mem with rfl | mem
        · exact List.forall_mem_cons.mpr ⟨first, ih List.mem_cons_self⟩
        · exact ih (List.mem_cons_of_mem next mem)

end Fields

end LayeredConfig.Text
