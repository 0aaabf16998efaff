import LayeredConfig.Proofs.Path.Grammar

/-!
# Writing and reading paths

The text of a path is one of the ways to write it, as long as its names are names and its positions are
positions that a list can have. So it is read back as that path (`parse_text`). No other paths come out of
a reading (`readable_of_parse`), and two readable paths never share a text (`text_injective`).
-/

namespace LayeredConfig

/-- A step that the text of a path can show: a name that reads back, or a position within the limit. -/
def Step.Readable : Step → Prop
  | .name n => Path.IsName n
  | .index i => i < Path.indexLimit

instance (step : Step) : Decidable step.Readable :=
  match step with
  | .name n => inferInstanceAs (Decidable (Path.IsName n))
  | .index i => inferInstanceAs (Decidable (i < Path.indexLimit))

namespace Path

/-- A path all of whose steps can be shown in its text. -/
def Readable (p : Path) : Prop :=
  ∀ step ∈ p, step.Readable

instance (p : Path) : Decidable p.Readable :=
  inferInstanceAs (Decidable (∀ step ∈ p, step.Readable))

/-! ## The text of a path -/

theorem numeral_toDigits {i : Nat} (fits : i < indexLimit) : Numeral (Nat.toDigits 10 i) i where
  someDigit := Nat.toDigits_ne_nil
  allDigits := fun _ mem => Nat.isDigit_of_mem_toDigits (by decide) (by decide) mem
  value := Nat.ofDigitChars_ten_toDigits
  fits := fits

theorem Spells.readable {p : Path} {cs : List Char} (spells : Spells p cs) : p.Readable := by
  induction spells with
  | done => exact fun _ mem => nomatch mem
  | name isName _ ih => exact List.forall_mem_cons.mpr ⟨isName, ih⟩
  | index numeral _ ih | pointed numeral _ ih =>
    exact List.forall_mem_cons.mpr ⟨numeral.fits, ih⟩

theorem spells_text {p : Path} (readable : p.Readable) : Spells p (p.flatMap Step.text) := by
  induction p with
  | nil => exact .done
  | cons step rest ih =>
    obtain ⟨here, later⟩ := List.forall_mem_cons.mp readable
    rw [List.flatMap_cons]
    cases step with
    | name n => exact .name here (ih later)
    | index i => simpa [Step.text] using Spells.index (numeral_toDigits here) (ih later)

theorem written_chars {p : Path} (readable : p.Readable) : Written p p.chars := by
  have spells := spells_text readable
  match p with
  | [] => exact .inl ⟨rfl, rfl⟩
  | .name n :: rest => exact .inr spells
  | .index i :: rest => exact .inr (Spells.pointed_of_bracket spells)

/-- The text of a readable path is read back as that path. -/
theorem parse_text {p : Path} (readable : p.Readable) : parse p.text = .ok p := by
  rw [parse_eq_ok_iff, text, String.toList_ofList]
  exact written_chars readable

/-- Two readable paths with the same text are the same. -/
theorem text_injective {p q : Path} (readable : p.Readable) (readable' : q.Readable)
    (same : p.text = q.text) : p = q := by
  have read := parse_text readable
  rw [same, parse_text readable'] at read
  exact (Except.ok.inj read).symm

/-- Every path that is read is readable. -/
theorem readable_of_parse {input : String} {p : Path} (read : parse input = .ok p) : p.Readable := by
  rcases parse_eq_ok_iff.mp read with ⟨rfl, -⟩ | spells
  · exact fun _ mem => nomatch mem
  · exact spells.readable

/-- A path that has to be absolute starts with a name, and is the one that is read. -/
theorem parse_of_parseAbsolute {input : String} {p : Path} (read : parseAbsolute input = .ok p) :
    parse input = .ok p ∧ ∃ name rest, p = .name name :: rest := by
  obtain ⟨q, found, read⟩ := bind_eq_ok.mp read
  split at read
  · next name rest =>
    cases pure_eq_ok.mp read
    exact ⟨found, name, rest, rfl⟩
  · cases read

end Path

end LayeredConfig
