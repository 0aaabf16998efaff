import LayeredConfig.Path.Parser
import LayeredConfig.Proofs.Computation
import Mathlib.Data.List.TakeWhile

/-!
# The ways to write a path

A path can be written in more than one way: a point may stand in front of a bracket, and an index may have
zeros in front. `Spells` lists the ways to go on behind an earlier step, one constructor for each, and
`Written` those for whole texts. The reader accepts exactly these texts (`parse_eq_ok_iff`).

The reader cuts a text at its points first, so the proof that it accepts a text goes along the steps with
the chunk that was read since the last point (`readFields_of_spells`).
-/

namespace LayeredConfig.Path

/-! ## Names and digits -/

theorem isName_iff {name : String} :
    IsName name ↔ Text.isBlankText name.toList = false ∧ name.toList.any isReserved = false := by
  unfold IsName nameFault?
  split
  · next blank => simp [blank]
  · next visible =>
    split
    · next reserved => simp [reserved]
    · next free => simp [visible, free]

theorem IsName.ne_of_mem {name : String} (isName : IsName name) {c : Char} (mem : c ∈ name.toList) :
    c ≠ '.' ∧ c ≠ '[' ∧ c ≠ ']' := by
  have free := List.any_eq_false.mp (isName_iff.mp isName).2 c mem
  simpa [isReserved, and_assoc] using free

theorem IsName.toList_ne_nil {name : String} (isName : IsName name) : name.toList ≠ [] := by
  intro empty
  have visible := (isName_iff.mp isName).1
  simp [Text.isBlankText, empty] at visible

theorem ne_of_isDigit {c : Char} (digit : c.isDigit = true) : c ≠ '.' ∧ c ≠ '[' ∧ c ≠ ']' := by
  refine ⟨?_, ?_, ?_⟩ <;> (rintro rfl; exact absurd digit (by decide))

/-! ## The grammar -/

/-- The digits are a way to write the index. -/
structure Numeral (digits : List Char) (i : Nat) : Prop where
  someDigit : digits ≠ []
  allDigits : ∀ c ∈ digits, c.isDigit = true
  value : Nat.ofDigitChars 10 digits 0 = i
  fits : i < indexLimit

/-- The text goes on with the steps, behind an earlier step.

* `name`: a point comes in front of a name.
* `index`: an index stands in brackets.
* `pointed`: a point may come in front of a bracket too. -/
inductive Spells : Path → List Char → Prop
  | done : Spells [] []
  | name {n : String} {rest : Path} {cs : List Char} :
      IsName n → Spells rest cs → Spells (.name n :: rest) ('.' :: (n.toList ++ cs))
  | index {digits : List Char} {i : Nat} {rest : Path} {cs : List Char} :
      Numeral digits i → Spells rest cs → Spells (.index i :: rest) ('[' :: (digits ++ ']' :: cs))
  | pointed {digits : List Char} {i : Nat} {rest : Path} {cs : List Char} :
      Numeral digits i → Spells rest cs →
      Spells (.index i :: rest) ('.' :: '[' :: (digits ++ ']' :: cs))

/-- The text is a way to write the path: nothing for the root, and otherwise what would go on behind an
earlier step, without the point. -/
def Written (p : Path) (cs : List Char) : Prop :=
  p = [] ∧ cs = [] ∨ Spells p ('.' :: cs)

theorem Spells.pointed_of_bracket {p : Path} {cs : List Char} (spells : Spells p ('[' :: cs)) :
    Spells p ('.' :: '[' :: cs) := by
  generalize shape : '[' :: cs = text at spells
  cases spells with
  | done => cases shape
  | name isName later => exact absurd (List.cons.inj shape).1 (by decide)
  | index numeral later => exact .pointed numeral later
  | pointed numeral later => exact absurd (List.cons.inj shape).1 (by decide)

namespace GrammarLemmas

/-! ## Positions -/

theorem readIndex_eq_ok_iff {digits : List Char} {i : Nat} :
    readIndex digits = .ok i ↔ Numeral digits i := by
  rw [readIndex]
  constructor
  · intro read
    split at read
    · cases read
    · next good =>
      simp only at read
      split at read
      · next fits =>
        cases read
        simp only [Bool.or_eq_true, List.isEmpty_iff, Bool.not_eq_true', not_or,
          Bool.not_eq_false, List.all_eq_true] at good
        exact ⟨good.1, good.2, rfl, fits⟩
      · cases read
  · rintro ⟨someDigit, allDigits, rfl, fits⟩
    have bad : (digits.isEmpty || !digits.all Char.isDigit) = false := by
      simpa [someDigit] using allDigits
    rw [bad, if_neg Bool.false_ne_true]
    exact if_pos fits

/-! ## What is read is written in one of the ways -/

/-- The opening bracket and what was read since. -/
def opened : Option (List Char) → List Char
  | none => []
  | some digits => '[' :: digits

theorem spells_of_readIndexes {cs t : List Char} {digits? : Option (List Char)} {steps rest : Path}
    (read : readIndexes digits? cs = .ok steps) (later : Spells rest t) :
    Spells (steps ++ rest) (opened digits? ++ (cs ++ t)) := by
  induction cs generalizing digits? steps with
  | nil =>
    cases digits? with
    | none =>
      cases read
      exact later
    | some digits => cases read
  | cons c cs ih =>
    cases digits? with
    | none =>
      rw [readIndexes] at read
      split at read
      · next bracket =>
        rw [eq_of_beq bracket]
        exact ih read
      · cases read
    | some digits =>
      rw [readIndexes] at read
      split at read
      · next bracket =>
        obtain ⟨i, index, read⟩ := bind_eq_ok.mp read
        obtain ⟨more, others, read⟩ := bind_eq_ok.mp read
        cases pure_eq_ok.mp read
        rw [eq_of_beq bracket]
        exact .index (readIndex_eq_ok_iff.mp index) (ih others)
      · simpa [opened] using ih read

theorem spells_of_readChunk {chunk t : List Char} {steps rest : Path}
    (read : readChunk chunk = .ok steps) (later : Spells rest t) :
    Spells (steps ++ rest) ('.' :: (chunk ++ t)) := by
  have whole : chunk.takeWhile (· != '[') ++ chunk.dropWhile (· != '[') = chunk :=
    List.takeWhile_append_dropWhile
  unfold readChunk at read
  simp only at read
  split at read
  · next noName =>
    rw [List.isEmpty_iff.mp noName, List.nil_append] at whole
    rw [whole] at read
    match chunk with
    | [] => cases read
    | c :: cs =>
      have bracket : c = '[' := by simpa [List.takeWhile_cons] using noName
      subst bracket
      exact Spells.pointed_of_bracket (spells_of_readIndexes read later)
  · split at read
    · cases read
    · next isName =>
      obtain ⟨more, indexes, read⟩ := bind_eq_ok.mp read
      cases pure_eq_ok.mp read
      have isName : IsName (String.ofList (chunk.takeWhile (· != '['))) := by
        rwa [IsName, String.toList_ofList]
      have spells := Spells.name isName (spells_of_readIndexes indexes later)
      rwa [String.toList_ofList, opened, List.nil_append, ← List.append_assoc, whole] at spells

theorem spells_of_mapM {chunks : List (List Char)} {found : List Path}
    (read : chunks.mapM readChunk = .ok found) :
    Spells found.flatten (chunks.flatMap ('.' :: ·)) := by
  induction chunks generalizing found with
  | nil =>
    cases read
    exact .done
  | cons chunk rest ih =>
    rw [List.mapM_cons] at read
    obtain ⟨steps, first, read⟩ := bind_eq_ok.mp read
    obtain ⟨more, later, read⟩ := bind_eq_ok.mp read
    cases pure_eq_ok.mp read
    exact spells_of_readChunk first (ih later)

theorem cons_joinFields {sep : Char} {fields : List (List Char)} (someField : fields ≠ []) :
    sep :: Text.joinFields sep fields = fields.flatMap (sep :: ·) := by
  obtain ⟨field, more, rfl⟩ := List.exists_cons_of_ne_nil someField
  rw [Text.joinFields_cons, List.flatMap_cons]
  rfl

/-! ## What is written in one of the ways is read -/

theorem not_separator {sep : Char} {cs : List Char} (free : sep ∉ cs) :
    ∀ c ∈ cs, (c == sep) = false := by
  intro c mem
  rw [beq_eq_false_iff_ne]
  rintro rfl
  exact free mem

theorem fields_of_not_mem {sep : Char} {cs : List Char} (free : sep ∉ cs) :
    Text.fields sep cs = [cs] :=
  Text.fieldsBy_of_free (not_separator free)

theorem fields_append_sep {sep : Char} {cs : List Char} (free : sep ∉ cs) (rest : List Char) :
    Text.fields sep (cs ++ sep :: rest) = cs :: Text.fields sep rest :=
  Text.fieldsBy_append_sep (not_separator free) (beq_self_eq_true sep) rest

theorem readIndexes_upTo {digits : List Char} (inside : ∀ c ∈ digits, c ≠ ']')
    (read rest : List Char) :
    readIndexes (some read) (digits ++ ']' :: rest) = do
      let index ← readIndex (read ++ digits)
      let more ← readIndexes none rest
      return .index index :: more := by
  induction digits generalizing read with
  | nil => simp [readIndexes]
  | cons c digits ih =>
    have here : (c == ']') = false := by simpa using inside c List.mem_cons_self
    rw [List.cons_append, readIndexes]
    simp only [here, Bool.false_eq_true, if_false]
    rw [ih (fun d mem => inside d (List.mem_cons_of_mem _ mem))]
    simp

/-- An index in brackets. -/
def bracketed (digits : List Char) : List Char :=
  '[' :: (digits ++ [']'])

theorem readIndexes_bracketed {digits : List Char} {i : Nat} (numeral : Numeral digits i) :
    readIndexes none (bracketed digits) = .ok [.index i] := by
  have inside : ∀ c ∈ digits, c ≠ ']' := fun c mem => (ne_of_isDigit (numeral.allDigits c mem)).2.2
  show readIndexes (some []) (digits ++ [']']) = _
  rw [readIndexes_upTo inside, List.nil_append, readIndex_eq_ok_iff.mpr numeral]
  rfl

theorem point_not_mem_bracketed {digits : List Char} {i : Nat} (numeral : Numeral digits i) :
    '.' ∉ bracketed digits := by
  intro mem
  simp only [bracketed, List.mem_cons, List.mem_append, List.not_mem_nil, or_false] at mem
  rcases mem with bad | digit | bad
  · exact absurd bad (by decide)
  · exact (ne_of_isDigit (numeral.allDigits _ digit)).1 rfl
  · exact absurd bad (by decide)

theorem readIndexes_append {cs t : List Char} {digits? : Option (List Char)} {steps more : Path}
    (read : readIndexes digits? cs = .ok steps) (read' : readIndexes none t = .ok more) :
    readIndexes digits? (cs ++ t) = .ok (steps ++ more) := by
  induction cs generalizing digits? steps with
  | nil =>
    cases digits? with
    | none =>
      cases read
      exact read'
    | some digits => cases read
  | cons c cs ih =>
    cases digits? with
    | none =>
      rw [readIndexes] at read
      rw [List.cons_append, readIndexes]
      split at read
      · next bracket => rw [if_pos bracket, ih read]
      · cases read
    | some digits =>
      rw [readIndexes] at read
      rw [List.cons_append, readIndexes]
      split at read
      · next bracket =>
        obtain ⟨i, index, read⟩ := bind_eq_ok.mp read
        obtain ⟨others, later, read⟩ := bind_eq_ok.mp read
        cases pure_eq_ok.mp read
        rw [if_pos bracket, index, ih later]
        rfl
      · next inside => rw [if_neg inside, ih read]

theorem takeWhile_append_bracket (cs rest : List Char) :
    (cs ++ '[' :: rest).takeWhile (· != '[') = cs.takeWhile (· != '[') := by
  induction cs with
  | nil => rfl
  | cons c cs ih => rw [List.cons_append, List.takeWhile_cons, List.takeWhile_cons, ih]

theorem dropWhile_append_bracket (cs rest : List Char) :
    (cs ++ '[' :: rest).dropWhile (· != '[') = cs.dropWhile (· != '[') ++ '[' :: rest := by
  induction cs with
  | nil => rfl
  | cons c cs ih =>
    rw [List.cons_append, List.dropWhile_cons, List.dropWhile_cons, ih]
    split <;> rfl

/-- An index in brackets extends a chunk by one step. -/
theorem readChunk_append {chunk digits : List Char} {steps : Path} {i : Nat}
    (read : readChunk chunk = .ok steps) (numeral : Numeral digits i) :
    readChunk (chunk ++ bracketed digits) = .ok (steps ++ [.index i]) := by
  have bracket := readIndexes_bracketed numeral
  have more : ((chunk ++ bracketed digits).dropWhile (· != '[')).isEmpty = false := by
    rw [bracketed, dropWhile_append_bracket]
    simp
  rw [readChunk, bracketed, takeWhile_append_bracket, dropWhile_append_bracket, ← bracketed]
  rw [readChunk] at read
  split at read
  · next noName =>
    split at read
    · cases read
    · rw [if_pos noName, readIndexes_append read bracket]
      simp [bracketed]
  · next name =>
    rw [if_neg name]
    split at read
    · cases read
    · obtain ⟨indexes, found, same⟩ := bind_eq_ok.mp read
      cases pure_eq_ok.mp same
      rw [readIndexes_append found bracket]
      rfl

theorem readChunk_bracketed {digits : List Char} {i : Nat} (numeral : Numeral digits i) :
    readChunk (bracketed digits) = .ok [.index i] :=
  readIndexes_bracketed numeral

theorem readChunk_name {name : String} (isName : IsName name) :
    readChunk name.toList = .ok [.name name] := by
  have inName : ∀ c ∈ name.toList, (c != '[') = true :=
    fun c mem => by simpa using (isName.ne_of_mem mem).2.1
  have whole : name.toList.takeWhile (· != '[') = name.toList :=
    List.takeWhile_eq_self_iff.mpr inName
  have nothing : name.toList.dropWhile (· != '[') = [] := List.dropWhile_eq_nil_iff.mpr inName
  rw [readChunk, whole, nothing, if_neg (by simpa using isName.toList_ne_nil)]
  rw [show nameFault? name.toList = none from isName, String.ofList_toList]
  rfl

/-- What the chunks between the points of a text are read as. -/
def readFields (cs : List Char) : Except Fault Path :=
  List.flatten <$> (Text.fields '.' cs).mapM readChunk

theorem readChars_of_ne_nil {cs : List Char} (someChar : cs ≠ []) : readChars cs = readFields cs := by
  cases cs with
  | nil => exact absurd rfl someChar
  | cons c cs =>
    rw [readChars, readFields, bind_pure_comp]
    exact List.cons_ne_nil c cs

theorem readFields_chunk {chunk : List Char} {steps : Path} (noPoint : '.' ∉ chunk)
    (read : readChunk chunk = .ok steps) : readFields chunk = .ok steps := by
  rw [readFields, fields_of_not_mem noPoint, List.mapM_cons, read]
  exact congrArg Except.ok (List.append_nil steps)

theorem readFields_point {chunk cs : List Char} {steps rest : Path} (noPoint : '.' ∉ chunk)
    (read : readChunk chunk = .ok steps) (later : readFields cs = .ok rest) :
    readFields (chunk ++ '.' :: cs) = .ok (steps ++ rest) := by
  obtain ⟨found, parsed, rfl⟩ := map_eq_ok.mp later
  rw [readFields, fields_append_sep noPoint, List.mapM_cons, read, parsed]
  rfl

/-- Reading goes on through the rest of a text. The induction is on the steps that are still to come; a
bracket extends the chunk that was read since the last point, and a point closes it. -/
theorem readFields_of_spells {rest : Path} {cs : List Char} (spells : Spells rest cs)
    {chunk : List Char} {steps : Path} (noPoint : '.' ∉ chunk) (read : readChunk chunk = .ok steps) :
    readFields (chunk ++ cs) = .ok (steps ++ rest) := by
  induction spells generalizing chunk steps with
  | done =>
    rw [List.append_nil, List.append_nil]
    exact readFields_chunk noPoint read
  | @name n rest cs isName _ ih =>
    have inName : '.' ∉ n.toList := fun mem => (isName.ne_of_mem mem).1 rfl
    exact readFields_point noPoint read (ih inName (readChunk_name isName))
  | @index digits i rest cs numeral _ ih =>
    have longer : '.' ∉ chunk ++ bracketed digits := by
      simp [noPoint, point_not_mem_bracketed numeral]
    simpa [bracketed] using ih longer (readChunk_append read numeral)
  | @pointed digits i rest cs numeral _ ih =>
    have later := ih (point_not_mem_bracketed numeral) (readChunk_bracketed numeral)
    simpa [bracketed] using readFields_point noPoint read later

end GrammarLemmas

open GrammarLemmas

/-- The reader accepts exactly the ways to write a path. -/
theorem readChars_eq_ok_iff {p : Path} {cs : List Char} : readChars cs = .ok p ↔ Written p cs := by
  constructor
  · intro read
    by_cases empty : cs = []
    · subst empty
      cases read
      exact .inl ⟨rfl, rfl⟩
    · rw [readChars_of_ne_nil empty] at read
      obtain ⟨found, parsed, rfl⟩ := map_eq_ok.mp read
      have someField : Text.fields '.' cs ≠ [] := Text.fieldsBy_ne_nil _ cs
      have spells := spells_of_mapM parsed
      rw [← cons_joinFields someField, Text.join_fields] at spells
      exact .inr spells
  · rintro (⟨rfl, rfl⟩ | spells)
    · rfl
    · generalize shape : '.' :: cs = text at spells
      cases spells with
      | done => cases shape
      | @name n rest cs' isName later =>
        cases shape
        rw [readChars_of_ne_nil (by simp [isName.toList_ne_nil])]
        exact readFields_of_spells later (fun mem => (isName.ne_of_mem mem).1 rfl)
          (readChunk_name isName)
      | index numeral later => exact absurd (List.cons.inj shape).1 (by decide)
      | @pointed digits i rest cs' numeral later =>
        cases shape
        have read := readFields_of_spells later (point_not_mem_bracketed numeral)
          (readChunk_bracketed numeral)
        rw [readChars_of_ne_nil (List.cons_ne_nil _ _)]
        simpa [bracketed] using read

theorem parse_eq_ok_iff {input : String} {p : Path} :
    parse input = .ok p ↔ Written p input.toList := by
  rw [parse, mapError_ok_iff, readChars_eq_ok_iff]

end LayeredConfig.Path
