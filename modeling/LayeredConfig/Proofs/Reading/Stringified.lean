import LayeredConfig.Proofs.Expression
import LayeredConfig.Proofs.Number.Numerals
import LayeredConfig.Reading

/-!
# Values and their texts

The types of exact numbers read an integer and its text alike, and the type of truth values does so with a truth
value and its text (`read_text_alike`). The text is what an expression leaves of a value that it joins with
others.
-/

namespace LayeredConfig

open Number

/-! ## The outcome of a read -/

section Outcome

variable {α : Type} {read : Result α} {outcome : Option α}

/-- The read fails because the value does not convert. -/
def ConversionFails (read : Result α) : Prop :=
  ∃ e, read = .error e ∧ e.kind = .valueConversion

theorem conversionFails_valueConversion (place expected got : String) :
    ConversionFails (.error (.valueConversion place expected got) : Result α) :=
  ⟨_, rfl, rfl⟩

/-- The read gives the value, or fails to convert if there is none. -/
def Yields (read : Result α) : Option α → Prop
  | some x => read = .ok x
  | none => ConversionFails read

theorem Yields.eq_ok_iff (yields : Yields read outcome) {x : α} : read = .ok x ↔ outcome = some x := by
  cases outcome with
  | some y =>
    rw [show read = .ok y from yields, Except.ok.injEq, Option.some.injEq]
  | none =>
    obtain ⟨e, failed, -⟩ := yields
    rw [failed]
    exact iff_of_false (fun same => nomatch same) (fun same => nomatch same)

theorem Yields.conversionFails_iff (yields : Yields read outcome) :
    ConversionFails read ↔ outcome = none := by
  cases outcome with
  | some y =>
    refine iff_of_false ?_ (Option.some_ne_none y)
    rintro ⟨e, failed, -⟩
    cases failed.symm.trans yields
  | none => exact iff_of_true yields rfl

end Outcome

/-- What a leaf with the literal is read as, with the built-in parsers. -/
def readLiteral (place : Path) (t : ReadType) (l : Literal) : Result t.Carrier :=
  Registry.builtins.read place t (.leaf (.literal l))

/-- Two literals are read alike: as the same, or both as nothing because they do not convert. -/
def ReadAlike (place : Path) (t : ReadType) (l l' : Literal) : Prop :=
  (∀ x, readLiteral place t l = .ok x ↔ readLiteral place t l' = .ok x) ∧
    (ConversionFails (readLiteral place t l) ↔ ConversionFails (readLiteral place t l'))

section Alike

variable {place : Path} {t : ReadType} {l l' : Literal} {outcome : Option t.Carrier}

theorem ReadAlike.refl (place : Path) (t : ReadType) (l : Literal) : ReadAlike place t l l :=
  ⟨fun _ => Iff.rfl, Iff.rfl⟩

theorem ReadAlike.symm (alike : ReadAlike place t l l') : ReadAlike place t l' l :=
  ⟨fun x => (alike.1 x).symm, alike.2.symm⟩

theorem readAlike_of_yields (yields : Yields (readLiteral place t l) outcome)
    (yields' : Yields (readLiteral place t l') outcome) : ReadAlike place t l l' :=
  ⟨fun _ => yields.eq_ok_iff.trans yields'.eq_ok_iff.symm,
    yields.conversionFails_iff.trans yields'.conversionFails_iff.symm⟩

end Alike

/-! ## The built-in parsers -/

namespace Registry

variable {t : ReadType} {place : Path} {parser : String → Except String t.Carrier} {text : String}
  {outcome : Option t.Carrier}

/-- The built-in parser for the type. -/
def IsParser (t : ReadType) (parser : String → Except String t.Carrier) : Prop :=
  ∀ text, builtins.find? (·.appliesTo t text) = some (.forType t parser)

theorem isParser_int (kind : IntKind) :
    IsParser (.int kind) fun text => (kind.read text).mapError IntFault.message := by
  intro text
  cases kind <;> rfl

theorem isParser_decimal :
    IsParser .decimal fun text => (Decimal.read text).mapError DecimalFault.message := fun _ => rfl

theorem isParser_bool : IsParser .bool parseBool := fun _ => rfl

/-- A text yields what the parser for the type makes of it. -/
theorem yields_parse (built : IsParser t parser)
    (makes : ∀ x, parser text = .ok x ↔ outcome = some x) : Yields (builtins.parse place t text) outcome := by
  unfold parse
  simp only [built text, ValueParser.forType]
  cases parsed : parser text with
  | ok x =>
    have same : Reading.as? ⟨t, x⟩ t = some x := dif_pos rfl
    rw [(makes x).mp parsed]
    simp only [Except.map, same]
    rfl
  | error cause =>
    have fails : outcome = none := by
      rw [Option.eq_none_iff_forall_ne_some]
      intro x made
      cases ((makes x).mpr made).symm.trans parsed
    rw [fails]
    exact ⟨_, rfl, rfl⟩

theorem yields_parse_of_ok (built : IsParser t parser) {x : t.Carrier} (parsed : parser text = .ok x) :
    Yields (builtins.parse place t text) (some x) :=
  yields_parse built fun _ => by rw [parsed, Except.ok.injEq, Option.some.injEq]

end Registry

/-! ## Numbers and truth values -/

section Literals

variable {place : Path} {kind : IntKind}

/-- A literal that is no text yields what it converts to. -/
theorem yields_literal {t : ReadType} {l : Literal} (noText : ∀ text, l ≠ .string text)
    (noValue : t ≠ .value) : Yields (readLiteral place t l) (t.ofLiteral? l) := by
  have converted : t.ofScalar? (.literal l) = t.ofLiteral? l := by
    cases t <;> first | rfl | exact absurd rfl noValue
  show Yields (Registry.builtins.readScalar place t (.literal l)) _
  unfold Registry.readScalar
  rw [converted]
  cases t.ofLiteral? l with
  | some x => rfl
  | none =>
    cases l with
    | string text => exact absurd rfl (noText text)
    | bool b => exact conversionFails_valueConversion _ _ _
    | integer n => exact conversionFails_valueConversion _ _ _
    | float x => exact conversionFails_valueConversion _ _ _

theorem yields_int_text (n : Int64) :
    Yields (readLiteral place (.int kind) (.string (Literal.integer n).display)) (kind.ofInt? n.toInt) :=
  Registry.yields_parse (Registry.isParser_int kind) fun _ =>
    mapError_ok_iff.trans IntKind.read_toString_eq_ok_iff

theorem natAbs_toInt_lt (n : Int64) : n.toInt.natAbs < 2 ^ 96 := by
  have low := n.le_toInt
  have high := n.toInt_lt
  omega

theorem yields_decimal_text (n : Int64) :
    Yields (readLiteral place .decimal (.string (Literal.integer n).display)) (Decimal.ofInt? n.toInt) := by
  obtain ⟨d, made, -⟩ := Decimal.exists_ofInt? (natAbs_toInt_lt n)
  have read : (Decimal.read (toString n.toInt)).mapError DecimalFault.message = .ok d :=
    mapError_ok_iff.mpr (Decimal.read_toString made)
  rw [made]
  exact Registry.yields_parse_of_ok Registry.isParser_decimal read

theorem yields_bool_text (b : Bool) :
    Yields (readLiteral place .bool (.string (Literal.bool b).display)) (some b) := by
  have read : parseBool (Literal.bool b).display = .ok b := by
    cases b <;> rfl
  exact Registry.yields_parse_of_ok Registry.isParser_bool read

end Literals

/-! ## The types of exact numbers -/

namespace ReadType

/-- The types of numbers that are not rounded. -/
def exactTypes : List ReadType :=
  [.int .i8, .int .i16, .int .i32, .int .i64, .int .u8, .int .u16, .int .u32, .int .u64, .int .usize,
    .decimal]

/-- The reading is just the integer. -/
def Denotes : (t : ReadType) → t.Carrier → Int → Prop
  | .int _, x, n => x.value = n
  | .decimal, x, n => Decimal.value x = n
  | _, _, _ => False

/-- The integer is in the range of the type. -/
def Holds : ReadType → Int → Prop
  | .int kind, n => kind.Holds n
  | .decimal, n => n.natAbs < 2 ^ 96
  | _, _ => False

theorem eq_of_mem_exactTypes {t : ReadType} (mem : t ∈ exactTypes) :
    (∃ kind, t = .int kind) ∨ t = .decimal := by
  simp only [exactTypes, List.mem_cons, List.not_mem_nil, or_false] at mem
  rcases mem with rfl | rfl | rfl | rfl | rfl | rfl | rfl | rfl | rfl | rfl
  all_goals first | exact .inl ⟨_, rfl⟩ | exact .inr rfl

end ReadType

/-- A type of exact numbers yields the same from an integer and from its text: the integer, if it is in the
range of the type. -/
theorem exists_yields {t : ReadType} (mem : t ∈ ReadType.exactTypes) (place : Path) (n : Int64) :
    ∃ outcome, Yields (readLiteral place t (.integer n)) outcome ∧
      Yields (readLiteral place t (.string (Literal.integer n).display)) outcome ∧
      (∀ x, outcome = some x → t.Denotes x n.toInt) ∧ (outcome = none ↔ ¬t.Holds n.toInt) := by
  have typed (noValue : t ≠ .value) : Yields (readLiteral place t (.integer n)) (t.ofLiteral? (.integer n)) :=
    yields_literal (fun _ same => nomatch same) noValue
  rcases ReadType.eq_of_mem_exactTypes mem with ⟨kind, rfl⟩ | rfl
  · refine ⟨kind.ofInt? n.toInt, typed (fun same => nomatch same), yields_int_text n, fun x made => ?_, ?_⟩
    · exact (IntKind.ofInt?_eq_some_iff.mp made).symm
    · exact IntKind.ofInt?_eq_none_iff
  · obtain ⟨d, made, value⟩ := Decimal.exists_ofInt? (natAbs_toInt_lt n)
    refine ⟨some d, made ▸ typed (fun same => nomatch same), made ▸ yields_decimal_text n, ?_, ?_⟩
    · rintro _ ⟨⟩
      exact value
    · exact iff_of_false (Option.some_ne_none d) fun beyond => beyond (natAbs_toInt_lt n)

/-! ## Joined texts -/

section Joined

open Resolution

variable {value? : String → Option Literal} {e : Expression} {values front back : List Literal} {v : Literal}

/-- An expression whose references all have a value is what its values collapse to. -/
theorem fillExpression_of_values
    (filled : e.segments.map (fun segment => (fillSegment value? segment).value?) = values.map some) :
    fillExpression value? e = .literal (collapse values) := by
  have segments : (e.segments.map (fillSegment value?)).map Segment.value? = values.map some := by
    rw [List.map_map]
    exact filled
  have found : (e.segments.map (fillSegment value?)).filterMap Segment.value? = values :=
    calc
      (e.segments.map (fillSegment value?)).filterMap Segment.value?
          = ((e.segments.map (fillSegment value?)).map Segment.value?).filterMap id :=
        (List.filterMap_map (f := Segment.value?) (g := id)).symm
      _ = (values.map some).filterMap id := by rw [segments]
      _ = values.filterMap some := List.filterMap_map
      _ = values := List.filterMap_some
  have fixed : Expression.isFixed { e with segments := e.segments.map (fillSegment value?) } = true := by
    rw [Expression.isFixed, List.all_eq_true]
    intro segment mem
    obtain ⟨w, -, same⟩ := List.mem_map.mp (segments ▸ List.mem_map_of_mem mem)
    cases segment with
    | fixed w => rfl
    | reference => cases same
  rw [fillExpression, Expression.toScalar, Expression.value?, if_pos fixed, found]

/-- Values that are joined with empty texts only are left as they are, or are their own text. -/
theorem collapse_of_blank (blank : ∀ w ∈ front ++ back, w.display = "") :
    collapse (front ++ v :: back) = v ∨ collapse (front ++ v :: back) = .string v.display := by
  have empty : ∀ ws : List Literal, (∀ w ∈ ws, w.display = "") →
      (ws.map Literal.display).flatMap String.toList = [] := by
    intro ws blank
    rw [List.flatMap_map, List.flatMap_eq_nil_iff]
    exact fun w mem => by rw [blank w mem]; rfl
  have joined : String.join ((front ++ v :: back).map Literal.display) = v.display := by
    rw [← String.toList_inj, String.toList_join, List.map_append, List.map_cons, List.flatMap_append,
      List.flatMap_cons, empty front fun w mem => blank w (List.mem_append_left _ mem),
      empty back fun w mem => blank w (List.mem_append_right _ mem), List.nil_append, List.append_nil]
  unfold collapse
  split
  · next only =>
    left
    match front with
    | [] => exact (List.cons.inj only).1.symm
    | _ :: front => exact absurd (List.cons.inj only).2 (by simp)
  · rw [joined]
    exact .inr rfl

end Joined

/-- An integer and its text are read alike by all types of exact numbers: as the integer, or as nothing if it is
not in the range of the type. So are a truth value and its text by the type of truth values. An expression that
joins a value with empty texts only is therefore read as the value. -/
theorem read_text_alike (place : Path) :
    (∀ n : Int64, ∀ t ∈ ReadType.exactTypes,
      ReadAlike place t (.integer n) (.string (Literal.integer n).display) ∧
        (∀ x, readLiteral place t (.integer n) = .ok x → t.Denotes x n.toInt) ∧
        (ConversionFails (readLiteral place t (.integer n)) ↔ ¬t.Holds n.toInt)) ∧
    (∀ b, ReadAlike place .bool (.bool b) (.string (Literal.bool b).display) ∧
      ∀ x, readLiteral place .bool (.bool b) = .ok x ↔ x = b) ∧
    ∀ (value? : String → Option Literal) (e : Expression) (front back : List Literal) (v : Literal),
      e.segments.map (fun segment => (Resolution.fillSegment value? segment).value?) =
        (front ++ v :: back).map some →
      (∀ w ∈ front ++ back, w.display = "") →
      ∃ joined, Resolution.fillExpression value? e = .literal joined ∧
        (∀ n, v = .integer n → ∀ t ∈ ReadType.exactTypes, ReadAlike place t joined v) ∧
        ∀ b, v = .bool b → ReadAlike place .bool joined v := by
  have integers : ∀ n : Int64, ∀ t ∈ ReadType.exactTypes,
      ReadAlike place t (.integer n) (.string (Literal.integer n).display) := by
    intro n t mem
    obtain ⟨outcome, typed, texts, -⟩ := exists_yields mem place n
    exact readAlike_of_yields typed texts
  have typed : ∀ b, Yields (readLiteral place .bool (.bool b)) (some b) := fun _ => rfl
  have truths : ∀ b, ReadAlike place .bool (.bool b) (.string (Literal.bool b).display) := fun b =>
    readAlike_of_yields (typed b) (yields_bool_text b)
  refine ⟨fun n t mem => ⟨integers n t mem, ?_⟩, fun b => ⟨truths b, ?_⟩, ?_⟩
  · obtain ⟨outcome, typed, -, denotes, range⟩ := exists_yields mem place n
    exact ⟨fun x read => denotes x (typed.eq_ok_iff.mp read), typed.conversionFails_iff.trans range⟩
  · intro x
    exact (typed b).eq_ok_iff.trans
      ⟨fun same => (Option.some.inj same).symm, fun same => congrArg some same.symm⟩
  · -- what is joined with empty texts only is the value or its text
    intro value? e front back v filled blank
    refine ⟨_, fillExpression_of_values filled, ?_, ?_⟩
    · rintro n rfl t mem
      rcases collapse_of_blank blank with same | same
      · exact same ▸ .refl place t _
      · exact same ▸ (integers n t mem).symm
    · rintro b rfl
      rcases collapse_of_blank blank with same | same
      · exact same ▸ .refl place .bool _
      · exact same ▸ (truths b).symm

theorem read_text_alike_port :
    ConversionFails (readLiteral Path.root (.int .u8) (.integer 8080)) ∧
      ∃ joined, Resolution.fillExpression (fun _ => some (.integer 8080))
          ⟨"$\x7bport\x7d", [.reference "port" ["port"], .fixed (.string "")]⟩ = .literal joined ∧
        ReadAlike Path.root (.int .u16) joined (.integer 8080) := by
  obtain ⟨integers, -, expressions⟩ := read_text_alike Path.root
  constructor
  · refine (integers 8080 (.int .u8) (by decide)).2.2.mpr ?_
    show ¬IntKind.u8.Holds (8080 : Int64).toInt
    decide
  · obtain ⟨joined, filled, alike, -⟩ := expressions (fun _ => some (.integer 8080))
      ⟨"$\x7bport\x7d", [.reference "port" ["port"], .fixed (.string "")]⟩ [] [.string ""] (.integer 8080)
      rfl (by decide)
    exact ⟨joined, filled, alike 8080 rfl (.int .u16) (by decide)⟩

end LayeredConfig
