import LayeredConfig.Proofs.Expression.Rendering
import LayeredConfig.Proofs.Resolution.Lookup
import Mathlib.Data.List.TakeWhile

/-!
# Default texts

The last of several alternatives doubles as the default of a reference: it is looked up like the ones before
it, and stands for itself if nothing is found. Quotes around it only delimit it, so it makes no difference to
a lookup whether it was written in quotes (`resolve_defaulted`).
-/

namespace LayeredConfig

/-- Something is left of a text that is not blank. -/
theorem Text.trim_ne_nil {cs : List Char} (visible : isBlankText cs = false) : trim cs ≠ [] := by
  intro empty
  rw [trim, List.reverse_eq_nil_iff, List.dropWhile_eq_nil_iff] at empty
  cases start : cs.dropWhile isBlank with
  | nil =>
    have blank : isBlankText cs = true := List.all_eq_true.mpr (List.dropWhile_eq_nil_iff.mp start)
    rw [blank] at visible
    cases visible
  | cons c rest =>
    have first : isBlank c = false := by simpa [start] using List.head?_dropWhile_not isBlank cs
    rw [start] at empty
    rw [empty c (by simp)] at first
    cases first

/-! ## References without quotes -/

namespace Alternatives

/-- A character without a meaning of its own between the braces of a reference. -/
def isBare (c : Char) : Bool :=
  !isQuote c && c != '?' && c != '{' && c != '}' && c != '\\'

/-- A reference that can stand between the braces without quotes. -/
structure Bare (reference : String) : Prop where
  visible : Text.isBlankText reference.toList = false
  noColon : reference.toList.head? ≠ some ':'
  plain : reference.toList.all isBare = true

/-- References as they stand in front of another alternative. -/
def separated (references : List String) : List Char :=
  references.flatMap fun a => a.toList ++ ['?']

section Bare

variable {cs chunk rest : List Char} {reference : String} {references : List String}

theorem isBare_iff {c : Char} :
    isBare c = true ↔ isQuote c = false ∧ c ≠ '?' ∧ c ≠ '{' ∧ c ≠ '}' ∧ c ≠ '\\' := by
  simp [isBare, and_assoc]

theorem scan_plain {c : Char} (bare : isBare c = true) (chunk rest : List Char) :
    scan none chunk (c :: rest) = scan none (chunk ++ [c]) rest := by
  obtain ⟨noQuote, noSeparator, -, -, noBackslash⟩ := isBare_iff.mp bare
  rw [scan_unquoted noBackslash, if_neg (by simp [noQuote]), if_neg noSeparator]

theorem scan_bare (plain : cs.all isBare = true) (chunk rest : List Char) :
    scan none chunk (cs ++ rest) = scan none (chunk ++ cs) rest := by
  induction cs generalizing chunk with
  | nil => rw [List.nil_append, List.append_nil]
  | cons c cs ih =>
    rw [List.all_cons, Bool.and_eq_true] at plain
    obtain ⟨here, later⟩ := plain
    rw [List.cons_append, scan_plain here, ih later, List.append_assoc, List.singleton_append]

theorem piece_bare (bare : Bare reference) : piece reference.toList = [Text.trimmed reference] := by
  rw [piece, if_neg (by simpa using Text.trim_ne_nil bare.visible)]
  rfl

/-- No `:` follows a separator, where another reference or the rest comes. -/
theorem separated_append_ne_colon (bare : ∀ a ∈ references, Bare a)
    (noColon : ∀ more, rest ≠ ':' :: more) (more : List Char) :
    separated references ++ rest ≠ ':' :: more := by
  cases references with
  | nil => exact noColon more
  | cons first others =>
    have here := bare first List.mem_cons_self
    cases chars : first.toList with
    | nil =>
      have visible := here.visible
      rw [chars] at visible
      cases visible
    | cons c cs =>
      rw [separated, List.flatMap_cons, chars]
      intro same
      exact here.noColon (by rw [chars, List.head?_cons, (List.cons.inj same).1])

theorem scan_references (bare : ∀ a ∈ references, Bare a) (noColon : ∀ more, rest ≠ ':' :: more) :
    scan none [] (separated references ++ rest) =
      (references.map Text.trimmed ++ ·) <$> scan none [] rest := by
  induction references with
  | nil => exact (id_map _).symm
  | cons first others ih =>
    obtain ⟨here, later⟩ := List.forall_mem_cons.mp bare
    have shape : separated (first :: others) ++ rest =
        first.toList ++ '?' :: (separated others ++ rest) := by
      simp [separated]
    rw [shape, scan_bare here.plain, List.nil_append,
      scan_separator (separated_append_ne_colon later noColon), piece_bare here, ih later, ← comp_map]
    rfl

end Bare

end Alternatives

/-! ## References with a default -/

namespace Template

open Alternatives (isBare_iff separated Bare Plain isQuote)

/-- The template of a reference with a default in quotes. -/
def defaulted (references : List String) (default : String) : String :=
  "$\x7b" ++ String.join (references.map (· ++ "?")) ++ "'" ++ default ++ "'\x7d"

/-- References that need no quotes, at least one, and a default that can stand in quotes as it is. -/
structure Defaulted (references : List String) (default : String) : Prop where
  someReference : references ≠ []
  bare : ∀ a ∈ references, Bare a
  plain : Plain default
  noQuote : default.toList.any isQuote = false

section Defaulted

variable {cs : List Char} {references : List String} {default : String}

theorem scan_bare (plain : ∀ c ∈ cs, c ≠ '\\' ∧ c ≠ '}' ∧ isQuote c = false) (chars rest : List Char) :
    scan (.reference chars none) (cs ++ rest) = scan (.reference (chars ++ cs) none) rest := by
  induction cs generalizing chars with
  | nil => rw [List.nil_append, List.append_nil]
  | cons c cs ih =>
    obtain ⟨⟨noBackslash, noBrace, noQuote⟩, later⟩ := List.forall_mem_cons.mp plain
    have next : nextQuote c none = none := if_neg (by simp [noQuote])
    rw [List.cons_append, scan_inside noBackslash fun closes => noBrace closes.1, next, ih later,
      List.append_assoc, List.singleton_append]

theorem plain_separated (bare : ∀ a ∈ references, Bare a) :
    ∀ c ∈ separated references, c ≠ '\\' ∧ c ≠ '}' ∧ isQuote c = false := by
  intro c mem
  obtain ⟨a, isReference, mem⟩ := List.mem_flatMap.mp mem
  rcases List.mem_append.mp mem with inside | separator
  · have isBare := List.all_eq_true.mp (bare a isReference).plain c inside
    obtain ⟨noQuote, -, -, noBrace, noBackslash⟩ := isBare_iff.mp isBare
    exact ⟨noBackslash, noBrace, noQuote⟩
  · obtain rfl := List.mem_singleton.mp separator
    decide

theorem quoted_of_noQuote (noQuote : default.toList.any isQuote = false) :
    quoted default = '\'' :: (default.toList ++ ['\'']) := by
  have same : escape isQuote default.toList = default.toList := by
    rw [escape, List.flatMap_congr fun c mem => if_neg (List.any_eq_false.mp noQuote c mem),
      List.flatMap_singleton']
  rw [quoted, same]

theorem defaulted_toList (form : Defaulted references default) :
    (defaulted references default).toList =
      '$' :: '{' :: ((separated references ++ quoted default) ++ ['}']) := by
  simp [defaulted, separated, String.toList_append, String.toList_join, List.flatMap_map,
    quoted_of_noQuote form.noQuote]

/-- A reference with a default in quotes is read as one reference, with the default as the last
alternative. -/
theorem parse_defaulted (form : Defaulted references default) :
    ∃ source, Expression.parse (defaulted references default) =
      .ok ⟨defaulted references default,
        [.reference source (references.map Text.trimmed ++ [default])]⟩ := by
  have split : Alternatives.scan none [] (separated references ++ quoted default) =
      .ok (references.map Text.trimmed ++ [default]) := by
    have last := Alternatives.scan_quoted form.plain []
    have noColon : ∀ more, quoted default ≠ ':' :: more :=
      fun _ same => absurd (List.cons.inj same).1 (by decide)
    rw [List.append_nil] at last
    rw [Alternatives.scan_references form.bare noColon, last]
    rfl
  have closed := referenceSegment_of_scan split (by simp)
  refine ⟨Text.trimmed (String.ofList (separated references ++ quoted default)), ?_⟩
  refine Expression.parse_eq_ok_iff.mpr ⟨?_, rfl⟩
  rw [segments, defaulted_toList form, scan_open, List.append_assoc, scan_bare (plain_separated form.bare),
    scan_quoted form.plain, List.nil_append, scan_close closed]
  rfl

end Defaulted

end Template

/-! ## Resolving a reference with a default -/

namespace Resolution

open Template (defaulted Defaulted)

/-- Without a value for those before it, the last of several alternatives has its value, or is a text. -/
theorem choose_append_default {value? : String → Option Literal} {references : List String}
    {default : String} (someReference : references ≠ []) (noValue : ∀ a ∈ references, value? a = none) :
    choose value? (references ++ [default]) = some ((value? default).getD (.string default)) := by
  have found : (references ++ [default]).findSome? value? = value? default := by
    rw [List.findSome?_append, List.findSome?_eq_none_iff.mpr noValue, Option.none_or,
      List.findSome?_singleton]
  unfold choose
  rw [found]
  cases value? default with
  | some v => rfl
  | none =>
    match references with
    | [] => exact absurd rfl someReference
    | [first] => rfl
    | first :: second :: others => simp

/-- If none of the references has a value, a default in quotes has the value to which it refers. If it refers
to none, it is the text between the quotes, whatever else the scope holds. -/
theorem resolve_defaulted {references : List String} {default : String}
    (form : Defaulted references default) :
    ∃ e, Expression.parse (defaulted references default) = .ok e ∧
      ∀ scope chain, (∀ a ∈ references, lookup scope chain (Text.trimmed a) = none) →
        resolve scope e chain = .literal ((lookup scope chain default).getD (.string default)) := by
  obtain ⟨source, parsed⟩ := Template.parse_defaulted form
  refine ⟨_, parsed, fun scope chain noValue => ?_⟩
  have someAlternative : references.map Text.trimmed ≠ [] := by simpa using form.someReference
  have noValue' : ∀ a ∈ references.map Text.trimmed, lookup scope chain a = none := by
    simpa using noValue
  rw [resolve, fillExpression_single rfl, choose_append_default someAlternative noValue']

/-- A default that refers to nothing, and one that refers to a leaf, in the same scope. -/
theorem resolve_defaulted_greeting :
    let scope : Node := .map [("World", .leaf (.literal (.integer 5)))]
    (∃ e, Expression.parse "$\x7bname? nick ?'Who? \x7bme\x7d'\x7d" = .ok e ∧
        resolve scope e (Chain.enter [] e) = .literal (.string "Who? \x7bme\x7d")) ∧
      ∃ e, Expression.parse "$\x7bname? nick ?'World'\x7d" = .ok e ∧
        resolve scope e (Chain.enter [] e) = .literal (.integer 5) := by
  intro scope
  have bare : ∀ a ∈ ["name", " nick "], Alternatives.Bare a :=
    List.forall_mem_cons.mpr ⟨⟨by decide, by decide, by decide⟩,
      List.forall_mem_singleton.mpr ⟨by decide, by decide, by decide⟩⟩
  have noValue : ∀ chain, ∀ a ∈ ["name", " nick "], lookup scope chain (Text.trimmed a) = none :=
    fun chain => List.forall_mem_cons.mpr ⟨lookup_of_none rfl,
      List.forall_mem_singleton.mpr (lookup_of_none rfl)⟩
  have text : Defaulted ["name", " nick "] "Who? \x7bme\x7d" :=
    ⟨by decide, bare, ⟨by decide, by decide, by decide⟩, by decide⟩
  have path : Defaulted ["name", " nick "] "World" :=
    ⟨by decide, bare, ⟨by decide, by decide, by decide⟩, by decide⟩
  obtain ⟨e, read, resolved⟩ := resolve_defaulted text
  obtain ⟨e', read', resolved'⟩ := resolve_defaulted path
  refine ⟨⟨e, read, ?_⟩, e', read', ?_⟩
  · rw [resolved scope _ (noValue _), lookup_of_none (by rfl)]
    rfl
  · rw [resolved' scope _ (noValue _), lookup_of_literal (v := .integer 5) (by rfl)]
    rfl

/-- Quotes do not keep a default from being looked up. -/
theorem quoted_default_refers :
    let scope : Node := .map [("World", .leaf (.literal (.integer 5)))]
    Defaulted ["name"] "World" ∧ defaulted ["name"] "World" = "$\x7bname?'World'\x7d" ∧
      ∃ e, Expression.parse (defaulted ["name"] "World") = .ok e ∧
        lookup scope (Chain.enter [] e) (Text.trimmed "name") = none ∧
        resolve scope e (Chain.enter [] e) = .literal (.integer 5) ∧
        resolve scope e (Chain.enter [] e) ≠ .literal (.string "World") := by
  intro scope
  have bare : ∀ a ∈ ["name"], Alternatives.Bare a :=
    List.forall_mem_singleton.mpr ⟨by decide, by decide, by decide⟩
  have form : Defaulted ["name"] "World" :=
    ⟨by decide, bare, ⟨by decide, by decide, by decide⟩, by decide⟩
  obtain ⟨source, parsed⟩ := Template.parse_defaulted form
  have trimmed : Text.trimmed "name" = "name" := by decide
  have noValue : ∀ chain, lookup scope chain "name" = none := fun chain => lookup_of_none rfl
  have found : ∀ chain, lookup scope chain "World" = some (.integer 5) :=
    fun chain => lookup_of_literal rfl
  have resolved : ∀ e : Expression,
      e.segments = [.reference source (["name"].map Text.trimmed ++ ["World"])] →
        ∀ chain, resolve scope e chain = .literal (.integer 5) := by
    intro e segments chain
    rw [List.map_singleton, trimmed] at segments
    rw [resolve, fillExpression_single segments]
    simp [choose, noValue, found]
  refine ⟨form, by decide, _, parsed, by rw [trimmed, noValue], resolved _ rfl _, ?_⟩
  rw [resolved _ rfl]
  simp

end Resolution

end LayeredConfig
