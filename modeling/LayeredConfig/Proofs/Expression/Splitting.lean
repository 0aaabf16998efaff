import LayeredConfig.Proofs.Expression.Rendering
import Mathlib.Data.List.DropRight

/-!
# Splitting a trimmed text

Blank characters at the ends of a text make no difference to its alternatives (`scan_trim`). In front they
only get into a chunk that is trimmed later on, and behind they get into the last one, which is trimmed too.

`reading_induction` is the induction along the steps of the splitting.
-/

namespace LayeredConfig

/-! ## Blank ends -/

namespace Text

variable {bs : List Char}

theorem trim_blank_append (blank : isBlankText bs = true) (cs : List Char) : trim (bs ++ cs) = trim cs := by
  have dropped : (bs ++ cs).dropWhile isBlank = cs.dropWhile isBlank :=
    List.dropWhile_append_of_pos (List.all_eq_true.mp blank)
  rw [trim, trim, dropped]

theorem trim_append_blank (blank : isBlankText bs = true) (cs : List Char) : trim (cs ++ bs) = trim cs := by
  have nothing : bs.dropWhile isBlank = [] := List.dropWhile_eq_nil_iff.mpr (List.all_eq_true.mp blank)
  have blank' : bs.reverse.all isBlank = true := by rwa [List.all_reverse]
  rw [trim, trim, List.dropWhile_append]
  split
  · next allBlank => rw [nothing, List.isEmpty_iff.mp allBlank]
  · rw [List.reverse_append, List.dropWhile_append_of_pos (List.all_eq_true.mp blank')]

/-- Trimming takes blank texts off both ends. -/
theorem exists_trim (cs : List Char) : ∃ before after, isBlankText before = true ∧
    isBlankText after = true ∧ cs = before ++ (trim cs ++ after) := by
  refine ⟨cs.takeWhile isBlank, (cs.dropWhile isBlank).rtakeWhile isBlank, ?_, ?_, ?_⟩
  · exact List.all_takeWhile
  · exact List.all_eq_true.mpr fun c mem => List.mem_rtakeWhile_imp mem
  · have split : trim cs = (cs.dropWhile isBlank).rdropWhile isBlank := rfl
    rw [split, List.rdropWhile_append_rtakeWhile, List.takeWhile_append_dropWhile]

end Text

/-! ## Splitting -/

namespace Alternatives

open Text (isBlankText)

theorem length_afterSeparator_le (rest : List Char) : (afterSeparator rest).length ≤ rest.length := by
  unfold afterSeparator
  split
  · exact Nat.le_succ _
  · exact le_rfl

theorem afterSeparator_cons {c : Char} (noColon : c ≠ ':') (cs : List Char) :
    afterSeparator (c :: cs) = c :: cs := by
  rw [afterSeparator]
  exact fun _ same => noColon (List.cons.inj same).1

/-- Induction along a text as it is split: a backslash goes with the next character, and behind another
character the text may go on after a separator. -/
theorem reading_induction {P : List Char → Prop} (nil : P []) (dangling : P ['\\'])
    (escape : ∀ c rest, P rest → P ('\\' :: c :: rest))
    (char : ∀ c rest, c ≠ '\\' → P rest → P (afterSeparator rest) → P (c :: rest)) (cs : List Char) :
    P cs := by
  induction size : cs.length using Nat.strong_induction_on generalizing cs with
  | _ n ih =>
    subst size
    match cs with
    | [] => exact nil
    | c :: rest =>
      by_cases backslash : c = '\\'
      · subst backslash
        match rest with
        | [] => exact dangling
        | c :: rest => exact escape c rest (ih _ (by simp only [List.length_cons]; omega) rest rfl)
      · have shorter := Nat.lt_succ_of_le (length_afterSeparator_le rest)
        exact char c rest backslash (ih _ (Nat.lt_succ_self _) rest rfl) (ih _ shorter _ rfl)

section Blank

variable {quotation? : Option Quotation} {bs chunk cs : List Char} {found : List String}

theorem piece_blank_append (blank : isBlankText bs = true) (chunk : List Char) :
    piece (bs ++ chunk) = piece chunk := by
  rw [piece, piece, Text.trim_blank_append blank]

theorem piece_append_blank (blank : isBlankText bs = true) (chunk : List Char) :
    piece (chunk ++ bs) = piece chunk := by
  rw [piece, piece, Text.trim_append_blank blank]

theorem isBlankText_blank_append (blank : isBlankText bs = true) (chunk : List Char) :
    isBlankText (bs ++ chunk) = isBlankText chunk := by
  rw [isBlankText, List.all_append, ← isBlankText, blank, Bool.true_and]
  rfl

/-- Blank characters in front of a chunk make no difference. -/
theorem scan_blank_chunk (blank : isBlankText bs = true) :
    scan quotation? (bs ++ chunk) cs = scan quotation? chunk cs := by
  induction cs using reading_induction generalizing quotation? chunk with
  | nil => rw [scan, scan, piece_blank_append blank]
  | dangling => rw [scan, scan]
  | escape c rest ih =>
    rw [scan, scan, List.append_assoc, ih]
  | char c rest noBackslash ih =>
    cases quotation? with
    | some quotation =>
      rw [scan_inQuotes noBackslash, scan_inQuotes noBackslash, piece_blank_append blank,
        List.append_assoc, ih, ih]
    | none =>
      rw [scan_unquoted noBackslash, scan_unquoted noBackslash, piece_blank_append blank,
        isBlankText_blank_append blank, List.append_assoc, ih, ih]

/-- A blank character has no meaning of its own. -/
theorem plain_of_isBlank {c : Char} (blank : Text.isBlank c = true) :
    c ≠ '\\' ∧ isQuote c = false ∧ c ≠ '?' ∧ c ≠ ':' := by
  refine ⟨?_, ?_, ?_, ?_⟩
  · rintro rfl
    exact absurd blank (by decide)
  · rw [isQuote, Bool.or_eq_false_iff, beq_eq_false_iff_ne, beq_eq_false_iff_ne]
    constructor <;> (rintro rfl; exact absurd blank (by decide))
  · rintro rfl
    exact absurd blank (by decide)
  · rintro rfl
    exact absurd blank (by decide)

theorem scan_blank_append (blank : isBlankText bs = true) (cs : List Char) :
    scan none [] (bs ++ cs) = scan none [] cs := by
  induction bs with
  | nil => rfl
  | cons b bs ih =>
    rw [isBlankText, List.all_cons, Bool.and_eq_true] at blank
    obtain ⟨here, later⟩ := blank
    obtain ⟨noBackslash, noQuote, noSeparator, -⟩ := plain_of_isBlank here
    have blankChunk : isBlankText [b] = true := by simpa [isBlankText] using here
    rw [List.cons_append, scan_unquoted noBackslash, if_neg (by simp [noQuote]), if_neg noSeparator,
      List.nil_append, ← List.append_nil [b], scan_blank_chunk blankChunk, ih later]

theorem afterSeparator_append_blank (blank : isBlankText bs = true) (rest : List Char) :
    afterSeparator (rest ++ bs) = afterSeparator rest ++ bs := by
  cases rest with
  | cons c rest =>
    by_cases colon : c = ':'
    · subst colon
      rfl
    · rw [List.cons_append, afterSeparator_cons colon, afterSeparator_cons colon, List.cons_append]
  | nil =>
    cases bs with
    | nil => rfl
    | cons b bs =>
      rw [isBlankText, List.all_cons, Bool.and_eq_true] at blank
      have noColon := (plain_of_isBlank blank.1).2.2.2
      exact afterSeparator_cons noColon bs

/-- Outside of quotes, blank characters only make the chunk longer. Inside, the text ends too early. -/
theorem scan_blank (blank : isBlankText bs = true)
    (quotes : ∀ quotation ∈ quotation?, isQuote quotation.quote = true) (chunk : List Char) :
    scan quotation? chunk bs = scan quotation? (chunk ++ bs) [] := by
  induction bs generalizing chunk with
  | nil => rw [List.append_nil]
  | cons b bs ih =>
    rw [isBlankText, List.all_cons, Bool.and_eq_true] at blank
    obtain ⟨noBackslash, noQuote, noSeparator, -⟩ := plain_of_isBlank blank.1
    have shape : chunk ++ b :: bs = chunk ++ [b] ++ bs := by simp
    rw [shape, ← ih blank.2]
    cases quotation? with
    | none => rw [scan_unquoted noBackslash, if_neg (by simp [noQuote]), if_neg noSeparator]
    | some quotation =>
      have inside : b ≠ quotation.quote := by
        rintro rfl
        rw [quotes quotation rfl] at noQuote
        cases noQuote
      rw [scan_inside noBackslash inside]

/-- Blank characters at the end of a text make no difference. Every step of the longer text is one of the
shorter text, but for a backslash at its end, behind which the longer text is no good either. -/
theorem scan_of_append_blank (blank : isBlankText bs = true)
    (quotes : ∀ quotation ∈ quotation?, isQuote quotation.quote = true)
    (read : scan quotation? chunk (cs ++ bs) = .ok found) : scan quotation? chunk cs = .ok found := by
  have unquoted : ∀ quotation ∈ (none : Option Quotation), isQuote quotation.quote = true := by
    rintro _ ⟨⟩
  induction cs using reading_induction generalizing quotation? chunk found with
  | nil =>
    rw [List.nil_append, scan_blank blank quotes, scan, piece_append_blank blank] at read
    rwa [scan]
  | dangling =>
    cases bs with
    | nil => exact read
    | cons b bs =>
      rw [isBlankText, List.all_cons, Bool.and_eq_true] at blank
      have noQuote := (plain_of_isBlank blank.1).2.1
      rw [List.singleton_append, scan, if_neg (by simp [noQuote])] at read
      cases read
  | escape c rest ih =>
    rw [List.cons_append, List.cons_append, scan] at read
    rw [scan]
    refine ok_of_ite (fun _ => ih quotes) (fun _ failed => ?_) read
    cases failed
  | char c rest noBackslash ih ihSeparator =>
    cases quotation? with
    | some quotation =>
      rw [List.cons_append, scan_inQuotes noBackslash] at read
      rw [scan_inQuotes noBackslash]
      refine ok_of_ite (fun _ => ?_) (fun _ => ih quotes) read
      exact ok_of_ite (fun _ => ih unquoted) fun _ => ok_of_map fun _ => ih unquoted
    | none =>
      rw [List.cons_append, scan_unquoted noBackslash, afterSeparator_append_blank blank] at read
      rw [scan_unquoted noBackslash]
      refine ok_of_ite (fun quote => ?_) (fun _ => ?_) read
      · have opened : ∀ kept, ∀ quotation ∈ some (Quotation.mk c kept), isQuote quotation.quote = true := by
          rintro kept quotation ⟨⟩
          exact quote
        exact ok_of_ite (fun _ => ih (opened false)) fun _ => ih (opened true)
      · exact ok_of_ite (fun _ => ok_of_map fun _ => ihSeparator unquoted) fun _ => ih unquoted

/-- A text has the same alternatives when it is trimmed. -/
theorem scan_trim (read : scan none [] cs = .ok found) : scan none [] (Text.trim cs) = .ok found := by
  obtain ⟨before, after, blankBefore, blankAfter, split⟩ := Text.exists_trim cs
  rw [split, scan_blank_append blankBefore] at read
  exact scan_of_append_blank blankAfter nofun read

end Blank

end Alternatives

end LayeredConfig
