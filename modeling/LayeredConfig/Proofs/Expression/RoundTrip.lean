import LayeredConfig.Proofs.Expression.Rendering
import Mathlib

/-!
# Reading templates and writing them again

Every template is read as segments that can be written (`writable_of_parse`), so writing them gives another
template for the same segments.
-/

namespace LayeredConfig

/-! ## Trimming -/

namespace Text

theorem mem_of_mem_trim {cs : List Char} {c : Char} (mem : c ∈ trim cs) : c ∈ cs := by
  rw [trim, List.mem_reverse] at mem
  have inside := (List.dropWhile_suffix isBlank).subset mem
  rw [List.mem_reverse] at inside
  exact (List.dropWhile_suffix isBlank).subset inside

theorem isBlank_head_dropWhile (cs : List Char) :
    ∀ c ∈ (cs.dropWhile isBlank).head?, isBlank c = false := by
  intro c first
  have visible := List.head?_dropWhile_not isBlank cs
  rw [Option.mem_def.mp first] at visible
  exact visible

theorem isBlank_head_trim (cs : List Char) : ∀ c ∈ (trim cs).head?, isBlank c = false := by
  intro c first
  have start : trim cs <+: cs.dropWhile isBlank := by
    rw [← List.reverse_suffix, trim, List.reverse_reverse]
    exact List.dropWhile_suffix isBlank
  obtain ⟨rest, shape⟩ := List.head?_eq_some_iff.mp first
  obtain ⟨more, whole⟩ := start
  refine isBlank_head_dropWhile cs c ?_
  rw [← whole, shape]
  rfl

theorem isBlank_getLast_trim (cs : List Char) : ∀ c ∈ (trim cs).getLast?, isBlank c = false := by
  intro c last
  rw [trim, List.getLast?_reverse] at last
  exact isBlank_head_dropWhile _ c last

theorem trim_trim (cs : List Char) : trim (trim cs) = trim cs :=
  trim_eq_self_of_ends (isBlank_head_trim cs) (isBlank_getLast_trim cs)

theorem isBlankText_trim {cs : List Char} (someChar : trim cs ≠ []) : isBlankText (trim cs) = false := by
  obtain ⟨c, rest, shape⟩ := List.exists_cons_of_ne_nil someChar
  have visible := isBlank_head_trim cs c (by rw [shape]; rfl)
  rw [shape, isBlankText, List.all_cons, visible, Bool.false_and]

end Text

/-! ## Alternatives -/

namespace Alternatives

theorem plain_of_mem_piece {chunk : List Char} {alternative : String} (noBackslash : '\\' ∉ chunk)
    (mem : alternative ∈ piece chunk) : Plain alternative := by
  rw [piece] at mem
  split at mem
  · cases mem
  · next someChar =>
    cases List.mem_singleton.mp mem
    refine ⟨?_, ?_, ?_⟩
    · rw [String.toList_ofList, Text.trim_trim]
    · rw [String.toList_ofList]
      exact Text.isBlankText_trim (by simpa using someChar)
    · rw [String.toList_ofList]
      exact fun bad => noBackslash (Text.mem_of_mem_trim bad)

theorem plain_of_pieces {chunk : List Char} {later : Except Fault (List String)} {found : List String}
    (noBackslash : '\\' ∉ chunk) (plain : ∀ more, later = .ok more → ∀ a ∈ more, Plain a)
    (read : (do return piece chunk ++ (← later)) = .ok found) : ∀ a ∈ found, Plain a := by
  obtain ⟨more, rest, same⟩ := bind_eq_ok.mp read
  cases pure_eq_ok.mp same
  intro a mem
  rcases List.mem_append.mp mem with here | there
  · exact plain_of_mem_piece noBackslash here
  · exact plain more rest a there

end Alternatives

/-- A character that starts no escape sequence is no backslash. -/
theorem ne_backslash {c : Char} {rest : List Char} (notLast : c = '\\' → rest = [] → False)
    (notEscape : ∀ d more, c = '\\' → rest = d :: more → False) : c ≠ '\\' := by
  intro same
  cases rest with
  | nil => exact notLast same rfl
  | cons d more => exact notEscape d more same rfl

theorem not_mem_append_singleton {a c : Char} {chunk : List Char} (before : a ∉ chunk) (here : c ≠ a) :
    a ∉ chunk ++ [c] := by
  simp [before, here.symm]

namespace Alternatives

/-- Every alternative that is read is plain. The chunk that was read so far never holds a backslash. -/
theorem plain_of_scan {quotation? : Option Quotation} {chunk cs : List Char} {found : List String}
    (noBackslash : '\\' ∉ chunk) (read : scan quotation? chunk cs = .ok found) :
    ∀ a ∈ found, Plain a := by
  fun_induction scan quotation? chunk cs generalizing found with
  | case1 => cases read
  | case2 =>
    cases read
    exact fun a mem => plain_of_mem_piece noBackslash mem
  | case3 => cases read
  | case4 quotation? chunk c rest quote ih =>
    exact ih (not_mem_append_singleton noBackslash (ne_backslash_of_isQuote quote)) read
  | case5 => cases read
  | case6 chunk rest quotation _ notLast notEscape ih =>
    exact ih (not_mem_append_singleton noBackslash (ne_backslash notLast notEscape)) read
  | case7 chunk rest quotation _ _ _ ih =>
    exact plain_of_pieces noBackslash (fun _ => ih List.not_mem_nil) read
  | case8 chunk c rest notLast notEscape quotation _ ih =>
    exact ih (not_mem_append_singleton noBackslash (ne_backslash notLast notEscape)) read
  | case9 chunk c rest _ _ _ _ ih => exact ih List.not_mem_nil read
  | case10 chunk c rest notLast notEscape _ _ ih =>
    exact ih (not_mem_append_singleton noBackslash (ne_backslash notLast notEscape)) read
  | case11 chunk rest _ _ _ ih => exact plain_of_pieces noBackslash (fun _ => ih List.not_mem_nil) read
  | case12 chunk rest _ _ _ _ ih =>
    exact plain_of_pieces noBackslash (fun _ => ih List.not_mem_nil) read
  | case13 chunk c rest notLast notEscape _ _ ih =>
    exact ih (not_mem_append_singleton noBackslash (ne_backslash notLast notEscape)) read

end Alternatives

/-! ## Templates -/

namespace Template

theorem ne_backslash_of_isEscapable {c : Char} (escapable : isEscapable c = true) : c ≠ '\\' := by
  rintro rfl
  exact absurd escapable (by decide)

/-- The text since the last reference holds no backslash. -/
def Place.Clean : Place → Prop
  | .text chars => '\\' ∉ chars
  | .reference _ _ => True

theorem Place.Clean.escaped {place : Place} {c : Char} (clean : place.Clean)
    (escapable : isEscapable c = true) : (place.escaped c).Clean := by
  cases place with
  | text chars => exact not_mem_append_singleton clean (ne_backslash_of_isEscapable escapable)
  | reference chars quote? => trivial

/-- Is the reader in text? -/
def Place.isText : Place → Bool
  | .text _ => true
  | .reference _ _ => false

theorem Place.isText_escaped (place : Place) (c : Char) : (place.escaped c).isText = place.isText := by
  cases place <;> rfl

theorem writable_of_mem_textSegment {chars : List Char} {segment : Segment} (noBackslash : '\\' ∉ chars)
    (mem : segment ∈ textSegment chars) : segment.Writable := by
  rw [textSegment] at mem
  split at mem
  · cases mem
  · cases List.mem_singleton.mp mem
    exact ⟨_, rfl, by rwa [String.toList_ofList]⟩

theorem writable_of_referenceSegment {chars : List Char} {segment : Segment}
    (read : referenceSegment chars = .ok segment) : segment.Writable := by
  rw [referenceSegment] at read
  split at read
  · cases read
  · cases read
    exact ⟨"", rfl, List.not_mem_nil⟩
  · next alternatives someAlternative split =>
    cases read
    exact ⟨someAlternative, Alternatives.plain_of_scan List.not_mem_nil split⟩

theorem not_isText_of_referenceSegment {chars : List Char} {segment : Segment}
    (read : referenceSegment chars = .ok segment) : ¬ segment.IsText := by
  rintro ⟨text, rfl, someText⟩
  rw [referenceSegment] at read
  split at read
  · cases read
  · cases read
    exact someText rfl
  · cases read

/-- Every segment that is read can be written. -/
theorem each_writable_of_scan {place : Place} {cs : List Char} {found : List Segment}
    (clean : place.Clean) (read : scan place cs = .ok found) :
    ∀ segment ∈ found, segment.Writable := by
  fun_induction scan place cs generalizing found with
  | case1 chars =>
    cases read
    exact fun segment mem => writable_of_mem_textSegment clean mem
  | case2 => cases read
  | case3 => cases read
  | case4 place c rest escapable ih => exact ih (clean.escaped escapable) read
  | case5 => cases read
  | case6 chars rest ih =>
    obtain ⟨more, scanned, same⟩ := bind_eq_ok.mp read
    cases pure_eq_ok.mp same
    intro segment mem
    rcases List.mem_append.mp mem with here | later
    · exact writable_of_mem_textSegment clean here
    · exact ih trivial scanned segment later
  | case7 chars c rest notLast notEscape _ ih =>
    exact ih (not_mem_append_singleton clean (ne_backslash notLast notEscape)) read
  | case8 chars quote? c rest _ _ _ ih =>
    obtain ⟨segment, closed, read⟩ := bind_eq_ok.mp read
    obtain ⟨more, scanned, same⟩ := bind_eq_ok.mp read
    cases pure_eq_ok.mp same
    have here := writable_of_referenceSegment closed
    exact List.forall_mem_cons.mpr ⟨here, ih List.not_mem_nil scanned⟩
  | case9 chars quote? c rest _ _ _ ih => exact ih trivial read

theorem isChain_textSegment_append (chars : List Char) {more : List Segment}
    (chain : more.IsChain Segment.Apart) (noText : ∀ next ∈ more.head?, ¬ next.IsText) :
    (textSegment chars ++ more).IsChain Segment.Apart := by
  rw [textSegment]
  split
  · exact chain
  · exact List.isChain_cons.mpr ⟨fun next first both => noText next first both.2, chain⟩

/-- Texts that are read do not meet. What an open reference is read as comes first, and is no text. -/
theorem apart_of_scan {place : Place} {cs : List Char} {found : List Segment}
    (read : scan place cs = .ok found) :
    found.IsChain Segment.Apart ∧
      (place.isText = false → ∀ first ∈ found.head?, ¬ first.IsText) := by
  fun_induction scan place cs generalizing found with
  | case1 chars =>
    cases read
    have chain := isChain_textSegment_append chars .nil (by simp)
    rw [List.append_nil] at chain
    exact ⟨chain, fun reference => Bool.noConfusion reference⟩
  | case2 => cases read
  | case3 => cases read
  | case4 place c rest _ ih =>
    rw [Place.isText_escaped] at ih
    exact ih read
  | case5 => cases read
  | case6 chars rest ih =>
    obtain ⟨more, scanned, same⟩ := bind_eq_ok.mp read
    cases pure_eq_ok.mp same
    obtain ⟨chain, noText⟩ := ih scanned
    exact ⟨isChain_textSegment_append chars chain (noText rfl),
      fun reference => Bool.noConfusion reference⟩
  | case7 chars c rest _ _ _ ih => exact ⟨(ih read).1, fun reference => Bool.noConfusion reference⟩
  | case8 chars quote? c rest _ _ _ ih =>
    obtain ⟨segment, closed, read⟩ := bind_eq_ok.mp read
    obtain ⟨more, scanned, same⟩ := bind_eq_ok.mp read
    cases pure_eq_ok.mp same
    have noText := not_isText_of_referenceSegment closed
    refine ⟨List.isChain_cons.mpr ⟨fun _ _ both => noText both.1, (ih scanned).1⟩, fun _ first same => ?_⟩
    cases same
    exact noText
  | case9 chars quote? c rest _ _ _ ih =>
    obtain ⟨chain, noText⟩ := ih read
    exact ⟨chain, fun _ => noText rfl⟩

theorem writable_of_parse {template : String} {e : Expression} (read : Expression.parse template = .ok e) :
    Writable e.segments := by
  obtain ⟨scanned, -⟩ := Expression.parse_eq_ok_iff.mp read
  obtain ⟨found, scanned, same⟩ := bind_eq_ok.mp scanned
  split at same
  · rw [← pure_eq_ok.mp same]
    exact ⟨List.cons_ne_nil _ _, List.forall_mem_singleton.mpr ⟨"", rfl, List.not_mem_nil⟩, .singleton _⟩
  · next someSegment =>
    rw [← pure_eq_ok.mp same]
    have clean : (Place.text []).Clean := List.not_mem_nil
    exact ⟨someSegment, each_writable_of_scan clean scanned, (apart_of_scan scanned).1⟩

/-- Writing the segments of a template gives a template with the same segments. So does writing any segments
that can be written. -/
theorem parse_render :
    (∀ template e, Expression.parse template = .ok e →
      ∃ again, Expression.parse (render e.segments) = .ok again ∧
        again.segments.map Segment.withoutSource = e.segments.map Segment.withoutSource) ∧
      ∀ segments, Writable segments →
        ∃ e, Expression.parse (render segments) = .ok e ∧
          e.segments.map Segment.withoutSource = segments.map Segment.withoutSource := by
  have written : ∀ segments, Writable segments →
      ∃ e, Expression.parse (render segments) = .ok e ∧
        e.segments.map Segment.withoutSource = segments.map Segment.withoutSource := by
    intro segments writable
    obtain ⟨found, read, same⟩ := segments_render writable
    exact ⟨⟨render segments, found⟩, Expression.parse_eq_ok_iff.mpr ⟨read, rfl⟩, same⟩
  exact ⟨fun template e read => written e.segments (writable_of_parse read), written⟩

/-- A template with a brace in a quoted alternative, and segments with every character that a template uses
for itself. -/
theorem parse_render_quoted :
    (∃ again, Expression.parse (render
        [.fixed (.string "$\x7bx\x7d"), .reference "a ? \"\x7d?:\"" ["a", "\x7d?:"]]) = .ok again ∧
      again.segments.map Segment.withoutSource =
        [.fixed (.string "$\x7bx\x7d"), .reference "" ["a", "\x7d?:"]]) ∧
      ∃ e, Expression.parse (render
          [.fixed (.string "it's \"$"), .fixed (.string ""), .reference "" ["a?b:'c'", "$\x7b\"\x7d"]]) =
        .ok e ∧
      e.segments.map Segment.withoutSource =
        [.fixed (.string "it's \"$"), .fixed (.string ""), .reference "" ["a?b:'c'", "$\x7b\"\x7d"]] := by
  have read : Expression.parse "$\\\x7bx\\\x7d$\x7b a ? \"\x7d?:\" \x7d" =
      .ok ⟨"$\\\x7bx\\\x7d$\x7b a ? \"\x7d?:\" \x7d",
        [.fixed (.string "$\x7bx\x7d"), .reference "a ? \"\x7d?:\"" ["a", "\x7d?:"]]⟩ := by
    cbv
  have writable : Writable
      [.fixed (.string "it's \"$"), .fixed (.string ""), .reference "" ["a?b:'c'", "$\x7b\"\x7d"]] := by
    have plain : ∀ a ∈ ["a?b:'c'", "$\x7b\"\x7d"], Alternatives.Plain a :=
      List.forall_mem_cons.mpr ⟨⟨by decide, by decide, by decide⟩,
        List.forall_mem_singleton.mpr ⟨by decide, by decide, by decide⟩⟩
    refine ⟨List.cons_ne_nil _ _, ?_, ?_⟩
    · exact List.forall_mem_cons.mpr ⟨⟨_, rfl, by decide⟩, List.forall_mem_cons.mpr
        ⟨⟨_, rfl, by decide⟩, List.forall_mem_singleton.mpr ⟨List.cons_ne_nil _ _, plain⟩⟩⟩
    · have empty : ¬ (Segment.fixed (.string "")).IsText := by
        rintro ⟨_, ⟨⟩, someText⟩
        exact someText rfl
      exact .cons_cons (fun both => empty both.2) (.cons_cons (fun both => empty both.1) (.singleton _))
  obtain ⟨again, parsed, same⟩ := parse_render.1 _ _ read
  obtain ⟨e, parsed', same'⟩ := parse_render.2 _ writable
  exact ⟨⟨again, parsed, same⟩, e, parsed', same'⟩

end Template

end LayeredConfig
