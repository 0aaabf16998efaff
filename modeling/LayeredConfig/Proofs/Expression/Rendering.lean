import LayeredConfig.Proofs.Expression
import LayeredConfig.Text.Fields
import Mathlib.Data.List.Basic

/-!
# Writing templates

A list of segments is written as a template with a backslash in front of the braces and quotes of its texts
and with every alternative in single quotes (`Template.render`). `Template.Writable` are the lists for which
this can work: texts do not meet, and nothing in them needs more than that. They are read back as they were
(`Template.segments_render`), apart from what is remembered as the source of a reference.

Two readers have to agree on the quotes: the one of the template looks for the brace that closes a reference
(`Template.scan_between`), and the other one splits what it found (`Alternatives.scan_between`).
-/

namespace LayeredConfig

/-! ## Rendering -/

namespace Template

/-- A backslash goes in front of the special characters of a text. -/
def escape (special : Char → Bool) (cs : List Char) : List Char :=
  cs.flatMap fun c => if special c then ['\\', c] else [c]

theorem escape_cons_special {special : Char → Bool} {c : Char} {cs : List Char}
    (here : special c = true) : escape special (c :: cs) = '\\' :: c :: escape special cs := by
  simp [escape, here]

theorem escape_cons_plain {special : Char → Bool} {c : Char} {cs : List Char}
    (here : ¬ special c = true) : escape special (c :: cs) = c :: escape special cs := by
  simp [escape, here]

/-- Reading an escaped text. The reader collects what each character stands for, whether there is a
backslash in front of it or not. -/
theorem read_escape {R : Type} (read : List Char → List Char → R) (out : Char → List Char)
    (rest : List Char) {special : Char → Bool}
    (escaped : ∀ acc c t, special c = true → read acc ('\\' :: c :: t) = read (acc ++ out c) t)
    (plain : ∀ acc c cs, ¬ special c = true → c ≠ '\\' →
      read acc (c :: (escape special cs ++ rest)) = read (acc ++ out c) (escape special cs ++ rest))
    {cs : List Char} (noBackslash : '\\' ∉ cs) (acc : List Char) :
    read acc (escape special cs ++ rest) = read (acc ++ cs.flatMap out) rest := by
  induction cs generalizing acc with
  | nil => simp [escape]
  | cons c cs ih =>
    obtain ⟨here, later⟩ := not_or.mp (mt List.mem_cons.mpr noBackslash)
    rw [List.flatMap_cons, ← List.append_assoc, ← ih later]
    by_cases isSpecial : special c = true
    · rw [escape_cons_special isSpecial]
      exact escaped acc c _ isSpecial
    · rw [escape_cons_plain isSpecial]
      exact plain acc c cs isSpecial (Ne.symm here)

/-- An alternative in single quotes. -/
def quoted (alternative : String) : List Char :=
  '\'' :: (escape Alternatives.isQuote alternative.toList ++ ['\''])

/-- Alternatives as they stand between the braces of a reference. -/
def between (alternatives : List String) : List Char :=
  Text.joinFields '?' (alternatives.map quoted)

/-- The text of a reference with the given alternatives. Without any it stands for an empty text. -/
def placeholder (alternatives : List String) : List Char :=
  '$' :: '{' :: (between alternatives ++ ['}'])

/-- The text of a segment. -/
def segmentChars : Segment → List Char
  | .fixed v =>
    if v.display = "" then placeholder [] else escape isEscapable v.display.toList
  | .reference _ alternatives => placeholder alternatives

/-- The template that lists the segments. -/
def render (segments : List Segment) : String :=
  String.ofList (segments.flatMap segmentChars)

end Template

/-! ## Alternatives -/

namespace Alternatives

open Template (escape read_escape quoted between)

/-- An alternative that a reference can have: without blank characters at its ends or backslashes, and not
blank altogether. -/
structure Plain (alternative : String) : Prop where
  trimmed : Text.trim alternative.toList = alternative.toList
  visible : Text.isBlankText alternative.toList = false
  noBackslash : '\\' ∉ alternative.toList

theorem ne_backslash_of_isQuote {c : Char} (quote : isQuote c = true) : c ≠ '\\' := by
  rintro rfl
  exact absurd quote (by decide)

section Steps

variable {quotation? : Option Quotation} {quotation : Quotation} {c : Char} {chunk rest : List Char}

theorem scan_escaped (quote : isQuote c = true) :
    scan quotation? chunk ('\\' :: c :: rest) = scan quotation? (chunk ++ [c]) rest := by
  rw [scan, if_pos quote]

/-- What follows a separator, which is `?` or `?:`. -/
def afterSeparator : List Char → List Char
  | ':' :: rest => rest
  | rest => rest

/-- One step of a reader in quotes. -/
theorem scan_inQuotes (noBackslash : c ≠ '\\') :
    scan (some quotation) chunk (c :: rest) =
      if c = quotation.quote then
        if quotation.kept then scan none (chunk ++ [c]) rest
        else (piece chunk ++ ·) <$> scan none [] rest
      else scan (some quotation) (chunk ++ [c]) rest := by
  rw [scan, bind_pure_comp]
  · exact fun same => absurd same noBackslash
  · exact fun _ _ same => absurd same noBackslash

/-- One step of a reader outside of quotes. -/
theorem scan_unquoted (noBackslash : c ≠ '\\') :
    scan none chunk (c :: rest) =
      if isQuote c then
        if Text.isBlankText chunk then scan (some ⟨c, false⟩) [] rest
        else scan (some ⟨c, true⟩) (chunk ++ [c]) rest
      else if c = '?' then (piece chunk ++ ·) <$> scan none [] (afterSeparator rest)
      else scan none (chunk ++ [c]) rest := by
  by_cases colon : ∃ more, rest = ':' :: more
  · obtain ⟨more, rfl⟩ := colon
    -- only the reader on the left is to be unfolded
    generalize opened : scan (some ⟨c, false⟩) [] (':' :: more) = inOpened
    generalize kept : scan (some ⟨c, true⟩) (chunk ++ [c]) (':' :: more) = inKept
    generalize plain : scan none (chunk ++ [c]) (':' :: more) = behind
    rw [scan, bind_pure_comp, afterSeparator, opened, kept, plain]
    · exact fun same => absurd same noBackslash
    · exact fun _ _ same => absurd same noBackslash
  · have noColon : ∀ more, rest = ':' :: more → False := fun more same => colon ⟨more, same⟩
    rw [scan, bind_pure_comp, afterSeparator]
    · exact noColon
    · exact fun same => absurd same noBackslash
    · exact fun _ _ same => absurd same noBackslash
    · exact noColon

theorem scan_inside (noBackslash : c ≠ '\\') (inside : c ≠ quotation.quote) :
    scan (some quotation) chunk (c :: rest) = scan (some quotation) (chunk ++ [c]) rest := by
  rw [scan_inQuotes noBackslash, if_neg inside]

theorem scan_opening (quote : isQuote c = true) :
    scan none [] (c :: rest) = scan (some ⟨c, false⟩) [] rest := by
  rw [scan_unquoted (ne_backslash_of_isQuote quote), if_pos quote]
  exact if_pos rfl

theorem scan_closing (quote : isQuote c = true) :
    scan (some ⟨c, false⟩) chunk (c :: rest) = (piece chunk ++ ·) <$> scan none [] rest := by
  rw [scan_inQuotes (ne_backslash_of_isQuote quote), if_pos rfl]
  exact if_neg Bool.false_ne_true

theorem scan_separator (noColon : ∀ more, rest ≠ ':' :: more) :
    scan none chunk ('?' :: rest) = (piece chunk ++ ·) <$> scan none [] rest := by
  have follows : afterSeparator rest = rest := by
    rw [afterSeparator]
    exact noColon
  rw [scan_unquoted (by decide), follows]
  rfl

end Steps

/-- In quotes, a text is read up to the quote that closes it. -/
theorem scan_escape {quotation : Quotation} (quote : isQuote quotation.quote = true) {cs : List Char}
    (noBackslash : '\\' ∉ cs) (chunk rest : List Char) :
    scan (some quotation) chunk (escape isQuote cs ++ rest) = scan (some quotation) (chunk ++ cs) rest := by
  have read := read_escape (scan (some quotation)) (fun c => [c]) rest
    (fun _ _ _ special => scan_escaped special)
    (fun _ c _ plain here => scan_inside here fun same => plain (same ▸ quote)) noBackslash chunk
  rwa [List.flatMap_singleton'] at read

theorem piece_eq_singleton {alternative : String} (plain : Plain alternative) :
    piece alternative.toList = [alternative] := by
  have someChar : alternative.toList ≠ [] := by
    intro empty
    have visible := plain.visible
    rw [empty] at visible
    cases visible
  rw [piece, plain.trimmed, if_neg (by simpa using someChar), String.ofList_toList]

theorem scan_quoted {alternative : String} (plain : Plain alternative) (rest : List Char) :
    scan none [] (quoted alternative ++ rest) = (alternative :: ·) <$> scan none [] rest := by
  have quote : isQuote '\'' = true := rfl
  rw [quoted, List.cons_append, List.append_assoc, scan_opening quote,
    scan_escape quote plain.noBackslash, List.nil_append, List.singleton_append, scan_closing quote,
    piece_eq_singleton plain]
  rfl

/-- Quoted alternatives are split where they were joined. -/
theorem scan_between {alternatives : List String} (plain : ∀ a ∈ alternatives, Plain a) :
    scan none [] (between alternatives) = .ok alternatives := by
  induction alternatives with
  | nil => rfl
  | cons first more ih =>
    obtain ⟨here, later⟩ := List.forall_mem_cons.mp plain
    cases more with
    | nil =>
      have alone := scan_quoted here []
      rw [List.append_nil] at alone
      exact alone
    | cons second more =>
      -- a quote follows the `?`, so no `:` is taken for a part of the separator
      have next : scan none [] ('?' :: between (second :: more)) = .ok (second :: more) := by
        have noColon : ∀ rest, between (second :: more) ≠ ':' :: rest := by
          cases more <;> exact fun _ same => absurd (List.cons.inj same).1 (by decide)
        rw [scan_separator noColon, ih later]
        rfl
      have shape : between (first :: second :: more) =
          quoted first ++ '?' :: between (second :: more) := rfl
      rw [shape, scan_quoted here, next]
      rfl

end Alternatives

/-! ## Templates -/

namespace Template

section Steps

variable {place : Place} {quote? : Option Char} {c : Char} {chars rest : List Char}

theorem scan_escaped (escapable : isEscapable c = true) :
    scan place ('\\' :: c :: rest) = scan (place.escaped c) rest := by
  rw [scan, if_pos escapable]

theorem scan_text (noBackslash : c ≠ '\\') (noOpening : ∀ more, rest ≠ '{' :: more) :
    scan (.text chars) (c :: rest) = scan (.text (chars ++ [c])) rest := by
  rw [scan]
  · exact fun same => absurd same noBackslash
  · exact fun _ _ same => absurd same noBackslash
  · exact fun more _ same => noOpening more same

theorem scan_open :
    scan (.text chars) ('$' :: '{' :: rest) =
      (textSegment chars ++ ·) <$> scan (.reference [] none) rest := by
  rw [scan, bind_pure_comp]

/-- One step of a reader between braces. -/
theorem scan_reference (noBackslash : c ≠ '\\') :
    scan (.reference chars quote?) (c :: rest) =
      if c = '}' ∧ quote? = none then do
        let segment ← referenceSegment chars
        (segment :: ·) <$> scan (.text []) rest
      else scan (.reference (chars ++ [c]) (nextQuote c quote?)) rest := by
  rw [scan]
  · simp only [bind_pure_comp]
  · exact fun same => absurd same noBackslash
  · exact fun _ _ same => absurd same noBackslash

theorem scan_inside (noBackslash : c ≠ '\\') (stays : ¬ (c = '}' ∧ quote? = none)) :
    scan (.reference chars quote?) (c :: rest) =
      scan (.reference (chars ++ [c]) (nextQuote c quote?)) rest := by
  rw [scan_reference noBackslash, if_neg stays]

theorem scan_close {segment : Segment} (closed : referenceSegment chars = .ok segment) :
    scan (.reference chars none) ('}' :: rest) = (segment :: ·) <$> scan (.text []) rest := by
  rw [scan_reference (by decide), if_pos ⟨rfl, rfl⟩, closed]
  rfl

end Steps

/-! ### References -/

theorem isEscapable_of_isQuote {c : Char} (quote : Alternatives.isQuote c = true) :
    isEscapable c = true := by
  simp [isEscapable, quote]

/-- In quotes, the characters of an alternative are kept as they are written. -/
theorem scan_escape_reference {cs : List Char} (noBackslash : '\\' ∉ cs) (chars rest : List Char) :
    scan (.reference chars (some '\'')) (escape Alternatives.isQuote cs ++ rest) =
      scan (.reference (chars ++ escape Alternatives.isQuote cs) (some '\'')) rest := by
  refine read_escape (fun chars => scan (.reference chars (some '\''))) _ rest ?_ ?_ noBackslash chars
  · intro chars c t special
    rw [scan_escaped (isEscapable_of_isQuote special)]
    rfl
  · intro chars c cs plain here
    have stays : nextQuote c (some '\'') = some '\'' :=
      if_neg fun same : c = '\'' => plain (by rw [same]; rfl)
    rw [scan_inside here (by simp), stays, if_neg plain]

theorem scan_quoted {alternative : String} (plain : Alternatives.Plain alternative)
    (chars rest : List Char) :
    scan (.reference chars none) (quoted alternative ++ rest) =
      scan (.reference (chars ++ quoted alternative) none) rest := by
  rw [quoted, List.cons_append, List.append_assoc, scan_inside (by decide) (by simp),
    show nextQuote '\'' none = some '\'' from rfl, scan_escape_reference plain.noBackslash,
    List.singleton_append, scan_inside (by decide) (by simp)]
  simp [nextQuote]

theorem scan_between {alternatives : List String} (plain : ∀ a ∈ alternatives, Alternatives.Plain a)
    (chars rest : List Char) :
    scan (.reference chars none) (between alternatives ++ rest) =
      scan (.reference (chars ++ between alternatives) none) rest := by
  induction alternatives generalizing chars with
  | nil => simp [between, Text.joinFields]
  | cons first more ih =>
    obtain ⟨here, later⟩ := List.forall_mem_cons.mp plain
    cases more with
    | nil => exact scan_quoted here chars rest
    | cons second more =>
      have shape : between (first :: second :: more) =
          quoted first ++ '?' :: between (second :: more) := rfl
      rw [shape, List.append_assoc, scan_quoted here, List.cons_append,
        scan_inside (by decide) (by simp), show nextQuote '?' none = none from rfl, ih later]
      simp

end Template

/-! ## What is read back -/

/-- A segment apart from the text between its braces. -/
def Segment.withoutSource : Segment → Segment
  | .fixed v => .fixed v
  | .reference _ alternatives => .reference "" alternatives

/-- A segment that a template can hold: a text without backslashes, or a reference to plain alternatives. -/
def Segment.Writable : Segment → Prop
  | .fixed v => ∃ text, v = .string text ∧ '\\' ∉ text.toList
  | .reference _ alternatives => alternatives ≠ [] ∧ ∀ a ∈ alternatives, Alternatives.Plain a

/-- A segment with some text in it. -/
def Segment.IsText (segment : Segment) : Prop :=
  ∃ text, segment = .fixed (.string text) ∧ text ≠ ""

/-- Not both of two segments are texts. Written side by side, those would be read as one. -/
def Segment.Apart (first second : Segment) : Prop :=
  ¬ (first.IsText ∧ second.IsText)

namespace Template

/-- The segments of some template. -/
structure Writable (segments : List Segment) : Prop where
  someSegment : segments ≠ []
  each : ∀ segment ∈ segments, segment.Writable
  apart : segments.IsChain Segment.Apart

theorem scan_placeholder {alternatives : List String} {segment : Segment}
    (plain : ∀ a ∈ alternatives, Alternatives.Plain a)
    (closed : referenceSegment (between alternatives) = .ok segment) (rest : List Char) :
    scan (.text []) (placeholder alternatives ++ rest) = (segment :: ·) <$> scan (.text []) rest := by
  rw [placeholder, List.cons_append, List.cons_append, List.append_assoc, scan_open,
    scan_between plain, List.nil_append, List.singleton_append, scan_close closed]
  exact id_map _

/-- A text ends here: nothing follows, or a reference. -/
def EndsText (rest : List Char) : Prop :=
  rest = [] ∨ ∃ more, rest = '$' :: '{' :: more

theorem scan_textSegment {rest : List Char} (ends : EndsText rest) (chars : List Char) :
    scan (.text chars) rest = (textSegment chars ++ ·) <$> scan (.text []) rest := by
  rcases ends with rfl | ⟨more, rfl⟩
  · rw [scan, scan]
    exact congrArg Except.ok (List.append_nil _).symm
  · rw [scan_open, scan_open, ← comp_map]
    rfl

/-- No brace follows a `$` of the text, so it opens no reference. -/
theorem escape_append_ne_brace {cs rest : List Char} (ends : EndsText rest) (more : List Char) :
    escape isEscapable cs ++ rest ≠ '{' :: more := by
  cases cs with
  | nil =>
    rcases ends with rfl | ⟨body, rfl⟩
    · exact nofun
    · exact fun same => absurd (List.cons.inj same).1 (by decide)
  | cons c cs =>
    by_cases special : isEscapable c = true
    · rw [escape_cons_special special]
      exact fun same => absurd (List.cons.inj same).1 (by decide)
    · rw [escape_cons_plain special]
      exact fun same => special ((List.cons.inj same).1 ▸ rfl)

theorem scan_escape_text {cs rest : List Char} (noBackslash : '\\' ∉ cs) (ends : EndsText rest)
    (chars : List Char) :
    scan (.text chars) (escape isEscapable cs ++ rest) = scan (.text (chars ++ cs)) rest := by
  have read := read_escape (fun chars => scan (.text chars)) (fun c => [c]) rest
    (fun _ _ _ special => scan_escaped special)
    (fun _ _ _ _ here => scan_text here (escape_append_ne_brace ends)) noBackslash chars
  rwa [List.flatMap_singleton'] at read

theorem endsText_placeholder (alternatives : List String) (rest : List Char) :
    EndsText (placeholder alternatives ++ rest) :=
  .inr ⟨_, rfl⟩

/-- Behind a text that is not empty there is no other one. -/
theorem endsText_of_apart {segment : Segment} {rest : List Segment} (text : segment.IsText)
    (each : ∀ s ∈ rest, s.Writable)
    (apart : (segment :: rest).IsChain Segment.Apart) :
    EndsText (rest.flatMap segmentChars) := by
  match rest with
  | [] => exact .inl rfl
  | .reference _ alternatives :: rest => exact endsText_placeholder alternatives _
  | .fixed v :: rest =>
    obtain ⟨written, rfl, -⟩ := each _ List.mem_cons_self
    have notBoth := (List.isChain_cons_cons.mp apart).1
    have empty : written = "" := by
      by_contra someText
      exact notBoth ⟨text, written, rfl, someText⟩
    subst empty
    exact endsText_placeholder [] _

theorem referenceSegment_of_scan {chars : List Char} {alternatives : List String}
    (split : Alternatives.scan none [] chars = .ok alternatives) (someAlternative : alternatives ≠ []) :
    referenceSegment chars = .ok (.reference (Text.trimmed (String.ofList chars)) alternatives) := by
  rw [referenceSegment, split]
  cases alternatives with
  | nil => exact absurd rfl someAlternative
  | cons first more => rfl

theorem referenceSegment_between {alternatives : List String}
    (plain : ∀ a ∈ alternatives, Alternatives.Plain a) (someAlternative : alternatives ≠ []) :
    ∃ source, referenceSegment (between alternatives) = .ok (.reference source alternatives) :=
  ⟨_, referenceSegment_of_scan (Alternatives.scan_between plain) someAlternative⟩

theorem textSegment_toList {text : String} (someText : text ≠ "") :
    textSegment text.toList = [.fixed (.string text)] := by
  have someChar : ¬ text.toList.isEmpty = true := by simpa using someText
  rw [textSegment, if_neg someChar, String.ofList_toList]

/-- The segments of a rendered template are read one after the other. -/
theorem scan_render {segments : List Segment} (each : ∀ segment ∈ segments, segment.Writable)
    (apart : segments.IsChain Segment.Apart) :
    ∃ found, scan (.text []) (segments.flatMap segmentChars) = .ok found ∧
      found.map Segment.withoutSource = segments.map Segment.withoutSource := by
  induction segments with
  | nil => exact ⟨[], rfl, rfl⟩
  | cons segment rest ih =>
    obtain ⟨here, later⟩ := List.forall_mem_cons.mp each
    obtain ⟨found, read, same⟩ := ih later apart.of_cons
    rw [List.flatMap_cons]
    cases segment with
    | reference source alternatives =>
      obtain ⟨source', closed⟩ := referenceSegment_between here.2 here.1
      refine ⟨.reference source' alternatives :: found, ?_, ?_⟩
      · rw [segmentChars, scan_placeholder here.2 closed, read]
        rfl
      · rw [List.map_cons, List.map_cons, same]
        rfl
    | fixed v =>
      obtain ⟨text, rfl, noBackslash⟩ := here
      refine ⟨.fixed (.string text) :: found, ?_, ?_⟩
      · by_cases empty : text = ""
        · subst empty
          have shape : segmentChars (.fixed (.string "")) = placeholder [] := rfl
          rw [shape, scan_placeholder (List.forall_mem_nil _) rfl, read]
          rfl
        · have shape : segmentChars (.fixed (.string text)) = escape isEscapable text.toList :=
            if_neg empty
          have ends := endsText_of_apart ⟨text, rfl, empty⟩ later apart
          rw [shape, scan_escape_text noBackslash ends, List.nil_append, scan_textSegment ends, read,
            textSegment_toList empty]
          rfl
      · rw [List.map_cons, List.map_cons, same]

/-- A list of segments is read back from its template. -/
theorem segments_render {segments : List Segment} (writable : Writable segments) :
    ∃ found, Template.segments (render segments).toList = .ok found ∧
      found.map Segment.withoutSource = segments.map Segment.withoutSource := by
  obtain ⟨found, read, same⟩ := scan_render writable.each writable.apart
  refine ⟨found, ?_, same⟩
  rw [Template.segments, render, String.toList_ofList, read]
  cases found with
  | nil => exact absurd (List.map_eq_nil_iff.mp same.symm) writable.someSegment
  | cons first more => rfl

example :
    render [.fixed (.string "it's"), .fixed (.string ""), .reference "" ["a", "\"b?"]] =
      "it\\'s$\x7b\x7d$\x7b'a'?'\\\"b?'\x7d" := by decide

end Template

end LayeredConfig
