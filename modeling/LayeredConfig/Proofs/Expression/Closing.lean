import LayeredConfig.Proofs.Expression.RoundTrip
import LayeredConfig.Proofs.Expression.Splitting

/-!
# Where references close

Two readers see the text between the braces of a reference. The one of the template looks for the brace that
closes the reference and collects what stands before it; a brace that was escaped comes without its backslash
(`collected`). The other one splits what was collected into alternatives.

`Enclosed` are the texts that can stand between the braces, and `Settled` those that a template can hold in
front of a reference. Both readers open and close the same quotes, so the second one never fails on what the
first one has collected (`splits_collected`). A template is rejected exactly if a backslash is stray or a
reference stays open (`readers_agree`).
-/

namespace LayeredConfig

/-! ## Between the braces -/

namespace Template

open Alternatives (isQuote)

/-- A text that can stand between the braces of a reference, or what is left of it while a quote is open: no
brace closes the reference before its end, and at its end all quotes are closed.

* `escaped`: a backslash takes the meaning from a brace or a quote.
* `opening` and `closing`: a quote is closed by the next one of its kind.
* `outside` and `inside`: in quotes, a brace or the other quote has no meaning. -/
inductive Enclosed : Option Char → List Char → Prop
  | done : Enclosed none []
  | escaped {quote? : Option Char} {c : Char} {cs : List Char} :
      isEscapable c = true → Enclosed quote? cs → Enclosed quote? ('\\' :: c :: cs)
  | opening {c : Char} {cs : List Char} :
      isQuote c = true → Enclosed (some c) cs → Enclosed none (c :: cs)
  | closing {c : Char} {cs : List Char} :
      c ≠ '\\' → Enclosed none cs → Enclosed (some c) (c :: cs)
  | outside {c : Char} {cs : List Char} :
      c ≠ '\\' → isQuote c = false → c ≠ '}' → Enclosed none cs → Enclosed none (c :: cs)
  | inside {quote c : Char} {cs : List Char} :
      c ≠ '\\' → c ≠ quote → Enclosed (some quote) cs → Enclosed (some quote) (c :: cs)

/-- What is collected between the braces of a reference. Only quotes keep their backslashes. -/
def collected : List Char → List Char
  | '\\' :: c :: cs => if isQuote c then '\\' :: c :: collected cs else c :: collected cs
  | c :: cs => c :: collected cs
  | [] => []

theorem collected_escaped (c : Char) (cs : List Char) :
    collected ('\\' :: c :: cs) = (if isQuote c then ['\\', c] else [c]) ++ collected cs := by
  rw [collected]
  split <;> rfl

theorem collected_cons {c : Char} (noBackslash : c ≠ '\\') (cs : List Char) :
    collected (c :: cs) = c :: collected cs := by
  rw [collected]
  exact fun _ _ same => absurd same noBackslash

section Enclosed

variable {quote? : Option Char} {body cs chars rest : List Char} {found : List Segment}

/-- A text that can stand between braces is collected, and the brace behind it closes the reference. -/
theorem scan_enclosed (enclosed : Enclosed quote? body) (chars rest : List Char) :
    scan (.reference chars quote?) (body ++ '}' :: rest) = (do
      let segment ← referenceSegment (chars ++ collected body)
      (segment :: ·) <$> scan (.text []) rest) := by
  induction enclosed generalizing chars with
  | done =>
    rw [List.nil_append, scan_reference (by decide), if_pos ⟨rfl, rfl⟩, collected, List.append_nil]
  | @escaped quote? c cs escapable _ ih =>
    rw [List.cons_append, List.cons_append, scan_escaped escapable, collected_escaped,
      ← List.append_assoc]
    exact ih _
  | @opening c cs quote _ ih =>
    have noBackslash := Alternatives.ne_backslash_of_isQuote quote
    have noBrace : c ≠ '}' := by
      rintro rfl
      exact absurd quote (by decide)
    rw [List.cons_append, scan_inside noBackslash fun closes => noBrace closes.1, nextQuote, if_pos quote,
      ih, collected_cons noBackslash, List.append_assoc, List.singleton_append]
  | @closing c cs noBackslash _ ih =>
    rw [List.cons_append, scan_inside noBackslash (by simp), nextQuote, if_pos rfl, ih,
      collected_cons noBackslash, List.append_assoc, List.singleton_append]
  | @outside c cs noBackslash noQuote noBrace _ ih =>
    rw [List.cons_append, scan_inside noBackslash fun closes => noBrace closes.1, nextQuote,
      if_neg (by simp [noQuote]), ih, collected_cons noBackslash, List.append_assoc, List.singleton_append]
  | @inside quote c cs noBackslash notThis _ ih =>
    rw [List.cons_append, scan_inside noBackslash (by simp), nextQuote, if_neg notThis, ih,
      collected_cons noBackslash, List.append_assoc, List.singleton_append]

/-- One more character in front of an enclosed text, seen as the reader of the template sees it. -/
theorem Enclosed.cons {c : Char} (noBackslash : c ≠ '\\') (stays : ¬ (c = '}' ∧ quote? = none))
    (later : Enclosed (nextQuote c quote?) cs) : Enclosed quote? (c :: cs) := by
  cases quote? with
  | none =>
    have noBrace : c ≠ '}' := fun brace => stays ⟨brace, rfl⟩
    cases quote : isQuote c with
    | true =>
      rw [nextQuote, if_pos quote] at later
      exact .opening quote later
    | false =>
      rw [nextQuote, if_neg (by simp [quote])] at later
      exact .outside noBackslash quote noBrace later
  | some quote =>
    by_cases closes : c = quote
    · subst closes
      rw [nextQuote, if_pos rfl] at later
      exact .closing noBackslash later
    · rw [nextQuote, if_neg closes] at later
      exact .inside noBackslash closes later

/-- A fault of the template itself, and not of the text that was collected for a reference. -/
def Fault.OfTemplate (fault : Fault) : Prop :=
  ∀ source reason, fault ≠ .alternatives source reason

/-- A reference is closed by a brace, or stays open whatever was collected for it. -/
theorem enclosed_or_error {place : Place} (reference : place = .reference chars quote?) :
    (∃ body rest, cs = body ++ '}' :: rest ∧ Enclosed quote? body) ∨
      ∃ fault, scan place cs = .error fault ∧ fault.OfTemplate := by
  fun_induction scan place cs generalizing chars quote? with
  | case1 => cases reference
  | case2 chars quote? =>
    refine .inr ⟨_, rfl, ?_⟩
    split <;> rintro _ _ ⟨⟩
  | case3 => exact .inr ⟨_, rfl, by rintro _ _ ⟨⟩⟩
  | case4 place c rest escapable ih =>
    subst reference
    rcases ih rfl with ⟨body, rest, rfl, enclosed⟩ | failed
    · exact .inl ⟨_, _, rfl, .escaped escapable enclosed⟩
    · exact .inr failed
  | case5 => exact .inr ⟨_, rfl, by rintro _ _ ⟨⟩⟩
  | case6 => cases reference
  | case7 => cases reference
  | case8 chars quote? c rest notLast notEscape closes _ =>
    cases reference
    obtain ⟨rfl, rfl⟩ := closes
    exact .inl ⟨[], rest, rfl, .done⟩
  | case9 chars quote? c rest notLast notEscape stays ih =>
    cases reference
    have noBackslash := ne_backslash notLast notEscape
    rcases ih rfl with ⟨body, rest, rfl, enclosed⟩ | failed
    · exact .inl ⟨c :: body, rest, rfl, enclosed.cons noBackslash stays⟩
    · exact .inr failed

end Enclosed

end Template

/-! ## Both readers agree -/

namespace Alternatives

open Template (Enclosed collected collected_escaped collected_cons ne_backslash_of_isEscapable isEscapable)

/-- The text is split into alternatives, whatever was read before it. -/
def Splits (quotation? : Option Quotation) (cs : List Char) : Prop :=
  ∀ chunk, ∃ found, scan quotation? chunk cs = .ok found

section Splits

variable {quotation? : Option Quotation} {quotation : Quotation} {c : Char} {cs : List Char}

theorem splits_nil : Splits none [] :=
  fun _ => ⟨_, rfl⟩

theorem Splits.escaped (quote : isQuote c = true) (later : Splits quotation? cs) :
    Splits quotation? ('\\' :: c :: cs) := by
  intro chunk
  rw [scan_escaped quote]
  exact later _

theorem Splits.opening (quote : isQuote c = true) (later : ∀ kept, Splits (some ⟨c, kept⟩) cs) :
    Splits none (c :: cs) := by
  intro chunk
  rw [scan_unquoted (ne_backslash_of_isQuote quote), if_pos quote]
  split
  · exact later false _
  · exact later true _

theorem Splits.closing (noBackslash : quotation.quote ≠ '\\') (later : Splits none cs) :
    Splits (some quotation) (quotation.quote :: cs) := by
  intro chunk
  rw [scan_inQuotes noBackslash, if_pos rfl]
  split
  · exact later _
  · exact exists_map_ok (later _)

theorem Splits.inside (noBackslash : c ≠ '\\') (inside : c ≠ quotation.quote)
    (later : Splits (some quotation) cs) : Splits (some quotation) (c :: cs) := by
  intro chunk
  rw [scan_inside noBackslash inside]
  exact later _

theorem Splits.outside (noBackslash : c ≠ '\\') (noQuote : isQuote c = false) (later : Splits none cs)
    (behind : Splits none (afterSeparator cs)) : Splits none (c :: cs) := by
  intro chunk
  rw [scan_unquoted noBackslash, if_neg (by simp [noQuote])]
  split
  · exact exists_map_ok (behind _)
  · exact later _

/-- A character that loses its backslash has no meaning for the splitting either. -/
theorem plain_of_isEscapable (escapable : isEscapable c = true) : c ≠ '\\' ∧ c ≠ ':' := by
  refine ⟨ne_backslash_of_isEscapable escapable, ?_⟩
  rintro rfl
  exact absurd escapable (by decide)

/-- What was collected for a reference is always split into alternatives, also where a `:` at its start
belongs to a separator. In quotes the two readers wait for the same quote. -/
theorem splits_collected {quote? : Option Char} {body : List Char} (enclosed : Enclosed quote? body)
    (quotes : ∀ quote ∈ quote?, isQuote quote = true) :
    (∀ quotation?, quotation?.map Quotation.quote = quote? → Splits quotation? (collected body)) ∧
      (quote? = none → Splits none (afterSeparator (collected body))) := by
  induction enclosed with
  | done =>
    refine ⟨fun quotation? same => ?_, fun _ => splits_nil⟩
    rw [Option.map_eq_none_iff.mp same]
    exact splits_nil
  | @escaped quote? c cs escapable _ ih =>
    obtain ⟨later, behind⟩ := ih quotes
    rw [collected_escaped]
    cases quote : isQuote c with
    | true =>
      refine ⟨fun quotation? same => (later quotation? same).escaped quote, ?_⟩
      rintro rfl
      exact (later none rfl).escaped quote
    | false =>
      obtain ⟨noBackslash, noColon⟩ := plain_of_isEscapable escapable
      have plain : ∀ quotation?, quotation?.map Quotation.quote = quote? →
          Splits quotation? (c :: collected cs) := by
        rintro (_ | quotation) rfl
        · exact .outside noBackslash quote (later none rfl) (behind rfl)
        · refine .inside noBackslash (fun same => ?_) (later _ rfl)
          rw [same, quotes quotation.quote rfl] at quote
          cases quote
      refine ⟨plain, ?_⟩
      rintro rfl
      show Splits none (afterSeparator (c :: collected cs))
      rw [afterSeparator_cons noColon]
      exact plain none rfl
  | @opening c cs quote _ ih =>
    have noColon : c ≠ ':' := by
      rintro rfl
      exact absurd quote (by decide)
    obtain ⟨later, -⟩ := ih (by rintro _ ⟨⟩; exact quote)
    have opens : Splits none (c :: collected cs) := .opening quote fun kept => later _ rfl
    rw [collected_cons (ne_backslash_of_isQuote quote), afterSeparator_cons noColon]
    refine ⟨fun quotation? same => ?_, fun _ => opens⟩
    rw [Option.map_eq_none_iff.mp same]
    exact opens
  | @closing c cs noBackslash _ ih =>
    obtain ⟨later, -⟩ := ih nofun
    rw [collected_cons noBackslash]
    refine ⟨fun quotation? same => ?_, nofun⟩
    obtain ⟨quotation, rfl, rfl⟩ := Option.map_eq_some_iff.mp same
    exact .closing noBackslash (later none rfl)
  | @outside c cs noBackslash noQuote _ _ ih =>
    obtain ⟨later, behind⟩ := ih nofun
    have plain : Splits none (c :: collected cs) :=
      .outside noBackslash noQuote (later none rfl) (behind rfl)
    rw [collected_cons noBackslash]
    refine ⟨fun quotation? same => ?_, fun _ => ?_⟩
    · rw [Option.map_eq_none_iff.mp same]
      exact plain
    · by_cases colon : c = ':'
      · subst colon
        exact later none rfl
      · rwa [afterSeparator_cons colon]
  | @inside quote c cs noBackslash notThis _ ih =>
    obtain ⟨later, -⟩ := ih quotes
    rw [collected_cons noBackslash]
    refine ⟨fun quotation? same => ?_, nofun⟩
    obtain ⟨quotation, rfl, rfl⟩ := Option.map_eq_some_iff.mp same
    exact .inside noBackslash notThis (later _ rfl)

end Splits

end Alternatives

/-! ## Templates -/

namespace Template

/-- A brace closes the reference that was opened in front of the text. -/
def Closes (cs : List Char) : Prop :=
  ∃ body rest, cs = body ++ '}' :: rest ∧ Enclosed none body

theorem closes_or_error (cs : List Char) :
    Closes cs ∨ ∃ fault, scan (.reference [] none) cs = .error fault ∧ fault.OfTemplate :=
  enclosed_or_error rfl

/-- A text that a template can hold in front of a reference: every reference in it is closed. -/
inductive Settled : List Char → Prop
  | done : Settled []
  | escaped {c : Char} {cs : List Char} :
      isEscapable c = true → Settled cs → Settled ('\\' :: c :: cs)
  | plain {c : Char} {cs : List Char} :
      c ≠ '\\' → (∀ more, c :: cs ≠ '$' :: '{' :: more) → Settled cs → Settled (c :: cs)
  | reference {body cs : List Char} :
      Enclosed none body → Settled cs → Settled ('$' :: '{' :: (body ++ '}' :: cs))

/-- A reference is opened and not closed. -/
def OpenReference (cs : List Char) : Prop :=
  ∃ before rest, cs = before ++ '$' :: '{' :: rest ∧ Settled before ∧ ¬ Closes rest

/-- No brace and no quote follows some backslash. -/
def StrayBackslash (cs : List Char) : Prop :=
  ∃ rest, '\\' :: rest <:+ cs ∧ ∀ c ∈ rest.head?, isEscapable c = false

/-- Induction along a template: its characters, its escaped characters, and its references. -/
theorem template_induction {P : List Char → Prop} (nil : P [])
    (stray : ∀ rest, (∀ c ∈ rest.head?, isEscapable c = false) → P ('\\' :: rest))
    (escaped : ∀ c rest, isEscapable c = true → P rest → P ('\\' :: c :: rest))
    (opened : ∀ rest, ¬ Closes rest → P ('$' :: '{' :: rest))
    (closed : ∀ body rest, Enclosed none body → P rest → P ('$' :: '{' :: (body ++ '}' :: rest)))
    (plain : ∀ c rest, c ≠ '\\' → (∀ more, c :: rest ≠ '$' :: '{' :: more) → P rest → P (c :: rest))
    (cs : List Char) : P cs := by
  induction size : cs.length using Nat.strong_induction_on generalizing cs with
  | _ n ih =>
    subst size
    match cs with
    | [] => exact nil
    | c :: rest =>
      by_cases backslash : c = '\\'
      · subst backslash
        match rest with
        | [] => exact stray [] nofun
        | c :: rest =>
          cases escapable : isEscapable c with
          | true => exact escaped c rest escapable (ih _ (by simp only [List.length_cons]; omega) rest rfl)
          | false =>
            refine stray (c :: rest) ?_
            rintro _ ⟨⟩
            exact escapable
      · by_cases opens : ∃ more, c :: rest = '$' :: '{' :: more
        · obtain ⟨more, shape⟩ := opens
          rw [shape] at ih ⊢
          by_cases closes : Closes more
          · obtain ⟨body, rest, rfl, enclosed⟩ := closes
            exact closed body rest enclosed
              (ih _ (by simp only [List.length_cons, List.length_append]; omega) rest rfl)
          · exact opened more closes
        · exact plain c rest backslash (fun more same => opens ⟨more, same⟩)
            (ih _ (Nat.lt_succ_self _) rest rfl)

section Templates

variable {c : Char} {body cs rest chars : List Char}

/-! ### What is wrong with a template stays wrong in a longer one -/

theorem StrayBackslash.append (stray : StrayBackslash cs) (before : List Char) :
    StrayBackslash (before ++ cs) := by
  obtain ⟨rest, suffix, noEscape⟩ := stray
  exact ⟨rest, suffix.trans (List.suffix_append before cs), noEscape⟩

theorem OpenReference.escaped (escapable : isEscapable c = true) (opened : OpenReference cs) :
    OpenReference ('\\' :: c :: cs) := by
  obtain ⟨before, rest, rfl, settled, stays⟩ := opened
  exact ⟨_, rest, rfl, .escaped escapable settled, stays⟩

theorem OpenReference.behind (enclosed : Enclosed none body) (opened : OpenReference cs) :
    OpenReference ('$' :: '{' :: (body ++ '}' :: cs)) := by
  obtain ⟨before, rest, rfl, settled, stays⟩ := opened
  exact ⟨_, rest, by simp, .reference enclosed settled, stays⟩

theorem OpenReference.plain (noBackslash : c ≠ '\\') (noOpening : ∀ more, c :: cs ≠ '$' :: '{' :: more)
    (opened : OpenReference cs) : OpenReference (c :: cs) := by
  obtain ⟨before, rest, rfl, settled, stays⟩ := opened
  refine ⟨c :: before, rest, rfl, .plain noBackslash (fun more same => ?_) settled, stays⟩
  obtain ⟨rfl, rfl⟩ := List.cons.inj same
  exact noOpening _ rfl

/-! ### References -/

/-- A closed reference is a segment, and reading goes on behind it. -/
theorem exists_scan_closed (enclosed : Enclosed none body) :
    ∃ segment, ∀ chars rest, scan (.text chars) ('$' :: '{' :: (body ++ '}' :: rest)) =
      (fun more => textSegment chars ++ segment :: more) <$> scan (.text []) rest := by
  obtain ⟨alternatives, split⟩ := (Alternatives.splits_collected enclosed nofun).1 none rfl []
  have closed : ∃ segment, referenceSegment (collected body) = .ok segment := by
    rw [referenceSegment, split]
    split
    · next failed => cases failed
    · exact ⟨_, rfl⟩
    · exact ⟨_, rfl⟩
  obtain ⟨segment, closed⟩ := closed
  refine ⟨segment, fun chars rest => ?_⟩
  rw [scan_open, scan_enclosed enclosed, List.nil_append, closed]
  exact (comp_map _ _ _).symm

theorem scan_plain (noBackslash : c ≠ '\\') (noOpening : ∀ more, c :: rest ≠ '$' :: '{' :: more)
    (chars : List Char) : scan (.text chars) (c :: rest) = scan (.text (chars ++ [c])) rest := by
  rw [scan]
  · exact fun same => absurd same noBackslash
  · exact fun _ _ same => absurd same noBackslash
  · rintro more rfl rfl
    exact noOpening more rfl

/-! ### Templates that are read, and templates that are not -/

theorem exists_error_stray (stray : ∀ c ∈ rest.head?, isEscapable c = false) (chars : List Char) :
    ∃ fault, scan (.text chars) ('\\' :: rest) = .error fault ∧ fault.OfTemplate := by
  cases rest with
  | nil => exact ⟨.danglingEscape, by rw [scan], by rintro _ _ ⟨⟩⟩
  | cons c rest =>
    refine ⟨.illegalEscape c, ?_, by rintro _ _ ⟨⟩⟩
    rw [scan, if_neg (by simp [stray c rfl])]

/-- A template is read unless something is wrong with it, and what is wrong is never about the alternatives
of a reference. -/
theorem scan_text_or (chars cs : List Char) :
    (∃ found, scan (.text chars) cs = .ok found) ∨ (StrayBackslash cs ∨ OpenReference cs) ∧
      ∃ fault, scan (.text chars) cs = .error fault ∧ fault.OfTemplate := by
  induction cs using template_induction generalizing chars with
  | nil => exact .inl ⟨_, rfl⟩
  | stray rest noEscape =>
    exact .inr ⟨.inl ⟨rest, List.suffix_refl _, noEscape⟩, exists_error_stray noEscape chars⟩
  | escaped c rest escapable ih =>
    rw [scan_escaped escapable]
    refine (ih _).imp_right fun ⟨wrong, failed⟩ => ⟨wrong.imp ?_ ?_, failed⟩
    · exact fun stray => stray.append ['\\', c]
    · exact fun opened => opened.escaped escapable
  | opened rest stays =>
    rcases closes_or_error rest with closes | ⟨fault, failed, ofTemplate⟩
    · exact absurd closes stays
    · refine .inr ⟨.inr ⟨[], rest, rfl, .done, stays⟩, fault, ?_, ofTemplate⟩
      rw [scan_open, failed]
      rfl
  | closed body rest enclosed ih =>
    obtain ⟨segment, closed⟩ := exists_scan_closed enclosed
    rw [closed]
    rcases ih [] with ⟨found, read⟩ | ⟨wrong, fault, failed, ofTemplate⟩
    · rw [read]
      exact .inl ⟨_, rfl⟩
    · rw [failed]
      refine .inr ⟨wrong.imp (fun stray => ?_) fun opened => opened.behind enclosed, fault, rfl, ofTemplate⟩
      have longer := stray.append ('$' :: '{' :: (body ++ ['}']))
      rwa [List.cons_append, List.cons_append, List.append_assoc, List.singleton_append] at longer
  | plain c rest noBackslash noOpening ih =>
    rw [scan_plain noBackslash noOpening]
    refine (ih _).imp_right fun ⟨wrong, failed⟩ => ⟨wrong.imp ?_ ?_, failed⟩
    · exact fun stray => stray.append [c]
    · exact fun opened => opened.plain noBackslash noOpening

theorem StrayBackslash.of_cons (noBackslash : c ≠ '\\') (stray : StrayBackslash (c :: cs)) :
    StrayBackslash cs := by
  obtain ⟨rest, suffix, noEscape⟩ := stray
  rcases List.suffix_cons_iff.mp suffix with same | suffix
  · exact absurd (List.cons.inj same).1.symm noBackslash
  · exact ⟨rest, suffix, noEscape⟩

theorem StrayBackslash.of_escaped (escapable : isEscapable c = true)
    (stray : StrayBackslash ('\\' :: c :: cs)) : StrayBackslash cs := by
  obtain ⟨rest, suffix, noEscape⟩ := stray
  rcases List.suffix_cons_iff.mp suffix with same | suffix
  · obtain rfl := (List.cons.inj same).2
    rw [noEscape c rfl] at escapable
    cases escapable
  · exact StrayBackslash.of_cons (ne_backslash_of_isEscapable escapable) ⟨rest, suffix, noEscape⟩

theorem not_strayBackslash_of_scan {place : Place} {found : List Segment}
    (read : scan place cs = .ok found) : ¬ StrayBackslash cs := by
  fun_induction scan place cs generalizing found with
  | case1 chars =>
    rintro ⟨rest, suffix, -⟩
    cases List.suffix_nil.mp suffix
  | case2 => cases read
  | case3 => cases read
  | case4 place c rest escapable ih => exact fun stray => ih read (stray.of_escaped escapable)
  | case5 => cases read
  | case6 chars rest ih =>
    obtain ⟨more, scanned, -⟩ := bind_eq_ok.mp read
    exact fun stray => ih scanned ((stray.of_cons (by decide)).of_cons (by decide))
  | case7 chars c rest notLast notEscape _ ih =>
    exact fun stray => ih read (stray.of_cons (ne_backslash notLast notEscape))
  | case8 chars quote? c rest notLast notEscape _ ih =>
    obtain ⟨segment, -, read⟩ := bind_eq_ok.mp read
    obtain ⟨more, scanned, -⟩ := bind_eq_ok.mp read
    exact fun stray => ih scanned (stray.of_cons (ne_backslash notLast notEscape))
  | case9 chars quote? c rest notLast notEscape _ ih =>
    exact fun stray => ih read (stray.of_cons (ne_backslash notLast notEscape))

/-- In a template that is read, every reference is closed. -/
theorem closes_of_scan {before : List Char} {found : List Segment} (settled : Settled before)
    (read : scan (.text chars) (before ++ '$' :: '{' :: rest) = .ok found) : Closes rest := by
  induction settled generalizing chars found with
  | done =>
    rw [List.nil_append, scan_open] at read
    obtain ⟨more, scanned, -⟩ := map_eq_ok.mp read
    rcases closes_or_error rest with closes | ⟨fault, failed, -⟩
    · exact closes
    · rw [failed] at scanned
      cases scanned
  | escaped escapable _ ih =>
    rw [List.cons_append, List.cons_append, scan_escaped escapable] at read
    exact ih read
  | @plain c cs noBackslash noOpening _ ih =>
    have noOpening : ∀ more, c :: (cs ++ '$' :: '{' :: rest) ≠ '$' :: '{' :: more := by
      intro more same
      obtain ⟨first, same⟩ := List.cons.inj same
      cases cs with
      | nil => exact absurd (List.cons.inj same).1 (by decide)
      | cons d cs => exact noOpening cs (by rw [first, (List.cons.inj same).1])
    rw [List.cons_append, scan_plain noBackslash noOpening] at read
    exact ih read
  | @reference body cs enclosed _ ih =>
    obtain ⟨segment, closed⟩ := exists_scan_closed enclosed
    rw [List.cons_append, List.cons_append, List.append_assoc, List.cons_append, closed] at read
    obtain ⟨more, scanned, -⟩ := map_eq_ok.mp read
    exact ih scanned

theorem split_of_referenceSegment {source : String} {alternatives : List String}
    (read : referenceSegment chars = .ok (.reference source alternatives)) :
    Alternatives.split source = .ok alternatives := by
  rw [referenceSegment] at read
  split at read
  · cases read
  · cases read
  · next found _ split =>
    cases read
    rw [Alternatives.split, mapError_ok_iff, Text.trimmed, String.toList_ofList, String.toList_ofList]
    exact Alternatives.scan_trim split

/-- The source of a reference has the alternatives that the reference has. -/
theorem split_of_scan {place : Place} {found : List Segment} (read : scan place cs = .ok found)
    {source : String} {alternatives : List String} (mem : .reference source alternatives ∈ found) :
    Alternatives.split source = .ok alternatives := by
  fun_induction scan place cs generalizing found with
  | case1 chars =>
    cases read
    cases isFixed_of_mem_textSegment mem
  | case2 => cases read
  | case3 => cases read
  | case4 place c rest _ ih => exact ih read mem
  | case5 => cases read
  | case6 chars rest ih =>
    obtain ⟨more, scanned, same⟩ := bind_eq_ok.mp read
    cases pure_eq_ok.mp same
    rcases List.mem_append.mp mem with here | later
    · cases isFixed_of_mem_textSegment here
    · exact ih scanned later
  | case7 chars c rest _ _ _ ih => exact ih read mem
  | case8 chars quote? c rest _ _ _ ih =>
    obtain ⟨segment, closed, read⟩ := bind_eq_ok.mp read
    obtain ⟨more, scanned, same⟩ := bind_eq_ok.mp read
    cases pure_eq_ok.mp same
    rcases List.mem_cons.mp mem with rfl | later
    · exact split_of_referenceSegment closed
    · exact ih scanned later
  | case9 chars quote? c rest _ _ _ ih => exact ih read mem

theorem segments_eq_error_iff {fault : Fault} :
    segments cs = .error fault ↔ scan (.text []) cs = .error fault := by
  rw [segments, bind_eq_error]
  constructor
  · rintro (failed | ⟨found, -, failed⟩)
    · exact failed
    · split at failed <;> cases failed
  · exact .inl

theorem parse_eq_error_iff {template : String} :
    (∃ e, Expression.parse template = .error e) ↔
      ∃ fault, scan (.text []) template.toList = .error fault := by
  simp only [← segments_eq_error_iff]
  unfold Expression.parse
  cases segments template.toList with
  | ok found => exact ⟨nofun, nofun⟩
  | error fault => exact ⟨fun _ => ⟨fault, rfl⟩, fun _ => ⟨_, rfl⟩⟩

end Templates

/-- The two readers of a template agree. What stands between the braces of a reference is always split into
alternatives, so no template is rejected because of that. Every reference that is read has alternatives, all of
them visible, trimmed and without backslashes, and they are those that its source is split into. A template is
rejected exactly if a backslash is stray or a reference is left open. -/
theorem readers_agree (template : String) :
    (∀ source reason, segments template.toList ≠ .error (.alternatives source reason)) ∧
    (∀ before body rest, template.toList = before ++ '$' :: '{' :: (body ++ '}' :: rest) →
      Settled before → Enclosed none body →
      ∃ alternatives, Alternatives.split (String.ofList (collected body)) = .ok alternatives) ∧
    (∀ e, Expression.parse template = .ok e → ∀ source alternatives,
      .reference source alternatives ∈ e.segments →
      alternatives ≠ [] ∧ (∀ a ∈ alternatives, Alternatives.Plain a) ∧
        Alternatives.split source = .ok alternatives) ∧
    ((∃ fault, Expression.parse template = .error fault) ↔
      StrayBackslash template.toList ∨ OpenReference template.toList) := by
  refine ⟨fun source reason failed => ?_, fun _ body _ _ _ enclosed => ?_, fun e read source as mem => ?_, ?_⟩
  · rw [segments_eq_error_iff] at failed
    rcases scan_text_or [] template.toList with ⟨found, read⟩ | ⟨-, fault, failed', ofTemplate⟩
    · rw [read] at failed
      cases failed
    · rw [failed'] at failed
      exact ofTemplate source reason (Except.error.inj failed)
  · obtain ⟨alternatives, split⟩ := (Alternatives.splits_collected enclosed nofun).1 none rfl []
    refine ⟨alternatives, ?_⟩
    rw [Alternatives.split, mapError_ok_iff, String.toList_ofList]
    exact split
  · obtain ⟨someAlternative, plain⟩ := (writable_of_parse read).each _ mem
    obtain ⟨scanned, -⟩ := Expression.parse_eq_ok_iff.mp read
    obtain ⟨found, scanned, same⟩ := bind_eq_ok.mp scanned
    refine ⟨someAlternative, plain, ?_⟩
    split at same
    · rw [← pure_eq_ok.mp same] at mem
      cases List.mem_singleton.mp mem
    · rw [← pure_eq_ok.mp same] at mem
      exact split_of_scan scanned mem
  · rw [parse_eq_error_iff]
    rcases scan_text_or [] template.toList with ⟨found, read⟩ | ⟨wrong, fault, failed, -⟩
    · rw [read]
      refine iff_of_false nofun ?_
      rintro (stray | ⟨before, rest, shape, settled, stays⟩)
      · exact not_strayBackslash_of_scan read stray
      · rw [shape] at read
        exact stays (closes_of_scan settled read)
    · exact iff_of_true ⟨fault, failed⟩ wrong

/-- A template with a brace in a quoted alternative. -/
theorem readers_agree_quoted :
    (∃ alternatives, Alternatives.split (String.ofList (collected "a?'\x7d'".toList)) = .ok alternatives) ∧
    Expression.parse "x$\x7ba?'\x7d'\x7d" = .ok ⟨"x$\x7ba?'\x7d'\x7d",
      [.fixed (.string "x"), .reference "a?'\x7d'" ["a", "\x7d"]]⟩ ∧
    ["a", "\x7d"] ≠ [] ∧ (∀ a ∈ ["a", "\x7d"], Alternatives.Plain a) ∧
      Alternatives.split "a?'\x7d'" = .ok ["a", "\x7d"] := by
  have settled : Settled "x".toList := .plain (by decide) (by simp) .done
  have enclosed : Enclosed none "a?'\x7d'".toList :=
    .outside (by decide) (by decide) (by decide) (.outside (by decide) (by decide) (by decide)
      (.opening (by decide) (.inside (by decide) (by decide) (.closing (by decide) .done))))
  have read : Expression.parse "x$\x7ba?'\x7d'\x7d" = .ok ⟨"x$\x7ba?'\x7d'\x7d",
      [.fixed (.string "x"), .reference "a?'\x7d'" ["a", "\x7d"]]⟩ := by
    cbv
  obtain ⟨-, collects, reads, -⟩ := readers_agree "x$\x7ba?'\x7d'\x7d"
  exact ⟨collects _ _ [] rfl settled enclosed, read, reads _ read _ _ (by simp)⟩

end Template

end LayeredConfig
