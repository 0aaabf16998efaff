import LayeredConfig.Reading.Locale
import LayeredConfig.Proofs.Text.Letters
import Mathlib

/-!
# Language tags and their normal form

A tag (`Tag`) is a known language, perhaps with a script and perhaps with a region, in this order and with
hyphens between them. A text is read exactly if it is a tag when its blank ends are dropped and its underscores
are hyphens (`read_eq_ok_iff`).

Letter case does not matter: a tag and its small letters are read alike (`ofFields_lower`). The text of a locale
is the tag in its usual case, so it is read as the same locale.
-/

namespace LayeredConfig.Locale

/-! ## Tags -/

/-- A known language, in any case. -/
structure IsLanguage (cs : List Char) : Prop where
  two : cs.length = 2
  letters : ∀ c ∈ cs, c.isAlpha = true
  known : String.ofList (cs.map Char.toLower) ∈ languages

/-- The parts of a tag. -/
structure Tag where
  language : List Char
  script? : Option (List Char)
  region? : Option (List Char)

namespace Tag

/-- The parts behind the language. -/
def subtags (t : Tag) : List (List Char) :=
  t.script?.toList ++ t.region?.toList

def chars (t : Tag) : List Char :=
  Text.joinFields '-' (t.language :: t.subtags)

/-- Has each part the form it has to have? A script has four letters, a region two letters or three digits. -/
structure Valid (t : Tag) : Prop where
  language : IsLanguage t.language
  script : ∀ s ∈ t.script?, s.length = 4 ∧ ∀ c ∈ s, c.isAlpha = true
  region : ∀ r ∈ t.region?,
    (r.length = 2 ∧ ∀ c ∈ r, c.isAlpha = true) ∨ (r.length = 3 ∧ ∀ c ∈ r, c.isDigit = true)

/-- The tag in its usual case. -/
def usual (t : Tag) : Tag where
  language := t.language.map Char.toLower
  script? := t.script?.map scriptCase
  region? := t.region?.map (List.map Char.toUpper)

/-- The locale with just these parts. -/
def locale (t : Tag) : Locale where
  language := String.ofList t.language
  script? := t.script?.map String.ofList
  region? := t.region?.map String.ofList

end Tag

/-- An underscore counts as a hyphen. -/
def hyphen (c : Char) : Char :=
  if c = '_' then '-' else c

/-- A text without its blank ends and with hyphens for its underscores. -/
def hyphenated (tag : String) : List Char :=
  (Text.trim tag.toList).map hyphen

/-- What counts of a text: the letters without their case. -/
def normal (tag : String) : List Char :=
  (hyphenated tag).map Char.toLower

/-! ## Reading the parts -/

/-- Reads the parts of a tag. -/
def ofFields : List (List Char) → Except Fault Locale
  | [] => .error .unavailable
  | first :: subtags =>
    let language := String.ofList (first.map Char.toLower)
    if languages.contains language then addSubtags ⟨language, none, none⟩ subtags
    else .error .unavailable

theorem map_hyphen {cs : List Char} (plain : ∀ c ∈ cs, c ≠ '_') : cs.map hyphen = cs :=
  (List.map_congr_left fun c mem => if_neg (plain c mem)).trans (List.map_id cs)

/-- Cutting at hyphens and underscores is cutting at hyphens when underscores are hyphens. -/
theorem fields_hyphenated (tag : String) : Text.fields '-' (hyphenated tag) =
    Text.fieldsBy (fun c => c == '-' || c == '_') (Text.trim tag.toList) := by
  have separators : ∀ c, (hyphen c == '-') = (c == '-' || c == '_') := by
    intro c
    unfold hyphen
    split
    · next underscore => subst underscore; rfl
    · next other => rw [beq_eq_false_iff_ne.mpr other, Bool.or_false]
  rw [Text.fields, hyphenated, Text.fieldsBy_map separators]
  refine (List.map_congr_left fun field mem => ?_).trans (List.map_id _)
  refine map_hyphen fun c here => ?_
  rintro rfl
  exact absurd (Text.free_of_mem_fieldsBy mem _ here) (by decide)

theorem read_eq_ofFields (tag : String) : read tag = ofFields (Text.fields '-' (hyphenated tag)) := by
  rw [fields_hyphenated]
  rfl

theorem isScript_iff {s : List Char} : isScript s = true ↔ s.length = 4 ∧ ∀ c ∈ s, c.isAlpha = true := by
  rw [isScript, Bool.and_eq_true, beq_iff_eq, List.all_eq_true]

theorem isRegion_iff {r : List Char} : isRegion r = true ↔
    (r.length = 2 ∧ ∀ c ∈ r, c.isAlpha = true) ∨ (r.length = 3 ∧ ∀ c ∈ r, c.isDigit = true) := by
  rw [isRegion, Bool.or_eq_true, Bool.and_eq_true, Bool.and_eq_true, beq_iff_eq, beq_iff_eq,
    List.all_eq_true, List.all_eq_true]

theorem not_isScript_of_isRegion {r : List Char} (region : isRegion r = true) : isScript r = false := by
  rw [← Bool.not_eq_true]
  intro script
  have four := (isScript_iff.mp script).1
  rcases isRegion_iff.mp region with ⟨two, -⟩ | ⟨three, -⟩ <;> omega

/-! ## Letter case -/

/-- A class of characters in which case makes no difference. -/
theorem all_map_eq {p : Char → Bool} {f : Char → Char} (same : ∀ c, p (f c) = p c) (cs : List Char) :
    (cs.map f).all p = cs.all p := by
  rw [List.all_map]
  exact List.all_congr rfl same

theorem isScript_map_toLower (s : List Char) : isScript (s.map Char.toLower) = isScript s := by
  rw [isScript, isScript, List.length_map, all_map_eq Char.isAlpha_toLower_eq_isAlpha]

theorem isRegion_map_toLower (r : List Char) : isRegion (r.map Char.toLower) = isRegion r := by
  rw [isRegion, isRegion, List.length_map, all_map_eq Char.isAlpha_toLower_eq_isAlpha,
    all_map_eq Text.isDigit_toLower]

/-- One change of case after another. -/
theorem map_case {f g h : Char → Char} (same : ∀ c, f (g c) = h c) (cs : List Char) :
    (cs.map g).map f = cs.map h := by
  rw [List.map_map]
  exact List.map_congr_left fun c _ => same c

theorem scriptCase_map_toLower (s : List Char) : scriptCase (s.map Char.toLower) = scriptCase s := by
  cases s with
  | nil => rfl
  | cons c rest =>
    rw [List.map_cons, scriptCase, scriptCase, map_case Char.toLower_toLower_eq_toLower,
      Char.toUpper_toLower_eq_toUpper]

/-- The parts behind the language are read alike in any case. -/
theorem addSubtags_lower {l l' : Locale} {subtags : List (List Char)} :
    addSubtags l (subtags.map (List.map Char.toLower)) = .ok l' ↔ addSubtags l subtags = .ok l' := by
  induction subtags generalizing l with
  | nil => exact Iff.rfl
  | cons subtag more ih =>
    rw [List.map_cons, addSubtags, addSubtags, isScript_map_toLower, isRegion_map_toLower,
      scriptCase_map_toLower, map_case Char.toUpper_toLower_eq_toUpper]
    split
    · exact ih
    · split
      · exact ih
      · exact iff_of_false nofun nofun

theorem ofFields_lower {fields : List (List Char)} {l : Locale} :
    ofFields (fields.map (List.map Char.toLower)) = .ok l ↔ ofFields fields = .ok l := by
  cases fields with
  | nil => exact Iff.rfl
  | cons first subtags =>
    rw [List.map_cons, ofFields, ofFields, map_case Char.toLower_toLower_eq_toLower]
    split
    · exact addSubtags_lower
    · exact Iff.rfl

/-- What is read depends on the letters of a text without their case. -/
theorem read_eq_ok_iff_normal {tag : String} {l : Locale} :
    read tag = .ok l ↔ ofFields (Text.fields '-' (normal tag)) = .ok l := by
  have separators : ∀ c : Char, (c.toLower == '-') = (c == '-') := by
    intro c
    rw [Bool.eq_iff_iff, beq_iff_eq, beq_iff_eq, Text.toLower_eq_iff (by decide)]
  rw [read_eq_ofFields, normal, Text.fields, Text.fields, Text.fieldsBy_map separators, ofFields_lower]

/-! ## What is read -/

section Read

variable {l l' : Locale} {s r : List Char} {more subtags : List (List Char)}

theorem addSubtags_script (script : isScript s = true) (noScript : l.script? = none)
    (noRegion : l.region? = none) : addSubtags l (s :: more) =
      addSubtags { l with script? := some (String.ofList (scriptCase s)) } more := by
  rw [addSubtags, script, noScript, noRegion]
  rfl

theorem addSubtags_region (region : isRegion r = true) (noRegion : l.region? = none) :
    addSubtags l (r :: more) =
      addSubtags { l with region? := some (String.ofList (r.map Char.toUpper)) } more := by
  rw [addSubtags, region, noRegion, not_isScript_of_isRegion region]
  rfl

/-- Nothing comes behind a region. -/
theorem eq_nil_of_addSubtags (region : l.region?.isSome = true)
    (read : addSubtags l subtags = .ok l') : subtags = [] := by
  cases subtags with
  | nil => rfl
  | cons subtag more =>
    have taken : l.region?.isNone = false := by rw [← Option.not_isSome, region]; rfl
    rw [addSubtags, taken, Bool.and_false, Bool.and_false] at read
    cases read

/-- Only a region comes behind a script. -/
theorem region_of_addSubtags (script : l.script?.isSome = true) (read : addSubtags l subtags = .ok l') :
    ∃ region? : Option (List Char), subtags = region?.toList ∧ ∀ r ∈ region?, isRegion r = true := by
  cases subtags with
  | nil => exact ⟨none, rfl, nofun⟩
  | cons subtag more =>
    have taken : l.script?.isNone = false := by rw [← Option.not_isSome, script]; rfl
    rw [addSubtags, taken, Bool.and_false, Bool.false_and, if_neg Bool.false_ne_true] at read
    split at read
    · next region =>
      rw [eq_nil_of_addSubtags rfl read]
      exact ⟨some subtag, rfl, fun r mem => Option.mem_some.mp mem ▸ (Bool.and_eq_true _ _ ▸ region).1⟩
    · cases read

theorem parts_of_addSubtags (noScript : l.script? = none) (noRegion : l.region? = none)
    (read : addSubtags l subtags = .ok l') : ∃ script? region? : Option (List Char),
      subtags = script?.toList ++ region?.toList ∧ (∀ s ∈ script?, isScript s = true) ∧
        ∀ r ∈ region?, isRegion r = true := by
  cases subtags with
  | nil => exact ⟨none, none, rfl, nofun, nofun⟩
  | cons subtag more =>
    rw [addSubtags, noScript, noRegion] at read
    split at read
    · next script =>
      obtain ⟨region?, rfl, region⟩ := region_of_addSubtags (Option.isSome_some) read
      refine ⟨some subtag, region?, rfl, fun s mem => ?_, region⟩
      rw [← Option.mem_some.mp mem]
      simpa using script
    · split at read
      · next region =>
        rw [eq_nil_of_addSubtags rfl read]
        refine ⟨none, some subtag, rfl, nofun, fun r mem => ?_⟩
        rw [← Option.mem_some.mp mem]
        simpa using region
      · cases read

end Read

theorem languages_lower : ∀ language ∈ languages,
    language.toList.length = 2 ∧ language.toList.all Char.isLower = true := by
  decide +kernel

theorem isLanguage_iff {cs : List Char} :
    IsLanguage cs ↔ String.ofList (cs.map Char.toLower) ∈ languages := by
  refine ⟨IsLanguage.known, fun known => ?_⟩
  obtain ⟨two, small⟩ := languages_lower _ known
  rw [String.toList_ofList, List.length_map] at two
  rw [String.toList_ofList, List.all_eq_true, List.forall_mem_map] at small
  exact ⟨two, fun c mem => by rw [← Char.isLower_toLower_eq_isAlpha, small c mem], known⟩

namespace Tag

variable {t : Tag}

theorem valid_iff : t.Valid ↔ String.ofList (t.language.map Char.toLower) ∈ languages ∧
    (∀ s ∈ t.script?, isScript s = true) ∧ ∀ r ∈ t.region?, isRegion r = true := by
  simp only [isScript_iff, isRegion_iff, ← isLanguage_iff]
  exact ⟨fun valid => ⟨valid.language, valid.script, valid.region⟩,
    fun ⟨language, script, region⟩ => ⟨language, script, region⟩⟩

theorem Valid.ofFields_parts (valid : t.Valid) :
    ofFields (t.language :: t.subtags) = .ok t.usual.locale := by
  obtain ⟨known, script, region⟩ := valid_iff.mp valid
  rw [ofFields, List.contains_iff_mem.mpr known]
  obtain ⟨first, script?, region?⟩ := t
  match script?, region? with
  | none, none => rfl
  | none, some r => exact addSubtags_region (region r rfl) rfl
  | some s, none => exact addSubtags_script (script s rfl) rfl rfl
  | some s, some r =>
    exact (addSubtags_script (script s rfl) rfl rfl).trans (addSubtags_region (region r rfl) rfl)

theorem exists_of_ofFields {fields : List (List Char)} {l : Locale} (read : ofFields fields = .ok l) :
    ∃ t : Tag, t.Valid ∧ fields = t.language :: t.subtags := by
  match fields with
  | first :: subtags =>
    rw [ofFields] at read
    split at read
    · next known =>
      obtain ⟨script?, region?, rfl, script, region⟩ := parts_of_addSubtags rfl rfl read
      exact ⟨⟨first, script?, region?⟩, valid_iff.mpr ⟨List.contains_iff_mem.mp known, script, region⟩, rfl⟩
    · cases read

/-- The characters of a tag. -/
theorem Valid.isAlphanum (valid : t.Valid) : ∀ part ∈ t.language :: t.subtags, ∀ c ∈ part,
    c.isAlphanum = true := by
  have letter : ∀ {c : Char}, c.isAlpha = true → c.isAlphanum = true := by
    intro c alpha
    rw [Char.isAlphanum, alpha, Bool.true_or]
  have digit : ∀ {c : Char}, c.isDigit = true → c.isAlphanum = true := by
    intro c digit
    rw [Char.isAlphanum, digit, Bool.or_true]
  intro part mem c here
  rw [subtags, List.mem_cons, List.mem_append, Option.mem_toList, Option.mem_toList] at mem
  rcases mem with rfl | script | region
  · exact letter (valid.language.letters c here)
  · exact letter ((valid.script part script).2 c here)
  · rcases valid.region part region with ⟨-, letters⟩ | ⟨-, digits⟩
    · exact letter (letters c here)
    · exact digit (digits c here)

theorem Valid.fields_chars (valid : t.Valid) : Text.fields '-' t.chars = t.language :: t.subtags := by
  refine Text.fields_join (fun part mem here => ?_) (List.cons_ne_nil _ _)
  exact absurd (valid.isAlphanum part mem _ here) (by decide)

end Tag

theorem read_eq_ok_iff {tag : String} {l : Locale} :
    read tag = .ok l ↔ ∃ t : Tag, t.Valid ∧ hyphenated tag = t.chars ∧ t.usual.locale = l := by
  rw [read_eq_ofFields]
  constructor
  · intro read
    obtain ⟨t, valid, fields⟩ := Tag.exists_of_ofFields read
    refine ⟨t, valid, ?_, ?_⟩
    · rw [Tag.chars, ← fields, Text.join_fields]
    · rw [fields, valid.ofFields_parts] at read
      exact Except.ok.inj read
  · rintro ⟨t, valid, chars, rfl⟩
    rw [chars, valid.fields_chars, valid.ofFields_parts]

/-! ## The usual case -/

theorem map_toLower_scriptCase (s : List Char) :
    (scriptCase s).map Char.toLower = s.map Char.toLower := by
  cases s with
  | nil => rfl
  | cons c rest =>
    rw [scriptCase, List.map_cons, List.map_cons, map_case Char.toLower_toLower_eq_toLower,
      Char.toLower_toUpper_eq_toLower]

namespace Tag

variable {t : Tag}

/-- The tag in small letters. -/
def lower (t : Tag) : Tag where
  language := t.language.map Char.toLower
  script? := t.script?.map (List.map Char.toLower)
  region? := t.region?.map (List.map Char.toLower)

theorem lower_usual (t : Tag) : t.usual.lower = t.lower := by
  have script : List.map Char.toLower ∘ scriptCase = List.map Char.toLower :=
    funext map_toLower_scriptCase
  have region : List.map Char.toLower ∘ List.map Char.toUpper = List.map Char.toLower :=
    funext (map_case Char.toLower_toUpper_eq_toLower)
  rw [lower, usual, lower, Option.map_map, Option.map_map, script, region,
    map_case Char.toLower_toLower_eq_toLower]

theorem usual_lower (t : Tag) : t.lower.usual = t.usual := by
  have script : scriptCase ∘ List.map Char.toLower = scriptCase := funext scriptCase_map_toLower
  have region : List.map Char.toUpper ∘ List.map Char.toLower = List.map Char.toUpper :=
    funext (map_case Char.toUpper_toLower_eq_toUpper)
  rw [usual, lower, usual, Option.map_map, Option.map_map, script, region,
    map_case Char.toLower_toLower_eq_toLower]

theorem usual_usual (t : Tag) : t.usual.usual = t.usual := by
  rw [← usual_lower t.usual, lower_usual, usual_lower]

theorem valid_lower_iff : t.lower.Valid ↔ t.Valid := by
  rw [valid_iff, valid_iff, lower]
  simp only [map_case Char.toLower_toLower_eq_toLower, Option.forall_mem_map, isScript_map_toLower,
    isRegion_map_toLower]

theorem valid_usual_iff : t.usual.Valid ↔ t.Valid := by
  rw [← valid_lower_iff, lower_usual, valid_lower_iff]

theorem chars_lower (t : Tag) : t.lower.chars = t.chars.map Char.toLower := by
  obtain ⟨language, script?, region?⟩ := t
  rw [chars, chars, Text.joinFields_cons, Text.joinFields_cons, List.map_append]
  cases script? <;> cases region? <;> simp [lower, subtags]

theorem chars_usual_lower (t : Tag) : t.usual.chars.map Char.toLower = t.chars.map Char.toLower := by
  rw [← chars_lower, lower_usual, chars_lower]

/-- The text of a locale joins its parts. -/
theorem toList_display_locale (t : Tag) : t.locale.display.toList = t.chars := by
  obtain ⟨language, script?, region?⟩ := t
  rw [chars, Text.joinFields_cons]
  cases script? <;> cases region? <;> simp [locale, display, subtags]

theorem Valid.mem_chars (valid : t.Valid) {c : Char} (mem : c ∈ t.chars) :
    c.isAlphanum = true ∨ c = '-' := by
  rw [chars, Text.joinFields_cons, List.mem_append, List.mem_flatMap] at mem
  rcases mem with language | ⟨part, inside, mem⟩
  · exact .inl (valid.isAlphanum _ List.mem_cons_self c language)
  · rcases List.mem_cons.mp mem with hyphen | mem
    · exact .inr hyphen
    · exact .inl (valid.isAlphanum part (List.mem_cons_of_mem _ inside) c mem)

/-- A tag has no blank ends and no underscores. -/
theorem Valid.hyphenated_chars (valid : t.Valid) {tag : String} (written : tag.toList = t.chars) :
    hyphenated tag = t.chars := by
  have visible : ∀ c ∈ t.chars, Text.isBlank c = false := by
    intro c mem
    rcases valid.mem_chars mem with alphanum | rfl
    · exact Text.not_isBlank_of_isAlphanum alphanum
    · decide
  have plain : ∀ c ∈ t.chars, c ≠ '_' := by
    rintro c mem rfl
    exact absurd (valid.mem_chars mem) (by decide)
  rw [hyphenated, written, Text.trim_eq_self_of_ends, map_hyphen plain]
  · exact fun c first => visible c (List.mem_of_mem_head? first)
  · exact fun c last => visible c (List.mem_of_mem_getLast? last)

end Tag

/-- A text is read exactly if it is a tag, apart from blank ends and underscores for hyphens. What is read
depends on its letters without their case, and is the locale that its own text is read as. That text is the
tag, apart from case. -/
theorem read_normalForm (tag : String) :
    ((∃ l, read tag = .ok l) ↔ ∃ t : Tag, t.Valid ∧ hyphenated tag = t.chars) ∧
      (∀ other, normal other = normal tag → ∀ l, read other = .ok l ↔ read tag = .ok l) ∧
      ∀ l, read tag = .ok l → read l.display = .ok l ∧ normal l.display = normal tag := by
  refine ⟨?_, fun other same l => ?_, fun l accepted => ?_⟩
  · constructor
    · rintro ⟨l, accepted⟩
      obtain ⟨t, valid, chars, -⟩ := read_eq_ok_iff.mp accepted
      exact ⟨t, valid, chars⟩
    · rintro ⟨t, valid, chars⟩
      exact ⟨t.usual.locale, read_eq_ok_iff.mpr ⟨t, valid, chars, rfl⟩⟩
  · rw [read_eq_ok_iff_normal, same, ← read_eq_ok_iff_normal]
  · obtain ⟨t, valid, chars, rfl⟩ := read_eq_ok_iff.mp accepted
    have again : hyphenated t.usual.locale.display = t.usual.chars :=
      (Tag.valid_usual_iff.mpr valid).hyphenated_chars (Tag.toList_display_locale t.usual)
    refine ⟨read_eq_ok_iff.mpr ⟨t.usual, Tag.valid_usual_iff.mpr valid, again, ?_⟩, ?_⟩
    · rw [Tag.usual_usual]
    · rw [normal, normal, again, chars, Tag.chars_usual_lower]

theorem read_normalForm_script :
    let l : Locale := ⟨"zh", some "Hant", some "TW"⟩
    read " ZH_hANT-tw " = .ok l ∧ normal "zh-Hant_TW" = normal " ZH_hANT-tw " ∧
      read "zh-Hant_TW" = .ok l ∧ read l.display = .ok l := by
  intro l
  have accepted : read " ZH_hANT-tw " = .ok l := by cbv
  have same : normal "zh-Hant_TW" = normal " ZH_hANT-tw " := by cbv
  obtain ⟨-, alike, again⟩ := read_normalForm " ZH_hANT-tw "
  exact ⟨accepted, same, (alike _ same l).mpr accepted, (again l accepted).1⟩

/-- The script comes before the region. -/
example : read "zh-TW-Hant" = .error (.badSubtag "Hant") := by cbv

end LayeredConfig.Locale
