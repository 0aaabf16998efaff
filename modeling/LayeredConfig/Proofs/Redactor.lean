import LayeredConfig.Redactor
import LayeredConfig.Proofs.Text.Letters
import Mathlib

/-!
# Secret names in every spelling

The words of a segment can be written together in many ways: `dbPassword`, `DbPassword`, `db-password`,
`DB_PASSWORD`, `aws_SecretKey`. A `Spelling` is a choice of words and of one way to write them.

A segment with a secret word is secret in every spelling. If no part is in capitals, nothing but its words, its
parts and the whole can make it secret, so no part of a word is taken for a word (`isSecretName_spelling`). A
part in capitals does not show where a word begins, and each of its letters is taken for one.
-/

namespace LayeredConfig.Redactor

/-! ## Spellings -/

/-- A word: at least one letter, all of them small. -/
structure Word where
  letters : List Char
  someLetter : letters ≠ []
  small : ∀ c ∈ letters, c.isLower = true

/-- The word with a capital in front. -/
def Word.capitalized (w : Word) : List Char :=
  w.letters.modifyHead Char.toUpper

/-- Words that are written together. There may be none, since separators can stand side by side.

* `camel`: every word but the first has a capital.
* `pascal`: every word has a capital.
* `upper`: one word, in capitals. -/
inductive Part where
  | camel (words : List Word)
  | pascal (words : List Word)
  | upper (word : Word)

namespace Part

def words : Part → List Word
  | .camel words | .pascal words => words
  | .upper word => [word]

def chars : Part → List Char
  | .camel [] => []
  | .camel (first :: more) => first.letters ++ more.flatMap Word.capitalized
  | .pascal words => words.flatMap Word.capitalized
  | .upper word => word.letters.map Char.toUpper

/-- Do capitals show where the words begin? -/
def IsMixedCase : Part → Prop
  | .camel _ | .pascal _ => True
  | .upper _ => False

end Part

/-- What stands between two parts. -/
inductive Separator where
  | hyphen
  | underscore

def Separator.char : Separator → Char
  | .hyphen => '-'
  | .underscore => '_'

/-- The parts of a segment, with the separators between them. -/
structure Spelling where
  first : Part
  more : List (Separator × Part)

namespace Spelling

def parts (s : Spelling) : List Part :=
  s.first :: s.more.map (·.2)

def words (s : Spelling) : List Word :=
  s.parts.flatMap Part.words

def chars (s : Spelling) : List Char :=
  s.first.chars ++ s.more.flatMap fun part => part.1.char :: part.2.chars

def text (s : Spelling) : String :=
  String.ofList s.chars

end Spelling

/-- Is the text one of the names, whatever the case of the letters? -/
def Named (names : List String) (cs : List Char) : Prop :=
  ∃ name ∈ names, name.toList.map Char.toLower = cs.map Char.toLower

instance (names : List String) (cs : List Char) : Decidable (Named names cs) :=
  inferInstanceAs (Decidable (∃ name ∈ names, _))

theorem Named.congr {names : List String} {cs ds : List Char}
    (same : cs.map Char.toLower = ds.map Char.toLower) : Named names cs ↔ Named names ds := by
  rw [Named, Named, same]

/-! ## The letters of a spelling -/

namespace Word

theorem exists_cons (w : Word) : ∃ c rest, w.letters = c :: rest ∧ c.isLower = true ∧
    ∀ d ∈ rest, d.isLower = true := by
  obtain ⟨c, rest, shape⟩ := List.exists_cons_of_ne_nil w.someLetter
  exact ⟨c, rest, shape, List.forall_mem_cons.mp (shape ▸ w.small)⟩

theorem capitalized_lower (w : Word) :
    w.capitalized.map Char.toLower = w.letters.map Char.toLower := by
  obtain ⟨c, rest, shape, -⟩ := w.exists_cons
  rw [capitalized, shape, List.modifyHead_cons, List.map_cons, List.map_cons,
    Char.toLower_toUpper_eq_toLower]

theorem capitalized_ne_nil (w : Word) : w.capitalized ≠ [] := by
  rw [capitalized, ne_eq, List.modifyHead_eq_nil_iff]
  exact w.someLetter

theorem isAlpha_of_mem_capitalized {w : Word} {c : Char} (mem : c ∈ w.capitalized) :
    c.isAlpha = true := by
  obtain ⟨d, rest, shape, here, later⟩ := w.exists_cons
  rw [capitalized, shape, List.modifyHead_cons, List.mem_cons] at mem
  rcases mem with rfl | mem
  · rw [Char.isAlpha_toUpper_eq_isAlpha, Text.isAlpha_of_isLower here]
  · exact Text.isAlpha_of_isLower (later c mem)

end Word

namespace Part

theorem isAlpha_of_mem {p : Part} {c : Char} (mem : c ∈ p.chars) : c.isAlpha = true := by
  have spread : ∀ {words : List Word}, c ∈ words.flatMap Word.capitalized → c.isAlpha = true := by
    intro words mem
    obtain ⟨w, -, mem⟩ := List.mem_flatMap.mp mem
    exact Word.isAlpha_of_mem_capitalized mem
  match p with
  | .camel [] => cases mem
  | .camel (first :: more) =>
    rcases List.mem_append.mp mem with mem | mem
    · exact Text.isAlpha_of_isLower (first.small c mem)
    · exact spread mem
  | .pascal words => exact spread mem
  | .upper word =>
    obtain ⟨d, small, rfl⟩ := List.mem_map.mp mem
    rw [Char.isAlpha_toUpper_eq_isAlpha, Text.isAlpha_of_isLower (word.small d small)]

theorem ascii (p : Part) : ∀ c ∈ p.chars, c.toNat < 0x80 :=
  fun _ mem => Text.toNat_lt_of_isAlpha (isAlpha_of_mem mem)

/-- A part has no separators. -/
theorem free (p : Part) : ∀ c ∈ p.chars, (c == '-' || c == '_') = false := by
  intro c mem
  have letter := isAlpha_of_mem mem
  rw [Bool.or_eq_false_iff, beq_eq_false_iff_ne, beq_eq_false_iff_ne]
  constructor <;> (rintro rfl; exact absurd letter (by decide))

theorem chars_ne_nil {p : Part} {w : Word} (mem : w ∈ p.words) : p.chars ≠ [] := by
  match p with
  | .camel (first :: more) => exact List.append_ne_nil_of_left_ne_nil first.someLetter _
  | .pascal words =>
    obtain ⟨c, here⟩ := List.exists_mem_of_ne_nil _ w.capitalized_ne_nil
    exact List.ne_nil_of_mem (List.mem_flatMap.mpr ⟨w, mem, here⟩)
  | .upper word => exact fun empty => word.someLetter (List.map_eq_nil_iff.mp empty)

end Part

namespace Spelling

theorem ascii (s : Spelling) : ∀ c ∈ s.chars, c.toNat < 0x80 := by
  intro c mem
  rcases List.mem_append.mp mem with mem | mem
  · exact s.first.ascii c mem
  · obtain ⟨⟨separator, part⟩, -, mem⟩ := List.mem_flatMap.mp mem
    rcases List.mem_cons.mp mem with rfl | mem
    · cases separator with
      | hyphen => exact (by decide : '-'.toNat < 0x80)
      | underscore => exact (by decide : '_'.toNat < 0x80)
    · exact part.ascii c mem

/-- The parts are found, whatever stands between them. -/
theorem fieldsBy_chars (s : Spelling) :
    Text.fieldsBy (fun c => c == '-' || c == '_') s.chars = s.parts.map Part.chars := by
  have separated : ∀ part ∈ s.more.map fun part => (part.1.char, part.2.chars),
      (part.1 == '-' || part.1 == '_') = true ∧ ∀ c ∈ part.2, (c == '-' || c == '_') = false := by
    intro part mem
    obtain ⟨⟨separator, part⟩, -, rfl⟩ := List.mem_map.mp mem
    exact ⟨by cases separator <;> rfl, part.free⟩
  have written := Text.fieldsBy_written s.first.free separated
  rw [List.flatMap_map, List.map_map] at written
  rw [chars, written, parts, List.map_cons, List.map_map]
  rfl

end Spelling

/-! ## The words that are found -/

theorem word_of_ne_nil {cs : List Char} (someChar : cs ≠ []) : word cs = [cs] := by
  rw [word, List.isEmpty_eq_false_iff.mpr someChar]
  rfl

theorem wordsFrom_small {cs : List Char} (small : ∀ c ∈ cs, c.isLower = true) (current rest : List Char) :
    wordsFrom current (cs ++ rest) = wordsFrom (current ++ cs) rest := by
  induction cs generalizing current with
  | nil => rw [List.nil_append, List.append_nil]
  | cons c cs ih =>
    obtain ⟨here, later⟩ := List.forall_mem_cons.mp small
    rw [List.cons_append, wordsFrom, if_pos here, ih later, List.append_assoc, List.singleton_append]

/-- A capital ends the word before it. -/
theorem wordsFrom_capitalized (w : Word) (current rest : List Char) :
    wordsFrom current (w.capitalized ++ rest) = word current ++ wordsFrom w.capitalized rest := by
  obtain ⟨c, letters, shape, here, later⟩ := w.exists_cons
  have capital : c.toUpper.isUpper = true := by
    rw [Char.isUpper_toUpper_eq_isAlpha, Text.isAlpha_of_isLower here]
  rw [Word.capitalized, shape, List.modifyHead_cons, List.cons_append, wordsFrom,
    if_neg (Char.not_isLower_of_isUpper capital), if_pos capital, wordsFrom_small later]
  rfl

theorem eq_of_mem_word {current found : List Char} (mem : found ∈ word current) : found = current := by
  unfold word at mem
  split at mem
  · cases mem
  · exact List.mem_singleton.mp mem

/-- What is found is made of characters of the text. -/
theorem mem_of_mem_wordsFrom {current cs found : List Char} (mem : found ∈ wordsFrom current cs)
    {c : Char} (here : c ∈ found) : c ∈ current ∨ c ∈ cs := by
  induction cs generalizing current with
  | nil => exact .inl (eq_of_mem_word mem ▸ here)
  | cons d rest ih =>
    have wordOr : ∀ {next : List Char}, (∀ c ∈ next, c = d) →
        found ∈ word current ++ wordsFrom next rest → c ∈ current ∨ c ∈ d :: rest := by
      intro next only mem
      rcases List.mem_append.mp mem with mem | mem
      · exact .inl (eq_of_mem_word mem ▸ here)
      · refine .inr (List.mem_cons.mpr ?_)
        exact (ih mem).imp_left (only c)
    rw [wordsFrom] at mem
    split at mem
    · rcases ih mem with before | later
      · rw [List.mem_append, List.mem_singleton] at before
        exact before.imp_right fun same => List.mem_cons.mpr (.inl same)
      · exact .inr (List.mem_cons_of_mem d later)
    · split at mem
      · exact wordOr (fun c => List.mem_singleton.mp) mem
      · exact wordOr (fun c here => absurd here List.not_mem_nil) mem

theorem wordsFrom_flatMap (words : List Word) (current : List Char) :
    wordsFrom current (words.flatMap Word.capitalized) = word current ++ words.map Word.capitalized := by
  -- Each capital hands over the word before it and begins the next one.
  induction words generalizing current with
  | nil => rw [List.flatMap_nil, wordsFrom, List.map_nil, List.append_nil]
  | cons w words ih =>
    rw [List.flatMap_cons, wordsFrom_capitalized, ih, word_of_ne_nil w.capitalized_ne_nil, List.map_cons,
      List.singleton_append]

/-- In a part in mixed case the words of the part are found, and no others. -/
theorem Part.wordsFrom_chars {p : Part} (mixed : p.IsMixedCase) :
    (wordsFrom [] p.chars).map (List.map Char.toLower) =
      p.words.map fun w => w.letters.map Char.toLower := by
  have lowered : ∀ words : List Word, (words.map Word.capitalized).map (List.map Char.toLower) =
      words.map fun w => w.letters.map Char.toLower := by
    intro words
    rw [List.map_map]
    exact List.map_congr_left fun w _ => w.capitalized_lower
  match p, mixed with
  | .camel [], _ => rfl
  | .camel (first :: more), _ =>
    rw [chars, wordsFrom_small first.small, List.nil_append, wordsFrom_flatMap,
      word_of_ne_nil first.someLetter, List.map_append, lowered]
    rfl
  | .pascal words, _ =>
    rw [chars, wordsFrom_flatMap, List.map_append, lowered]
    rfl

/-! ## What makes a segment secret -/

section Secret

variable {names : List String} {replacement : String} {cs : List Char}

/-- For names of ASCII letters the case rules of other letters do not matter. -/
theorem holds_iff (letters : ∀ name ∈ names, ∀ c ∈ name.toList, c.isAlpha = true)
    (ascii : ∀ c ∈ cs, c.toNat < 0x80) :
    (ofNames names replacement).holds cs = true ↔ Named names cs := by
  have lowered : (Text.lower (String.ofList cs)).toList = cs.map Char.toLower := by
    rw [Text.toList_lower_of_ascii (by rwa [String.toList_ofList]), String.toList_ofList]
  have same : ∀ name ∈ names, Text.lower name = Text.lower (String.ofList cs) ↔
      name.toList.map Char.toLower = cs.map Char.toLower := by
    intro name mem
    rw [← String.toList_inj, lowered,
      Text.toList_lower_of_ascii fun c here => Text.toNat_lt_of_isAlpha (letters name mem c here)]
  rw [holds, ofNames, List.contains_iff_mem, List.mem_map, Named]
  exact exists_congr fun name => and_congr_right fun mem => same name mem

/-- A segment is secret if the whole, a part or a word that is found in a part is a name. -/
theorem isSecretName_iff (letters : ∀ name ∈ names, ∀ c ∈ name.toList, c.isAlpha = true)
    (s : Spelling) : (ofNames names replacement).isSecretName s.text = true ↔
      Named names s.chars ∨ ∃ p ∈ s.parts, p.chars ≠ [] ∧
        (Named names p.chars ∨ ∃ found ∈ wordsFrom [] p.chars, Named names found) := by
  have partIff : ∀ p : Part, (ofNames names replacement).holds p.chars = true ↔ Named names p.chars :=
    fun p => holds_iff letters p.ascii
  have wordIff : ∀ p : Part, ∀ found ∈ wordsFrom [] p.chars,
      (ofNames names replacement).holds found = true ↔ Named names found := by
    intro p found mem
    refine holds_iff letters fun c here => p.ascii c ?_
    exact (mem_of_mem_wordsFrom mem here).resolve_left List.not_mem_nil
  rw [isSecretName, Spelling.text, String.toList_ofList, s.fieldsBy_chars, Bool.or_eq_true,
    holds_iff letters s.ascii, List.any_filter, List.any_map, List.any_eq_true]
  refine or_congr_right (exists_congr fun p => and_congr_right fun _ => ?_)
  rw [Function.comp_apply, Bool.and_eq_true, Bool.or_eq_true, partIff, List.any_eq_true]
  refine and_congr (by simp) (or_congr_right ?_)
  exact exists_congr fun found => and_congr_right (wordIff p found)

/-- In mixed case a word that is found is a name exactly if a word of the part is. -/
theorem Part.exists_found_iff {p : Part} (mixed : p.IsMixedCase) :
    (∃ found ∈ wordsFrom [] p.chars, Named names found) ↔ ∃ w ∈ p.words, Named names w.letters := by
  have same := Part.wordsFrom_chars mixed
  constructor
  · rintro ⟨found, mem, named⟩
    have lowered := List.mem_map_of_mem (f := List.map Char.toLower) mem
    rw [same] at lowered
    obtain ⟨w, mem, same⟩ := List.mem_map.mp lowered
    exact ⟨w, mem, (Named.congr same).mpr named⟩
  · rintro ⟨w, mem, named⟩
    have lowered := List.mem_map_of_mem (f := fun w : Word => w.letters.map Char.toLower) mem
    rw [← same] at lowered
    obtain ⟨found, mem, same⟩ := List.mem_map.mp lowered
    exact ⟨found, mem, (Named.congr same).mpr named⟩

/-- A part with a secret word is a name itself or has a word that is found and is a name. -/
theorem Part.named_of_word {p : Part} {w : Word} (mem : w ∈ p.words) (named : Named names w.letters) :
    Named names p.chars ∨ ∃ found ∈ wordsFrom [] p.chars, Named names found := by
  match p with
  | .camel words => exact .inr ((Part.exists_found_iff (p := .camel words) trivial).mpr ⟨w, mem, named⟩)
  | .pascal words => exact .inr ((Part.exists_found_iff (p := .pascal words) trivial).mpr ⟨w, mem, named⟩)
  | .upper word =>
    obtain rfl := List.mem_singleton.mp mem
    refine .inl ((Named.congr ?_).mp named)
    rw [chars, List.map_map]
    exact List.map_congr_left fun c _ => (Char.toLower_toUpper_eq_toLower c).symm

/-- A segment is secret in every spelling if one of its words is a name. Without parts in capitals it is
secret only then, or if a part or the whole is a name. -/
theorem isSecretName_spelling (letters : ∀ name ∈ names, ∀ c ∈ name.toList, c.isAlpha = true)
    (replacement : String) (s : Spelling) :
    ((∃ w ∈ s.words, Named names w.letters) →
        (ofNames names replacement).isSecretName s.text = true) ∧
      ((∀ p ∈ s.parts, p.IsMixedCase) →
        ((ofNames names replacement).isSecretName s.text = true ↔
          (∃ w ∈ s.words, Named names w.letters) ∨
            (∃ p ∈ s.parts, p.chars ≠ [] ∧ Named names p.chars) ∨ Named names s.chars)) := by
  have ofWord : (∃ w ∈ s.words, Named names w.letters) →
      (ofNames names replacement).isSecretName s.text = true := by
    rintro ⟨w, mem, named⟩
    obtain ⟨p, inside, mem⟩ := List.mem_flatMap.mp mem
    exact (isSecretName_iff letters s).mpr
      (.inr ⟨p, inside, Part.chars_ne_nil mem, Part.named_of_word mem named⟩)
  refine ⟨ofWord, fun mixed => ⟨fun secret => ?_, ?_⟩⟩
  · rcases (isSecretName_iff letters s).mp secret with whole | ⟨p, inside, someChar, part | found⟩
    · exact .inr (.inr whole)
    · exact .inr (.inl ⟨p, inside, someChar, part⟩)
    · obtain ⟨w, mem, named⟩ := (Part.exists_found_iff (mixed p inside)).mp found
      exact .inl ⟨w, List.mem_flatMap.mpr ⟨p, inside, mem⟩, named⟩
  · rintro (word | ⟨p, inside, someChar, part⟩ | whole)
    · exact ofWord word
    · exact (isSecretName_iff letters s).mpr (.inr ⟨p, inside, someChar, .inl part⟩)
    · exact (isSecretName_iff letters s).mpr (.inl whole)

/-- A capital ends the word before it, so `token` is found in the middle of a part. A longer word that begins or
ends with a name is not one. -/
theorem isSecretName_spelling_token :
    let token : Word := ⟨['t', 'o', 'k', 'e', 'n'], by decide, List.all_eq_true.mp (by decide)⟩
    let monkey : Word := ⟨['m', 'o', 'n', 'k', 'e', 'y'], by decide, List.all_eq_true.mp (by decide)⟩
    let tokenizer : Word :=
      ⟨['t', 'o', 'k', 'e', 'n', 'i', 'z', 'e', 'r'], by decide, List.all_eq_true.mp (by decide)⟩
    let x : Word := ⟨['x'], by decide, List.all_eq_true.mp (by decide)⟩
    let secret : Spelling := ⟨.upper monkey, [(.hyphen, .camel [x, token, x])]⟩
    let plain : Spelling := ⟨.camel [monkey, x], [(.underscore, .pascal [tokenizer])]⟩
    (∀ name ∈ defaultNames, ∀ c ∈ name.toList, c.isAlpha = true) ∧
      (∃ w ∈ secret.words, Named defaultNames w.letters) ∧ (∀ p ∈ plain.parts, p.IsMixedCase) ∧
      standard.isSecretName "MONKEY-xTokenX" = true ∧
      standard.isSecretName "monkeyX_Tokenizer" = false := by
  intro token monkey tokenizer x secret plain
  have letters : ∀ name ∈ defaultNames, ∀ c ∈ name.toList, c.isAlpha = true := by
    have all : defaultNames.all (fun name => name.toList.all Char.isAlpha) = true := by decide
    exact fun name mem => List.all_eq_true.mp (List.all_eq_true.mp all name mem)
  have named : ∃ w ∈ secret.words, Named defaultNames w.letters :=
    ⟨token, by simp [secret, Spelling.words, Spelling.parts, Part.words], by decide⟩
  have mixed : ∀ p ∈ plain.parts, p.IsMixedCase := by
    simp [plain, Spelling.parts, Part.IsMixedCase]
  refine ⟨letters, named, mixed, (isSecretName_spelling letters defaultReplacement secret).1 named, ?_⟩
  rw [← Bool.not_eq_true]
  refine mt ((isSecretName_spelling letters defaultReplacement plain).2 mixed).mp ?_
  decide

/-- Each letter of a part in capitals counts as a word, so there the converse fails. -/
example : (ofNames ["a"] defaultReplacement).isSecretName "DATA" = true := by cbv

end Secret

end LayeredConfig.Redactor
