import LayeredConfig.Text.CaseTable

/-!
# Lower case

Full lower-casing of a text. Each character goes to its lower-case form, with two exceptions: the
capital I with a dot becomes two characters, and a capital sigma takes its final form at the end of a
word. On texts in ASCII this is the lower-casing of the core library (`toList_lower_of_ascii`).
-/

namespace LayeredConfig.Text

/-- The lower-case form of a character that has a single one. -/
def lowerChar (c : Char) : Char :=
  if c.toNat < 0x80 then c.toLower
  else match lowerRanges.find? (·.contains c.toNat) with
    | some r => Char.ofNat (c.toNat + r.offset).toNat
    | none => c

theorem lowerChar_of_ascii {c : Char} (h : c.toNat < 0x80) : lowerChar c = c.toLower := by
  rw [lowerChar, if_pos h]

/-- Does the nearest character that case rules do not ignore have a case? -/
def meetsCased (cs : List Char) : Bool :=
  match cs.dropWhile (fun c => inToggles caseIgnorableToggles c.toNat) with
  | [] => false
  | c :: _ => inToggles casedToggles c.toNat

/-- The lower-case form of a capital sigma between two texts, the first of them in reverse. It is final
if a letter comes before it and none after it. -/
def lowerSigma (before after : List Char) : Char :=
  if meetsCased before && !meetsCased after then 'ς' else 'σ'

/-- Lowers the rest of a text, with the text before it in reverse. -/
def lowerFrom (before : List Char) : List Char → List Char
  | [] => []
  | c :: rest =>
    let lowered :=
      if c = 'Σ' then [lowerSigma before rest]
      else if c = 'İ' then ['i', '\u0307']
      else [lowerChar c]
    lowered ++ lowerFrom (c :: before) rest

/-- The text in lower case. -/
def lower (s : String) : String :=
  String.ofList (lowerFrom [] s.toList)

theorem lowerFrom_of_ascii {cs : List Char} (ascii : ∀ c ∈ cs, c.toNat < 0x80) (before : List Char) :
    lowerFrom before cs = cs.map Char.toLower := by
  induction cs generalizing before with
  | nil => rfl
  | cons c rest ih =>
    obtain ⟨here, later⟩ := List.forall_mem_cons.mp ascii
    have sigma : c ≠ 'Σ' := by rintro rfl; exact absurd here (by decide)
    have dotted : c ≠ 'İ' := by rintro rfl; exact absurd here (by decide)
    rw [lowerFrom, if_neg sigma, if_neg dotted, lowerChar_of_ascii here, ih later]
    rfl

/-- A text in ASCII is lowered letter by letter. -/
theorem toList_lower_of_ascii {s : String} (ascii : ∀ c ∈ s.toList, c.toNat < 0x80) :
    (lower s).toList = s.toList.map Char.toLower := by
  rw [lower, String.toList_ofList, lowerFrom_of_ascii ascii]

end LayeredConfig.Text
