import LayeredConfig.Proofs.Computation
import LayeredConfig.Proofs.Number.Roundoff
import LayeredConfig.Proofs.Reading.DurationForms
import Mathlib.Algebra.Order.BigOperators.Group.List

/-!
# The values of durations

The number of a text is the exact sum of its amounts in nanoseconds (`total`). While no amount, product or
partial sum is beyond the limits of decimals, this number is read, cut to whole nanoseconds
(`parse_eq_ok_iff_floor`). Beyond the limits each operation rounds, and the error is bounded from the amounts
(`near_scaled`) over their sum (`near_foldlM`) to the result (`close_of_duration?`).
-/

namespace LayeredConfig.Duration

open Number

/-! ## Exact numbers -/

/-- The nanoseconds of a part. -/
def nanosecondsOf (part : Part) : ℚ :=
  part.1.value * part.2.nanoseconds

/-- The nanoseconds of all parts. -/
def total (parts : List Part) : ℚ :=
  (parts.map nanosecondsOf).sum

/-- Every amount, product and partial sum is a number that a decimal can hold. -/
structure Representable (parts : List Part) : Prop where
  amounts : ∀ part ∈ parts, Decimal.Fits part.1.value
  products : ∀ part ∈ parts, Decimal.Fits (nanosecondsOf part)
  sums : ∀ front, front <+: parts → Decimal.Fits (total front)

variable {parts : List Part}

theorem nanosecondsOf_nonneg (part : Part) : 0 ≤ nanosecondsOf part :=
  mul_nonneg part.1.value_nonneg (Nat.cast_nonneg _)

theorem total_nonneg (parts : List Part) : 0 ≤ total parts := by
  refine List.sum_nonneg fun q mem => ?_
  obtain ⟨part, -, rfl⟩ := List.mem_map.mp mem
  exact nanosecondsOf_nonneg part

theorem total_single (part : Part) : total [part] = nanosecondsOf part := by
  rw [total, List.map_singleton, List.sum_singleton]

theorem representable_single {part : Part} (amount : Decimal.Fits part.1.value)
    (product : Decimal.Fits (nanosecondsOf part)) : Representable [part] where
  amounts := List.forall_mem_singleton.mpr amount
  products := List.forall_mem_singleton.mpr product
  sums := by
    intro front isPrefix
    rcases List.prefix_cons_iff.mp isPrefix with rfl | ⟨rest, rfl, nothing⟩
    · exact Decimal.fits_natCast (by decide : 0 < 2 ^ 96)
    · rw [List.prefix_nil.mp nothing, total_single]
      exact product

theorem exists_scaled {part : Part} (amount : Decimal.Fits part.1.value)
    (product : Decimal.Fits (nanosecondsOf part)) :
    ∃ d, scaled part.1.chars part.2.nanoseconds = some d ∧ d.magnitude = nanosecondsOf part := by
  obtain ⟨a, read, value⟩ := Amount.exists_readPlain amount
  unfold nanosecondsOf at product ⊢
  rw [← value] at product ⊢
  obtain ⟨d, multiplied, same⟩ := (Decimal.computes_mulNat a _).exists_of_fits product
  exact ⟨d, by rw [scaled, read]; exact multiplied, same⟩

theorem exists_mapM_scaled (amounts : ∀ part ∈ parts, Decimal.Fits part.1.value)
    (products : ∀ part ∈ parts, Decimal.Fits (nanosecondsOf part)) :
    ∃ ds, parts.mapM (fun part => scaled part.1.chars part.2.nanoseconds) = some ds ∧
      ds.map Decimal.magnitude = parts.map nanosecondsOf := by
  induction parts with
  | nil => exact ⟨[], rfl, rfl⟩
  | cons part parts ih =>
    obtain ⟨amount, amounts⟩ := List.forall_mem_cons.mp amounts
    obtain ⟨product, products⟩ := List.forall_mem_cons.mp products
    obtain ⟨d, first, value⟩ := exists_scaled amount product
    obtain ⟨ds, rest, values⟩ := ih amounts products
    refine ⟨d :: ds, ?_, by rw [List.map_cons, List.map_cons, value, values]⟩
    rw [List.mapM_cons, first, rest]
    rfl

/-- A sum is exact if its partial sums are numbers that a decimal can hold. -/
theorem exists_foldlM_addMagnitudes {ds : List Decimal} {d : Decimal}
    (sums : ∀ front, front <+: ds → Decimal.Fits (d.magnitude + (front.map Decimal.magnitude).sum)) :
    ∃ s, ds.foldlM Decimal.addMagnitudes d = some s ∧
      s.magnitude = d.magnitude + (ds.map Decimal.magnitude).sum := by
  induction ds generalizing d with
  | nil => exact ⟨d, rfl, by rw [List.map_nil, List.sum_nil, add_zero]⟩
  | cons e ds ih =>
    have first := sums [e] (List.prefix_cons_inj e |>.mpr List.nil_prefix)
    rw [List.map_singleton, List.sum_singleton] at first
    obtain ⟨d', added, value⟩ := (Decimal.computes_addMagnitudes d e).exists_of_fits first
    have later : ∀ front, front <+: ds →
        Decimal.Fits (d'.magnitude + (front.map Decimal.magnitude).sum) := by
      intro front isPrefix
      have longer := sums (e :: front) ((List.prefix_cons_inj e).mpr isPrefix)
      rwa [List.map_cons, List.sum_cons, ← add_assoc, ← value] at longer
    obtain ⟨s, folded, same⟩ := ih later
    refine ⟨s, ?_, ?_⟩
    · rw [List.foldlM_cons, added]
      exact folded
    · rw [same, value, List.map_cons, List.sum_cons, add_assoc]

/-- The duration of parts within the limits of decimals is their sum, cut to whole nanoseconds. -/
theorem duration?_of_representable (within : Representable parts) :
    ∃ s : Decimal, duration? parts = ofNanoseconds? s ∧ s.magnitude = total parts := by
  obtain ⟨ds, products, values⟩ := exists_mapM_scaled within.amounts within.products
  have sums : ∀ front, front <+: ds →
      Decimal.Fits (Decimal.zero.magnitude + (front.map Decimal.magnitude).sum) := by
    intro front isPrefix
    have mapped : front.map Decimal.magnitude <+: parts.map nanosecondsOf := values ▸ isPrefix.map _
    obtain ⟨front', isPrefix', same⟩ := List.prefix_map_iff.mp mapped
    rw [Decimal.magnitude_zero, zero_add, same]
    exact within.sums front' isPrefix'
  obtain ⟨s, folded, same⟩ := exists_foldlM_addMagnitudes sums
  refine ⟨s, ?_, ?_⟩
  · unfold duration?
    rw [products, Option.bind_eq_bind, Option.bind_some, folded]
    rfl
  · rw [same, Decimal.magnitude_zero, zero_add, values]
    rfl

/-! ## Rounded numbers -/

section Rounded

variable {d s : Decimal} {ds : List Decimal}

/-- What the places of an amount beyond the last one may make in nanoseconds. -/
def slack : ℚ := 1 / 10 ^ 13

theorem nanoseconds_le (unit : TimeUnit) : (unit.nanoseconds : ℚ) ≤ 86400 * 10 ^ 9 := by
  have le : unit.nanoseconds ≤ 86400 * 10 ^ 9 := by cases unit <;> decide
  exact_mod_cast le

/-- What an amount loses behind its last place is little in every unit. -/
theorem lost_le_slack (unit : TimeUnit) {factor : ℚ} (le : factor ≤ 2) :
    1 / 10 ^ maxScale * (unit.nanoseconds * factor) ≤ slack := by
  have units := nanoseconds_le unit
  have nonneg : (0 : ℚ) ≤ unit.nanoseconds := Nat.cast_nonneg _
  have scaled : (unit.nanoseconds : ℚ) * factor ≤ unit.nanoseconds * 2 := mul_le_mul_of_nonneg_left le nonneg
  unfold slack maxScale
  linarith

/-- The reading of an amount and its product with the unit round once each. -/
theorem near_scaled {part : Part} (made : scaled part.1.chars part.2.nanoseconds = some d) :
    nanosecondsOf part * (1 - roundoff) ^ 2 - slack ≤ d.magnitude ∧
      d.magnitude ≤ nanosecondsOf part * (1 + roundoff) ^ 2 + slack := by
  unfold scaled at made
  split at made
  · next m read =>
    obtain ⟨amountLow, amountHigh⟩ := Amount.near_readPlain read
    obtain ⟨low, high⟩ := (Decimal.computes_mulNat m _).near made
    have nonneg : (0 : ℚ) ≤ part.2.nanoseconds := Nat.cast_nonneg _
    constructor
    · have lost := lost_le_slack part.2 (by linarith [roundoff_pos] : 1 - roundoff ≤ 2)
      calc
        nanosecondsOf part * (1 - roundoff) ^ 2 - slack
            ≤ (part.1.value * (1 - roundoff) - 1 / 10 ^ maxScale) *
                (part.2.nanoseconds * (1 - roundoff)) := by
          unfold nanosecondsOf
          linarith
        _ ≤ m.magnitude * (part.2.nanoseconds * (1 - roundoff)) :=
          mul_le_mul_of_nonneg_right amountLow (mul_nonneg nonneg (sub_nonneg.mpr roundoff_le_one))
        _ ≤ d.magnitude := by rwa [← mul_assoc]
    · have lost := lost_le_slack part.2 (by linarith [roundoff_le_one] : 1 + roundoff ≤ 2)
      calc
        d.magnitude ≤ m.magnitude * (part.2.nanoseconds * (1 + roundoff)) := by rwa [← mul_assoc]
        _ ≤ (part.1.value * (1 + roundoff) + 1 / 10 ^ maxScale) *
                (part.2.nanoseconds * (1 + roundoff)) :=
          mul_le_mul_of_nonneg_right amountHigh (mul_nonneg nonneg (by linarith [roundoff_pos]))
        _ ≤ nanosecondsOf part * (1 + roundoff) ^ 2 + slack := by
          unfold nanosecondsOf
          linarith
  · cases made

theorem near_mapM_scaled
    (made : parts.mapM (fun part => scaled part.1.chars part.2.nanoseconds) = some ds) :
    ds.length = parts.length ∧
      total parts * (1 - roundoff) ^ 2 - parts.length * slack ≤ (ds.map Decimal.magnitude).sum ∧
      (ds.map Decimal.magnitude).sum ≤ total parts * (1 + roundoff) ^ 2 + parts.length * slack := by
  induction parts generalizing ds with
  | nil =>
    cases made
    simp [total]
  | cons part parts ih =>
    rw [List.mapM_cons] at made
    obtain ⟨d, first, made⟩ := Option.bind_eq_some_iff.mp made
    obtain ⟨ds, rest, made⟩ := Option.bind_eq_some_iff.mp made
    obtain rfl := Option.some.inj made
    obtain ⟨low, high⟩ := near_scaled first
    obtain ⟨length, lows, highs⟩ := ih rest
    have sum : total (part :: parts) = nanosecondsOf part + total parts := by
      rw [total, List.map_cons, List.sum_cons, total]
    rw [sum, List.map_cons, List.sum_cons, List.length_cons, List.length_cons, Nat.cast_add, Nat.cast_one]
    refine ⟨by rw [length], ?_, ?_⟩ <;> linarith

theorem sum_magnitude_nonneg (ds : List Decimal) : 0 ≤ (ds.map Decimal.magnitude).sum := by
  refine List.sum_nonneg fun q mem => ?_
  obtain ⟨d, -, rfl⟩ := List.mem_map.mp mem
  exact d.magnitude_nonneg

/-- Each addition rounds once, also what was rounded before. -/
theorem near_foldlM (folded : ds.foldlM Decimal.addMagnitudes d = some s) :
    (d.magnitude + (ds.map Decimal.magnitude).sum) * (1 - roundoff) ^ ds.length ≤ s.magnitude ∧
      s.magnitude ≤ (d.magnitude + (ds.map Decimal.magnitude).sum) * (1 + roundoff) ^ ds.length := by
  induction ds generalizing d with
  | nil =>
    cases folded
    simp
  | cons e ds ih =>
    rw [List.foldlM_cons] at folded
    obtain ⟨d', added, folded⟩ := Option.bind_eq_some_iff.mp folded
    obtain ⟨low, high⟩ := (Decimal.computes_addMagnitudes d e).near added
    obtain ⟨lows, highs⟩ := ih folded
    obtain ⟨restLow, restHigh⟩ := Near.refl (sum_magnitude_nonneg ds)
    rw [List.map_cons, List.sum_cons, List.length_cons, ← add_assoc, pow_succ', ← mul_assoc, pow_succ',
      ← mul_assoc]
    constructor
    · refine le_trans (mul_le_mul_of_nonneg_right ?_ (pow_nonneg (sub_nonneg.mpr roundoff_le_one) _)) lows
      rw [add_mul]
      exact add_le_add low restLow
    · refine highs.trans (mul_le_mul_of_nonneg_right ?_ (pow_nonneg (by linarith [roundoff_pos]) _))
      rw [add_mul]
      exact add_le_add high restHigh

/-! ## The result -/

/-- How far rounding may take the nanoseconds of a text from their number. -/
def tolerance : ℚ := 1 / 10 ^ 6

theorem low_pow {k : Nat} (few : k ≤ 4) : 1 - 4 * roundoff ≤ (1 - roundoff) ^ k :=
  calc
    1 - 4 * roundoff ≤ (1 - roundoff) ^ 4 := by
      unfold roundoff
      norm_num
    _ ≤ (1 - roundoff) ^ k :=
      pow_le_pow_of_le_one (sub_nonneg.mpr roundoff_le_one) (sub_le_self 1 roundoff_pos.le) few

theorem high_pow {k : Nat} (few : k ≤ 4) : (1 + roundoff) ^ k ≤ 1 + 5 * roundoff :=
  calc
    (1 + roundoff) ^ k ≤ (1 + roundoff) ^ 4 := pow_le_pow_right₀ (by linarith [roundoff_pos]) few
    _ ≤ 1 + 5 * roundoff := by
      unfold roundoff
      norm_num

/-- The number `A` of a text of `k` parts, the sum `S` of its rounded products and the rounded sum `T` of
these, of which the last is small enough for a duration. -/
theorem close_of_near {A S T : ℚ} {k : Nat} (few : k ≤ 4) (nonneg : 0 ≤ A) (nonneg' : 0 ≤ S)
    (small : T < 2 ^ 64) (low : A * (1 - roundoff) ^ 2 - k * slack ≤ S)
    (high : S ≤ A * (1 + roundoff) ^ 2 + k * slack) (low' : S * (1 - roundoff) ^ k ≤ T)
    (high' : T ≤ S * (1 + roundoff) ^ k) : A < T + tolerance ∧ T < A + tolerance := by
  have few' : (k : ℚ) ≤ 4 := by exact_mod_cast few
  have lost : k * slack ≤ 4 * slack := mul_le_mul_of_nonneg_right few' (by unfold slack; norm_num)
  have lowA := mul_le_mul_of_nonneg_left (low_pow (by decide : 2 ≤ 4)) nonneg
  have highA := mul_le_mul_of_nonneg_left (high_pow (by decide : 2 ≤ 4)) nonneg
  have lowS := mul_le_mul_of_nonneg_left (low_pow few) nonneg'
  have highS := mul_le_mul_of_nonneg_left (high_pow few) nonneg'
  have productsLow : A * (1 - 4 * roundoff) - 4 * slack ≤ S := by linarith
  have productsHigh : S ≤ A * (1 + 5 * roundoff) + 4 * slack := by linarith
  have sumLow : S * (1 - 4 * roundoff) ≤ T := by linarith
  have sumHigh : T ≤ S * (1 + 5 * roundoff) := by linarith
  unfold roundoff slack at productsLow productsHigh
  unfold roundoff at sumLow sumHigh
  unfold tolerance
  constructor <;> linarith

end Rounded

theorem Lists.length_le {Letter : Char → Char → Prop} {units : List (Char × TimeUnit)} {cs : List Char}
    (listed : Lists Letter units cs parts) : parts.length ≤ units.length := by
  induction listed with
  | done => exact le_rfl
  | absent _ ih => exact ih.trans (Nat.le_succ _)
  | present _ _ _ _ ih => exact Nat.succ_le_succ ih

theorem Written.length_le {cs : List Char} (written : Written cs parts) : parts.length ≤ 4 := by
  cases written with
  | short => exact (by decide : 1 ≤ 4)
  | components spells =>
    cases spells with
    | dated _ listed =>
      rw [Option.getD_none, List.append_nil]
      exact listed.length_le.trans (by decide)
    | timed _ listed _ listed' =>
      rw [Option.getD_some, List.length_append]
      exact Nat.add_le_add listed.length_le listed'.length_le

theorem ofNanoseconds?_eq_some_iff {s : Decimal} {duration : Duration} :
    ofNanoseconds? s = some duration ↔ duration.nanoseconds = ⌊s.magnitude⌋₊ := by
  rw [← Decimal.whole_eq_floor, ofNanoseconds?]
  constructor
  · intro made
    split at made
    · obtain rfl := Option.some.inj made
      rfl
    · cases made
  · intro same
    obtain ⟨n, within⟩ := duration
    obtain rfl : n = s.whole := same
    exact dif_pos within

/-- What is read is the number of the text, cut to whole nanoseconds, up to what rounding takes. -/
theorem close_of_duration? {cs : List Char} {duration : Duration} (written : Written cs parts)
    (made : duration? parts = some duration) :
    total parts < duration.nanoseconds + 1 + tolerance ∧ duration.nanoseconds < total parts + tolerance := by
  obtain ⟨ds, products, made⟩ := Option.bind_eq_some_iff.mp made
  obtain ⟨s, folded, made⟩ := Option.bind_eq_some_iff.mp made
  obtain ⟨length, low, high⟩ := near_mapM_scaled products
  obtain ⟨low', high'⟩ := near_foldlM folded
  rw [Decimal.magnitude_zero, zero_add] at low' high'
  rw [length] at low' high'
  have floor : duration.nanoseconds = ⌊s.magnitude⌋₊ := ofNanoseconds?_eq_some_iff.mp made
  have below : (duration.nanoseconds : ℚ) ≤ s.magnitude := floor ▸ Nat.floor_le s.magnitude_nonneg
  have above : s.magnitude < duration.nanoseconds + 1 := floor ▸ Nat.lt_floor_add_one s.magnitude
  have small : s.magnitude < 2 ^ 64 := by
    have last : (duration.nanoseconds : ℚ) + 1 ≤ 2 ^ 64 := by
      exact_mod_cast Nat.succ_le_of_lt duration.within
    linarith
  obtain ⟨close, close'⟩ := close_of_near written.length_le (total_nonneg parts)
    (sum_magnitude_nonneg ds) small low high low' high'
  constructor <;> linarith

section Parse

variable {text : String} {d : Duration}

theorem parse_of_written (written : Written (Text.trim text.toList) parts) :
    parseDuration text = match duration? parts with
      | some d => .ok d
      | none => .error (Fault.message text .invalid) := by
  rw [parseDuration, read_of_written written]
  cases duration? parts <;> rfl

theorem parse_eq_ok_iff (written : Written (Text.trim text.toList) parts) :
    parseDuration text = .ok d ↔ duration? parts = some d := by
  rw [parse_of_written written]
  cases duration? parts <;> simp

/-- A text within the limits of decimals is read as its number, cut to whole nanoseconds. -/
theorem parse_eq_ok_iff_floor (written : Written (Text.trim text.toList) parts)
    (within : Representable parts) : parseDuration text = .ok d ↔ d.nanoseconds = ⌊total parts⌋₊ := by
  obtain ⟨s, made, same⟩ := duration?_of_representable within
  rw [parse_eq_ok_iff written, made, ofNanoseconds?_eq_some_iff, same]

/-- Within the limits of decimals a text is read as exactly its number, cut to whole nanoseconds, or is too
long for a duration; so texts for the same number are read alike. Beyond the limits the number is rounded, and
what is read is still not off by more than `tolerance`: nothing wraps, and nothing is held at the largest
duration. -/
theorem parseDuration_of_written (written : Written (Text.trim text.toList) parts) :
    (Representable parts →
      (⌊total parts⌋₊ < 2 ^ 64 → ∃ d, parseDuration text = .ok d ∧ d.nanoseconds = ⌊total parts⌋₊) ∧
      (2 ^ 64 ≤ ⌊total parts⌋₊ → parseDuration text = .error (Fault.message text .invalid)) ∧
      ∀ text' parts', Written (Text.trim text'.toList) parts' → Representable parts' →
        total parts' = total parts → ∀ d, parseDuration text' = .ok d ↔ parseDuration text = .ok d) ∧
    ∀ d, parseDuration text = .ok d →
      total parts < d.nanoseconds + 1 + tolerance ∧ d.nanoseconds < total parts + tolerance := by
  refine ⟨fun within => ⟨fun small => ?_, fun large => ?_, ?_⟩, fun d accepted => ?_⟩
  · exact ⟨⟨_, small⟩, (parse_eq_ok_iff_floor written within).mpr rfl, rfl⟩
  · have rejected : duration? parts = none := by
      rw [Option.eq_none_iff_forall_ne_some]
      intro d made
      have floor := (parse_eq_ok_iff_floor written within).mp ((parse_eq_ok_iff written).mpr made)
      exact absurd d.within (Nat.not_lt.mpr (floor ▸ large))
    rw [parse_of_written written, rejected]
  · intro text' parts' written' within' same d
    rw [parse_eq_ok_iff_floor written' within', parse_eq_ok_iff_floor written within, same]
  · exact close_of_duration? written ((parse_eq_ok_iff written).mp accepted)

theorem parseDuration_of_written_half_day :
    (∃ d, parseDuration " 0.5 d" = .ok d ∧ d.nanoseconds = 43200000000000) ∧
      ∀ d, parseDuration "pt12h" = .ok d ↔ parseDuration " 0.5 d" = .ok d := by
  let half : Amount := ⟨['0'], ['5'], by decide, List.all_eq_true.mp rfl, List.all_eq_true.mp rfl⟩
  let twelve : Amount := ⟨['1', '2'], [], by decide, List.all_eq_true.mp rfl, nofun⟩
  have short : Written (Text.trim " 0.5 d".toList) [(half, .day)] := .short half 1 .day
  have components : Written (Text.trim "pt12h".toList) [(twelve, .hour)] :=
    .components (.timed (by decide : ReadAs 'P' 'p') (.absent .done) (by decide : ReadAs 'T' 't')
      (.present twelve (by decide : ReadAs 'H' 'h') (.inl rfl) (.absent (.absent .done)))) (by decide)
  have halfValue : half.value = 5 / 10 := by
    show ((5 : Nat) : ℚ) / 10 ^ 1 = _
    norm_num
  have twelveValue : twelve.value = (12 : Nat) := by
    show ((12 : Nat) : ℚ) / 10 ^ 0 = _
    norm_num
  have days : nanosecondsOf (half, .day) = (43200000000000 : Nat) := by
    norm_num [nanosecondsOf, halfValue, TimeUnit.nanoseconds]
  have hours : nanosecondsOf (twelve, .hour) = (43200000000000 : Nat) := by
    norm_num [nanosecondsOf, twelveValue, TimeUnit.nanoseconds]
  have daysTotal : total [(half, .day)] = (43200000000000 : Nat) := (total_single _).trans days
  have hoursTotal : total [(twelve, .hour)] = (43200000000000 : Nat) := (total_single _).trans hours
  have within : Representable [(half, .day)] :=
    representable_single ⟨5, 1, by decide, by decide, by rw [halfValue]; norm_num⟩
      (days ▸ Decimal.fits_natCast (by decide))
  have within' : Representable [(twelve, .hour)] :=
    representable_single (twelveValue ▸ Decimal.fits_natCast (by decide))
      (hours ▸ Decimal.fits_natCast (by decide))
  obtain ⟨small, -, alike⟩ := (parseDuration_of_written short).1 within
  rw [daysTotal, Nat.floor_natCast] at small
  exact ⟨small (by decide), alike _ _ components within' (hoursTotal.trans daysTotal.symm)⟩

end Parse

end LayeredConfig.Duration
