/-!
# Integers of a fixed width

The ranges of the integer types that a configuration can be read as, and reading such an integer from a
text: an optional sign and ASCII digits. A number outside of the range is told from a text that is no
number; whichever shows first from the left is the fault.
-/

namespace LayeredConfig.Number

/-- The integer types. -/
inductive IntKind where
  | i8 | i16 | i32 | i64 | u8 | u16 | u32 | u64 | usize
deriving DecidableEq, Repr

namespace IntKind

/-- The name of the type. -/
def name : IntKind → String
  | .i8 => "i8" | .i16 => "i16" | .i32 => "i32" | .i64 => "i64"
  | .u8 => "u8" | .u16 => "u16" | .u32 => "u32" | .u64 => "u64" | .usize => "usize"

/-- Has the type negative numbers? -/
def signed : IntKind → Bool
  | .i8 | .i16 | .i32 | .i64 => true
  | .u8 | .u16 | .u32 | .u64 | .usize => false

/-- The number of bits. -/
def bits : IntKind → Nat
  | .i8 | .u8 => 8
  | .i16 | .u16 => 16
  | .i32 | .u32 => 32
  | .i64 | .u64 | .usize => 64

/-- How far the type reaches above zero. -/
def greatest (k : IntKind) : Nat :=
  if k.signed then Nat.pow 2 (k.bits - 1) - 1 else Nat.pow 2 k.bits - 1

/-- How far the type reaches below zero. -/
def depth (k : IntKind) : Nat :=
  if k.signed then Nat.pow 2 (k.bits - 1) else 0

/-- Is the number in the range of the type? -/
def Holds (k : IntKind) (n : Int) : Prop :=
  -(k.depth : Int) ≤ n ∧ n ≤ (k.greatest : Int)

instance (k : IntKind) (n : Int) : Decidable (k.Holds n) :=
  inferInstanceAs (Decidable (_ ∧ _))

end IntKind

/-- A number in the range of an integer type. -/
structure Ranged (k : IntKind) where
  value : Int
  within : k.Holds value
deriving DecidableEq

/-- The number as one of type `k`, if it is in the range. -/
def IntKind.ofInt? (k : IntKind) (n : Int) : Option (Ranged k) :=
  if h : k.Holds n then some ⟨n, h⟩ else none

/-- Why a text is no integer of some type. -/
inductive IntFault where
  | empty
  | invalidDigit
  | tooLarge
  | tooSmall
deriving DecidableEq, Repr

/-- The wording of a fault. -/
def IntFault.message : IntFault → String
  | .empty => "cannot parse integer from empty string"
  | .invalidDigit => "invalid digit found in string"
  | .tooLarge => "number too large to fit in target type"
  | .tooSmall => "number too small to fit in target type"

/-- The number whose digits follow those of `n`, as long as it does not exceed `limit`. -/
def readDigits (limit : Nat) (beyond : IntFault) (n : Nat) : List Char → Except IntFault Nat
  | [] => .ok n
  | c :: rest =>
    if !c.isDigit then .error .invalidDigit
    else
      let next := 10 * n + (c.toNat - '0'.toNat)
      if limit < next then .error beyond else readDigits limit beyond next rest

/-- Reads digits, of which there has to be one. -/
def readMagnitude (limit : Nat) (beyond : IntFault) (digits : List Char) : Except IntFault Nat :=
  if digits.isEmpty then .error .invalidDigit else readDigits limit beyond 0 digits

/-- Reads the characters of an integer of type `k`. Only types with negative numbers admit a minus. -/
def IntKind.readChars (k : IntKind) : List Char → Except IntFault Int
  | [] => .error .empty
  | '+' :: digits => do return (← readMagnitude k.greatest .tooLarge digits : Nat)
  | '-' :: digits =>
    if k.signed then do return -(← readMagnitude k.depth .tooSmall digits : Nat)
    else .error .invalidDigit
  | digits => do return (← readMagnitude k.greatest .tooLarge digits : Nat)

theorem readDigits_le {limit : Nat} {beyond : IntFault} {digits : List Char} :
    ∀ {n m : Nat}, n ≤ limit → readDigits limit beyond n digits = .ok m → m ≤ limit := by
  induction digits with
  | nil => intro n m le h; injection h with h; omega
  | cons c rest ih =>
    intro n m _ h
    simp only [readDigits] at h
    split at h
    · cases h
    · split at h
      · cases h
      · next le => exact ih (by omega) h

theorem readMagnitude_le {limit : Nat} {beyond : IntFault} {digits : List Char} {m : Nat}
    (h : readMagnitude limit beyond digits = .ok m) : m ≤ limit := by
  unfold readMagnitude at h
  split at h
  · cases h
  · exact readDigits_le (Nat.zero_le _) h

/-- What is read is in the range of the type. -/
theorem IntKind.holds_of_readChars {k : IntKind} {cs : List Char} {n : Int}
    (h : k.readChars cs = .ok n) : k.Holds n := by
  have positive : ∀ {digits : List Char},
      (do return ((← readMagnitude k.greatest .tooLarge digits : Nat) : Int)) = Except.ok n →
      k.Holds n := by
    intro digits h
    match read : readMagnitude k.greatest .tooLarge digits with
    | .error _ => rw [read] at h; cases h
    | .ok m =>
      rw [read] at h
      injection h with same
      have := readMagnitude_le read
      constructor <;> omega
  unfold IntKind.readChars at h
  split at h
  · cases h
  · exact positive h
  · split at h
    · next digits _ =>
      match read : readMagnitude k.depth .tooSmall digits with
      | .error _ => rw [read] at h; cases h
      | .ok m =>
        rw [read] at h
        injection h with same
        have := readMagnitude_le read
        constructor <;> omega
    · cases h
  · exact positive h

/-- Reads the text of an integer of type `k`. -/
def IntKind.read (k : IntKind) (text : String) : Except IntFault (Ranged k) :=
  match h : k.readChars text.toList with
  | .ok n => .ok ⟨n, holds_of_readChars h⟩
  | .error fault => .error fault

end LayeredConfig.Number
