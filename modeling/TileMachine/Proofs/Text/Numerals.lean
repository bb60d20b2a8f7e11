import TileMachine.Proofs.Source.Reading

/-! Which texts are numerals, and what they stand for: digits, perhaps after a sign, with as
many zeros in front as one likes. -/
namespace TileMachine.Decimal
open Grammar (IsDigits)

inductive Unsigned : List Char → Nat → Prop where
  | plain {digits : List Char} :
      IsDigits digits → Unsigned digits (Nat.ofDigitChars 10 digits 0)
  | plus {digits : List Char} :
      IsDigits digits → Unsigned ('+' :: digits) (Nat.ofDigitChars 10 digits 0)

/-- Digits, perhaps after one sign, with their value. -/
inductive Signed : List Char → Int → Prop where
  | unsigned {cs : List Char} {n : Nat} : Unsigned cs n → Signed cs n
  | minus {digits : List Char} :
      IsDigits digits → Signed ('-' :: digits) (-(Nat.ofDigitChars 10 digits 0 : Int))

variable {cs : List Char}

theorem natural?_eq_some_iff {n : Nat} : natural? cs = some n ↔ Unsigned cs n := by
  constructor
  · intro h
    unfold natural? at h
    split at h
    next =>
      obtain ⟨hdigits, rfl⟩ := digits?_eq_some_iff.1 h
      exact .plus hdigits
    next =>
      obtain ⟨hdigits, rfl⟩ := digits?_eq_some_iff.1 h
      exact .plain hdigits
  · intro h
    cases h with
    | plain hdigits => rw [natural?_of_digits hdigits.2, digits?_eq_some_iff.2 ⟨hdigits, rfl⟩]
    | plus hdigits => exact digits?_eq_some_iff.2 ⟨hdigits, rfl⟩

theorem integer?_eq_some_iff {n : Int} : integer? cs = some n ↔ Signed cs n := by
  constructor
  · intro h
    unfold integer? at h
    split at h
    next =>
      obtain ⟨k, hk, rfl⟩ := Option.map_eq_some_iff.1 h
      exact .unsigned (natural?_eq_some_iff.1 hk)
    next =>
      obtain ⟨k, hk, rfl⟩ := Option.map_eq_some_iff.1 h
      obtain ⟨hdigits, rfl⟩ := digits?_eq_some_iff.1 hk
      exact .minus hdigits
    next =>
      obtain ⟨k, hk, rfl⟩ := Option.map_eq_some_iff.1 h
      obtain ⟨hdigits, rfl⟩ := digits?_eq_some_iff.1 hk
      exact .unsigned (.plain hdigits)
  · intro h
    cases h with
    | minus hdigits => exact integer?_minus hdigits
    | unsigned hunsigned =>
      cases hunsigned with
      | plain hdigits => exact integer?_of_isDigits hdigits
      | plus hdigits =>
        rw [integer?, digits?_eq_some_iff.2 ⟨hdigits, rfl⟩]
        rfl

end TileMachine.Decimal
