import TileMachine.Text.Decimal

/-! Numerals in their canonical form are read back, and hold nothing but digits and
perhaps a minus sign. -/
namespace TileMachine.Decimal

theorem toList_ofNat (n : Nat) : (ofNat n).toList = Nat.toDigits 10 n :=
  String.toList_ofList

theorem toList_ofInt_negSucc (n : Nat) : (ofInt (.negSucc n)).toList = '-' :: (ofNat (n + 1)).toList :=
  String.toList_append

theorem isDigit_of_mem_ofNat {n : Nat} {c : Char} (h : c ∈ (ofNat n).toList) :
    c.isDigit = true := by
  rw [toList_ofNat] at h
  exact Nat.isDigit_of_mem_toDigits (by decide) (by decide) h

theorem mem_ofInt {n : Int} {c : Char} (h : c ∈ (ofInt n).toList) : c.isDigit = true ∨ c = '-' := by
  cases n with
  | ofNat n => exact .inl (isDigit_of_mem_ofNat h)
  | negSucc n =>
    rw [toList_ofInt_negSucc, List.mem_cons] at h
    cases h with
    | inl hsign => exact .inr hsign
    | inr hdigit => exact .inl (isDigit_of_mem_ofNat hdigit)

theorem digits?_ofNat (n : Nat) : digits? (ofNat n).toList = some n := by
  rw [toList_ofNat, digits?_toDigits]

/-! Digits have no sign in front of them. -/

theorem natural?_of_digits {cs : List Char} (h : ∀ c ∈ cs, c.isDigit = true) :
    natural? cs = digits? cs := by
  fun_cases natural? cs with
  | case1 rest => exact absurd (h '+' List.mem_cons_self) (by decide)
  | case2 => rfl

theorem integer?_of_digits {cs : List Char} (h : ∀ c ∈ cs, c.isDigit = true) :
    integer? cs = (digits? cs).map Int.ofNat := by
  fun_cases integer? cs with
  | case1 rest => exact absurd (h '+' List.mem_cons_self) (by decide)
  | case2 rest => exact absurd (h '-' List.mem_cons_self) (by decide)
  | case3 => rfl

theorem natural?_ofNat (n : Nat) : natural? (ofNat n).toList = some n := by
  rw [natural?_of_digits fun _ => isDigit_of_mem_ofNat, digits?_ofNat]

theorem integer?_ofNat (n : Nat) : integer? (ofNat n).toList = some (n : Int) := by
  rw [integer?_of_digits fun _ => isDigit_of_mem_ofNat, digits?_ofNat]
  rfl

theorem integer?_ofInt (n : Int) : integer? (ofInt n).toList = some n := by
  cases n with
  | ofNat n => exact integer?_ofNat n
  | negSucc n =>
    rw [toList_ofInt_negSucc, integer?, digits?_ofNat]
    rfl

end TileMachine.Decimal
