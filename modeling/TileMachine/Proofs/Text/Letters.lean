import TileMachine.Text.Blank

/-! Letters and digits by their codes. None of them is blank, a letter becomes a capital, and
a capital is found again behind its small letter. -/
namespace TileMachine.Text

theorem toNat_of_isAlpha {c : Char} (h : c.isAlpha = true) :
    65 ≤ c.toNat ∧ c.toNat ≤ 90 ∨ 97 ≤ c.toNat ∧ c.toNat ≤ 122 := by
  refine (Bool.or_eq_true_iff.1 h).imp (fun hupper => ?_) fun hlower => ?_
  · exact of_decide_eq_true hupper
  · exact (Bool.and_eq_true_iff.1 hlower).imp of_decide_eq_true of_decide_eq_true

theorem toNat_of_isDigit {c : Char} (h : c.isDigit = true) : 48 ≤ c.toNat ∧ c.toNat ≤ 57 :=
  (Bool.and_eq_true_iff.1 h).imp of_decide_eq_true of_decide_eq_true

theorem isBlank_of_isAlpha {c : Char} (h : c.isAlpha = true) : isBlank c = false := by
  have hrange := toNat_of_isAlpha h
  grind [isBlank]

theorem isBlank_of_isDigit {c : Char} (h : c.isDigit = true) : isBlank c = false := by
  have hrange := toNat_of_isDigit h
  grind [isBlank]

/-- Letters have codes under 128, so that a fact about them is checked code by code. -/
theorem forall_isAlpha {p : Char → Prop} (h : ∀ n < 128, (Char.ofNat n).isAlpha = true → p (.ofNat n))
    {c : Char} (hc : c.isAlpha = true) : p c := by
  have hrange : c.toNat < 128 := by
    have hcodes := toNat_of_isAlpha hc
    omega
  have hcode := h c.toNat hrange
  rw [Char.ofNat_toNat] at hcode
  exact hcode hc

theorem isUpper_toUpper {c : Char} (h : c.isAlpha = true) : c.toUpper.isUpper = true :=
  forall_isAlpha (p := fun c => c.toUpper.isUpper = true) (by decide) h

theorem isAlpha_of_isUpper {c : Char} (h : c.isUpper = true) : c.isAlpha = true :=
  Bool.or_eq_true_iff.2 (.inl h)

theorem toUpper_of_isUpper {c : Char} (h : c.isUpper = true) :
    c.toUpper = c ∧ c.toLower.isAlpha = true ∧ c.toLower.toUpper = c :=
  forall_isAlpha (p := fun c => c.isUpper = true →
    c.toUpper = c ∧ c.toLower.isAlpha = true ∧ c.toLower.toUpper = c) (by decide)
    (isAlpha_of_isUpper h) h

theorem isAlpha_of_isLower_toLower {c : Char} (h : c.toLower.isLower = true) :
    c.isAlpha = true := by
  by_cases hupper : c.isUpper = true
  · exact isAlpha_of_isUpper hupper
  · have hsame : c.toLower = c := dif_neg fun hc => hupper (decide_eq_true hc)
    rw [hsame] at h
    exact Bool.or_eq_true_iff.2 (.inr h)

end TileMachine.Text
