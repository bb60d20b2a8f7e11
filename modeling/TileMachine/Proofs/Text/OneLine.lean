import TileMachine.Proofs.Text.Decimal

/-! Texts that stay on one line, as they are put together from pieces. -/
namespace TileMachine.Text

def OneLine (text : String) : Prop :=
  '\n' ∉ text.toList

instance (text : String) : Decidable (OneLine text) :=
  inferInstanceAs (Decidable (¬_))

@[simp] theorem oneLine_append {a b : String} : OneLine (a ++ b) ↔ OneLine a ∧ OneLine b := by
  simp [OneLine]

@[simp] theorem oneLine_ofList {cs : List Char} : OneLine (String.ofList cs) ↔ '\n' ∉ cs := by
  simp [OneLine]

@[simp] theorem oneLine_singleton {c : Char} : OneLine (String.singleton c) ↔ c ≠ '\n' := by
  simp [OneLine, eq_comm]

theorem oneLine_intercalate {separator : String} {texts : List String}
    (hseparator : OneLine separator) (h : ∀ text ∈ texts, OneLine text) :
    OneLine (separator.intercalate texts) := by
  induction texts with
  | nil =>
    rw [String.intercalate_nil]
    decide
  | cons text texts ih =>
    rw [List.forall_mem_cons] at h
    by_cases hne : texts = []
    · rw [hne, String.intercalate_singleton]
      exact h.1
    · rw [String.intercalate_cons_of_ne_nil hne, oneLine_append, oneLine_append]
      exact ⟨⟨h.1, hseparator⟩, ih h.2⟩

@[simp] theorem oneLine_ofNat (n : Nat) : OneLine (Decimal.ofNat n) := by
  intro hmem
  have hdigit := Decimal.isDigit_of_mem_ofNat hmem
  contradiction

@[simp] theorem oneLine_ofInt (n : Int) : OneLine (Decimal.ofInt n) := by
  cases n with
  | ofNat n => exact oneLine_ofNat n
  | negSucc n => exact oneLine_append.2 ⟨by decide, oneLine_ofNat (n + 1)⟩

end TileMachine.Text
