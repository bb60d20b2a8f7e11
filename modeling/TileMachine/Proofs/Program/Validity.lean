import TileMachine.Program.Validity

/-! When no problem is found in a program: labels lie inside it or at its end, all
operands are of the right kind, and jumps agree with the labels. -/
namespace TileMachine.Program

theorem labelError?_eq_none_iff {p : Program} {name : String} {target : Nat} :
    p.labelError? (name, target) = none ↔ target ≤ p.length := by
  simp [labelError?]

theorem instructionError?_eq_none_iff {p : Program} {i : Instruction} {index : Nat} :
    p.instructionError? (i, index) = none ↔ i.WellFormed ∧
      ∀ name target, i.operand = .label name target → p.labels[name]? = some target := by
  obtain ⟨opcode, operand⟩ := i
  unfold instructionError? label?
  by_cases hi : Instruction.WellFormed ⟨opcode, operand⟩
  · cases operand with
    | nothing => simp [hi]
    | tile address => simp [hi]
    | label name target =>
      cases hlabel : p.labels[name]? with
      | none => simp [hi, hlabel]
      | some expected => simp [hi, hlabel]
  · simp [hi]

theorem errors_eq_nil_iff {p : Program} : p.errors = [] ↔
    (∀ (name : String) (target : Nat), p.labels[name]? = some target → target ≤ p.length) ∧
      ∀ i ∈ p.instructions, i.WellFormed ∧
        ∀ name target, i.operand = .label name target → p.labels[name]? = some target := by
  unfold errors
  rw [List.append_eq_nil_iff, List.filterMap_eq_nil_iff, List.filterMap_eq_nil_iff]
  refine and_congr ?_ ?_
  · rw [Prod.forall]
    simp only [Std.ExtTreeMap.mem_toList_iff_getElem?_eq_some, labelError?_eq_none_iff]
  · rw [Prod.forall]
    simp only [instructionError?_eq_none_iff]
    constructor
    · intro h i hi
      obtain ⟨index, hindex⟩ := List.getElem?_of_mem (Array.mem_toList_iff.2 hi)
      exact h i index (List.mk_mem_zipIdx_iff_getElem?.2 hindex)
    · intro h i index hi
      rw [List.mk_mem_zipIdx_iff_getElem?] at hi
      exact h i (Array.mem_toList_iff.1 (List.mem_of_getElem? hi))

theorem target_le_length {p : Program} (hvalid : p.errors = []) {i : Instruction}
    (hi : i ∈ p.instructions) {name : String} {target : Nat}
    (hoperand : i.operand = .label name target) : target ≤ p.length := by
  obtain ⟨hlabels, hinstructions⟩ := errors_eq_nil_iff.1 hvalid
  exact hlabels name target ((hinstructions i hi).2 name target hoperand)

end TileMachine.Program
