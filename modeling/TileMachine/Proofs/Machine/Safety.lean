import TileMachine.Proofs.Machine.Runs

/-! What the checks before a run are good for: a program that passed them never jumps
outside and never meets an operand that it cannot use. -/
namespace TileMachine

/-- A fault of the program and not of the values it works on. -/
def Fault.IsStructural : Fault → Prop
  | .invalidJumpTarget _ | .malformed => True
  | _ => False

theorem Reference.State.not_isStructural {s : Reference.State} {i : Instruction} {cause : Fault}
    (h : s.fault? i = some cause) : ¬cause.IsStructural := by
  have hempty (a : Address) (ha : s.emptyPointer? a = some cause) : ¬cause.IsStructural := by
    cases a <;> grind [emptyPointer?, Fault.IsStructural]
  have hbad (a : Address) (ha : s.badPointer? a = some cause) : ¬cause.IsStructural := by
    cases a <;> grind [badPointer?, Fault.IsStructural]
  obtain ⟨stage, -, hstage⟩ := List.exists_of_findSome?_eq_some h
  cases stage with
  | hands => grind [violation?, Fault.IsStructural]
  | augend => grind [violation?, Fault.IsStructural]
  | pointer => grind [violation?]
  | address => grind [violation?]
  | tile => grind [violation?, emptyTarget?, Fault.IsStructural]
  | kinds => grind [violation?, badKind?, Fault.IsStructural]
  | range => grind [violation?, Fault.IsStructural]

namespace Machine

theorem not_isStructural_of_plan (m : Machine) {s : State} {i : Instruction} {cause : Fault}
    (hi : i ∈ m.program.instructions) (h : s.plan m.program.length i = .error cause) :
    ¬cause.IsStructural := by
  have hplanned := m.planned s hi
  rw [h] at hplanned
  cases hplanned with
  | fault hfault => exact Reference.State.not_isStructural hfault

end Machine

namespace Execution

structure Safe (m : Machine) (e : Execution) : Prop where
  program : e.program = m.program
  inside : e.state.ip ≤ e.program.length
  halted : e.status = .halted → e.state.ip = e.program.length ∨ e.Starves
  failed : ∀ index cause, e.status = .failed (.fault index cause) → ¬cause.IsStructural

variable {m : Machine} {e : Execution}

theorem Safe.step (h : Safe m e) : Safe m e.step.2 := by
  have hstep := e.stepsTo
  generalize e.step = next at hstep ⊢
  cases hstep with
  | rests => exact h
  | ends _ hnone =>
    have hend : e.state.ip = e.program.length :=
      Nat.le_antisymm h.inside (Array.getElem?_eq_none_iff.1 hnone)
    exact ⟨h.program, h.inside, fun _ => .inl hend, by rintro _ _ ⟨⟩⟩
  | limit => exact ⟨h.program, h.inside, by rintro ⟨⟩, by rintro _ _ ⟨⟩⟩
  | fault _ hi _ hplan =>
    have hmem := Array.mem_of_getElem? (h.program ▸ hi)
    have hcause := m.not_isStructural_of_plan hmem (h.program ▸ hplan)
    refine ⟨h.program, h.inside, by rintro ⟨⟩, ?_⟩
    rintro _ _ ⟨⟩
    exact hcause
  | proceeds _ _ _ _ _ hip =>
    exact ⟨h.program, Nat.le_of_lt hip, by rintro ⟨⟩, by rintro _ _ ⟨⟩⟩
  | @finishes i action _ hi _ hplan hend =>
    have hip : e.state.ip < e.program.length := (Array.getElem?_eq_some_iff.1 hi).1
    have hle := State.ip_apply_le hplan hip
    refine ⟨h.program, hle, fun _ => ?_, by rintro _ _ ⟨⟩⟩
    cases hend with
    | inl hstop =>
      subst hstop
      obtain ⟨hop, hinbox⟩ := State.plan_eq_stop_iff.1 hplan
      exact .inr ⟨hinbox, i, hi, hop⟩
    | inr hend => exact .inl (Nat.le_antisymm hle hend)

theorem Safe.after (h : Safe m e) (n : Nat) : Safe m (e.after n) := by
  induction n with
  | zero => exact h
  | succ n ih => exact ih.step

theorem ip_lt_of_proceed (h : e.step.1 = .proceed) :
    e.step.2.state.ip < e.step.2.program.length := by
  have hstep := e.stepsTo
  generalize e.step = next at hstep h ⊢
  cases hstep with
  | rests hended =>
    rw [Status.answer_eq_proceed_iff, hended] at h
    contradiction
  | proceeds _ _ _ _ _ hip => exact hip
  | _ => contradiction

end Execution

namespace Machine
open Execution

theorem safe_start (m : Machine) (inbox : List Value) (tiles : Tiles) :
    Safe m (m.start inbox tiles) :=
  ⟨rfl, Nat.zero_le _, by rintro ⟨⟩, by rintro _ _ ⟨⟩⟩

theorem ofProgram_eq_ok_iff {p : Program} {m : Machine} :
    ofProgram p = .ok m ↔ m.program = p ∧ m.limit = some defaultLimit := by
  unfold ofProgram
  constructor
  · intro h
    split at h
    · cases h
      exact ⟨rfl, rfl⟩
    · contradiction
  · obtain ⟨program, limit, valid⟩ := m
    rintro ⟨rfl, rfl⟩
    split
    · rfl
    next hne =>
      rw [valid] at hne
      contradiction

/-- A step of a program that passed the checks: no jump leads outside, no instruction is
malformed, and the program halts at its end or for want of a value. -/
structure SafeAt (p : Program) (e : Execution) : Prop where
  lands : ∀ index target, e.step.1 ≠ .failed (.fault index (.invalidJumpTarget target))
  formed : ∀ index, e.step.1 ≠ .failed (.fault index .malformed)
  inside : e.state.ip ≤ p.length
  proceeds : e.step.1 = .proceed → e.step.2.state.ip < p.length
  halts : e.step.1 = .halted → e.step.2.state.ip = p.length ∨
    (∃ i, p.instructions[e.step.2.state.ip]? = some i ∧ i.opcode = .inbox) ∧
      e.step.2.state.inbox = []

/-- A program that passes the checks is safe to run, under any limit, on all values and
for any number of steps. -/
theorem safeAt_of_ofProgram {p : Program} {m : Machine} (hm : ofProgram p = .ok m)
    (limit : Option Nat) (inbox : List Value) (tiles : Tiles) (n : Nat) :
    SafeAt p (((m.withLimit limit).start inbox tiles).after n) := by
  have hsafe := ((m.withLimit limit).safe_start inbox tiles).after n
  generalize ((m.withLimit limit).start inbox tiles).after n = e at hsafe ⊢
  have hnext := hsafe.step
  have hprogram : (m.withLimit limit).program = p := (ofProgram_eq_ok_iff.1 hm).1
  have hp : e.program = p := hsafe.program.trans hprogram
  have hp' : e.step.2.program = p := hnext.program.trans hprogram
  refine ⟨fun index target hfailed => ?_, fun index hfailed => ?_, ?_, fun hproceed => ?_,
    fun hhalted => ?_⟩
  · rw [step_answer, Status.answer_eq_failed_iff] at hfailed
    exact hnext.failed _ _ hfailed trivial
  · rw [step_answer, Status.answer_eq_failed_iff] at hfailed
    exact hnext.failed _ _ hfailed trivial
  · rw [← hp]
    exact hsafe.inside
  · rw [← hp']
    exact ip_lt_of_proceed hproceed
  · rw [step_answer, Status.answer_eq_halted_iff] at hhalted
    rw [← hp']
    exact (hnext.halted hhalted).imp_right And.symm

theorem safeAt_countdown :
    let p : Program :=
      ⟨#[⟨.inbox, .nothing⟩, ⟨.jumpz, .label "end" 3⟩, ⟨.jump, .label "start" 0⟩],
        (∅ : Labels) |>.insert "start" 0 |>.insert "end" 3, #[]⟩
    let m : Machine := ⟨p, some defaultLimit, by decide +kernel⟩
    let e := ((m.withLimit (some 5)).start [.int 4, .int 0] ∅).after 4
    ofProgram p = .ok m ∧ SafeAt p e ∧ e.step.1 = .halted ∧ e.step.2.state.ip = p.length := by
  intro p m e
  have hm : ofProgram p = .ok m := ofProgram_eq_ok_iff.2 ⟨rfl, rfl⟩
  exact ⟨hm, safeAt_of_ofProgram hm _ _ _ _, by decide +kernel, by decide +kernel⟩

end Machine
end TileMachine
