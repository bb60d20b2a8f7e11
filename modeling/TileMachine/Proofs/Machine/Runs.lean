import TileMachine.Proofs.Machine.Actions
import TileMachine.Proofs.Machine.Refinement

/-! Runs, step after step. A step answers what the status after it says, an
execution that has ended stays as it is, and the result of a run can be read off the
execution after enough steps. -/
namespace TileMachine

def Status.answer : Status → Step
  | ready | running => .proceed
  | halted => .halted
  | failed error => .failed error

theorem Status.answer_eq_proceed_iff {status : Status} :
    status.answer = .proceed ↔ status.isTerminal = false := by
  cases status <;> simp [answer, isTerminal]

theorem Status.answer_eq_halted_iff {status : Status} :
    status.answer = .halted ↔ status = .halted := by
  cases status <;> simp [answer]

theorem Status.answer_eq_failed_iff {status : Status} {error : RuntimeError} :
    status.answer = .failed error ↔ status = .failed error := by
  cases status <;> simp [answer]

namespace Execution

variable {e : Execution} {action : Action} {n k : Nat}

theorem settle_proceeds (h : action ≠ .stop)
    (hip : (e.state.apply action).ip < e.program.length) : e.settle action =
      (.proceed, { e with state := e.state.apply action, status := .running }) :=
  if_pos ⟨h, hip⟩

theorem settle_finishes
    (h : action = .stop ∨ e.program.length ≤ (e.state.apply action).ip) : e.settle action =
      (.halted, { e with state := e.state.apply action, status := .halted }) := by
  apply if_neg
  intro hgo
  cases h with
  | inl hstop => exact hgo.1 hstop
  | inr hend => exact Nat.not_lt.2 hend hgo.2

inductive StepsTo (e : Execution) : Step × Execution → Prop where
  | rests : e.status.isTerminal = true → StepsTo e (e.status.answer, e)
  | ends : e.status.isTerminal = false → e.program.instructions[e.state.ip]? = none →
      StepsTo e e.halt
  | limit {i : Instruction} {limit : Nat} : e.status.isTerminal = false →
      e.program.instructions[e.state.ip]? = some i → e.exhausted = some limit →
      StepsTo e (e.fail (.tooManySteps limit))
  | fault {i : Instruction} {cause : Fault} : e.status.isTerminal = false →
      e.program.instructions[e.state.ip]? = some i → e.exhausted = none →
      e.state.plan e.program.length i = .error cause →
      StepsTo e (e.count.fail (.fault e.state.ip cause))
  | proceeds {i : Instruction} {action : Action} : e.status.isTerminal = false →
      e.program.instructions[e.state.ip]? = some i → e.exhausted = none →
      e.state.plan e.program.length i = .ok action → action ≠ .stop →
      (e.state.apply action).ip < e.program.length →
      StepsTo e (.proceed, { e.count with state := e.state.apply action, status := .running })
  | finishes {i : Instruction} {action : Action} : e.status.isTerminal = false →
      e.program.instructions[e.state.ip]? = some i → e.exhausted = none →
      e.state.plan e.program.length i = .ok action →
      action = .stop ∨ e.program.length ≤ (e.state.apply action).ip →
      StepsTo e (.halted, { e.count with state := e.state.apply action, status := .halted })

theorem step_of_terminal (h : e.status.isTerminal = true) : e.step = (e.status.answer, e) := by
  unfold step
  cases hstatus : e.status with
  | ready => rw [hstatus] at h; contradiction
  | running => rw [hstatus] at h; contradiction
  | halted => rfl
  | failed error => rfl

theorem stepsTo (e : Execution) : e.StepsTo e.step := by
  cases hopen : e.status.isTerminal with
  | true =>
    rw [step_of_terminal hopen]
    exact .rests hopen
  | false =>
    rw [step_open hopen]
    cases hi : e.program.instructions[e.state.ip]? with
    | none =>
      rw [advance_at_end hi]
      exact .ends hopen hi
    | some i =>
      cases hlimit : e.exhausted with
      | some limit =>
        rw [advance_exhausted hi hlimit]
        exact .limit hopen hi hlimit
      | none =>
        cases hplan : e.state.plan e.program.length i with
        | error cause =>
          rw [advance_fault hi hlimit hplan]
          exact .fault hopen hi hlimit hplan
        | ok action =>
          rw [advance_action hi hlimit hplan]
          by_cases hgo : action = .stop ∨ e.program.length ≤ (e.state.apply action).ip
          · rw [settle_finishes (e := e.count) hgo]
            exact .finishes hopen hi hlimit hplan hgo
          · rw [not_or, Nat.not_le] at hgo
            rw [settle_proceeds (e := e.count) hgo.1 hgo.2]
            exact .proceeds hopen hi hlimit hplan hgo.1 hgo.2

theorem step_answer (e : Execution) : e.step.1 = e.step.2.status.answer := by
  have hstep := e.stepsTo
  generalize e.step = next at hstep ⊢
  cases hstep <;> rfl

theorem step_steps (e : Execution) :
    e.step.2.steps = e.steps ∨ e.exhausted = none ∧ e.step.2.steps = e.steps + 1 := by
  have hstep := e.stepsTo
  generalize e.step = next at hstep ⊢
  cases hstep with
  | rests | ends | limit => exact .inl rfl
  | fault _ _ hlimit => exact .inr ⟨hlimit, rfl⟩
  | proceeds _ _ hlimit => exact .inr ⟨hlimit, rfl⟩
  | finishes _ _ hlimit => exact .inr ⟨hlimit, rfl⟩

theorem step_counts {i : Instruction} (hopen : e.status.isTerminal = false)
    (hi : e.program.instructions[e.state.ip]? = some i) (hlimit : e.exhausted = none) :
    e.step.2.steps = e.steps + 1 := by
  have hstep := e.stepsTo
  generalize e.step = next at hstep ⊢
  cases hstep with
  | rests hended => rw [hopen] at hended; contradiction
  | ends _ hnone => rw [hi] at hnone; contradiction
  | limit _ _ hsome => rw [hlimit] at hsome; contradiction
  | _ => rfl

theorem step_of_open (h : e.step.2.status.isTerminal = false) :
    e.status.isTerminal = false ∧ e.step.2.steps = e.steps + 1 := by
  have hstep := e.stepsTo
  generalize e.step = next at hstep h ⊢
  cases hstep with
  | proceeds hopen => exact ⟨hopen, rfl⟩
  | rests hended => rw [hended] at h; contradiction
  | _ => contradiction

def Starves (e : Execution) : Prop :=
  e.state.inbox = [] ∧ ∃ i, e.program.instructions[e.state.ip]? = some i ∧ i.opcode = .inbox

theorem step_of_starves (h : e.Starves) (hopen : e.status.isTerminal = false)
    (hlimit : e.exhausted = none) : e.step = e.count.halt := by
  obtain ⟨hinbox, i, hi, hop⟩ := h
  have hplan : e.state.plan e.program.length i = .ok .stop :=
    State.plan_eq_stop_iff.2 ⟨hop, hinbox⟩
  rw [step_open hopen, advance_action hi hlimit hplan, settle_stop]

/-! ### Many steps -/

theorem after_succ (e : Execution) (n : Nat) : e.after (n + 1) = e.step.2.after n := by
  induction n with
  | zero => rfl
  | succ n ih => exact congrArg (·.step.2) ih

theorem after_add (e : Execution) (n k : Nat) : e.after (n + k) = (e.after n).after k := by
  induction k with
  | zero => rfl
  | succ k ih => exact congrArg (·.step.2) ih

theorem after_of_terminal (h : e.status.isTerminal = true) (n : Nat) : e.after n = e := by
  induction n with
  | zero => rfl
  | succ n ih => rw [after, ih, step_terminal h]

theorem after_eq_of_le (h : (e.after n).status.isTerminal = true) (hle : n ≤ k) :
    e.after k = e.after n := by
  rw [← Nat.add_sub_of_le hle, after_add]
  exact after_of_terminal h _

theorem after_eq_of_terminal (hn : (e.after n).status.isTerminal = true)
    (hk : (e.after k).status.isTerminal = true) : e.after k = e.after n := by
  cases Nat.le_total n k with
  | inl hle => exact after_eq_of_le hn hle
  | inr hle => exact (after_eq_of_le hk hle).symm

theorem after_program (e : Execution) (n : Nat) :
    (e.after n).program = e.program ∧ (e.after n).limit = e.limit := by
  induction n with
  | zero => exact ⟨rfl, rfl⟩
  | succ n ih =>
    have hstep := (e.after n).step_program
    exact ⟨hstep.1.trans ih.1, hstep.2.trans ih.2⟩

theorem steps_after (e : Execution) (n : Nat) :
    e.steps ≤ (e.after n).steps ∧ (e.after n).steps ≤ e.steps + n := by
  induction n with
  | zero => exact ⟨Nat.le_refl _, Nat.le_refl _⟩
  | succ n ih =>
    have hstep := (e.after n).step_steps
    rw [after]
    omega

theorem steps_after_of_open (h : (e.after n).status.isTerminal = false) :
    (e.after n).steps = e.steps + n := by
  induction n with
  | zero => rfl
  | succ n ih =>
    have hstep := step_of_open h
    have hn := ih hstep.1
    rw [after]
    omega

/-! ### Results -/

def result? (e : Execution) : Option (Except RuntimeError (List Value)) :=
  match e.status with
  | .ready | .running => none
  | .halted => some (.ok e.outbox)
  | .failed error => some (.error error)

theorem isSome_result? (e : Execution) : e.result?.isSome = e.status.isTerminal := by
  unfold result?
  cases e.status <;> rfl

theorem result?_eq_error_iff {error : RuntimeError} :
    e.result? = some (.error error) ↔ e.status = .failed error := by
  unfold result?
  cases e.status <;> simp

theorem result?_eq_ok_iff {outbox : List Value} :
    e.result? = some (.ok outbox) ↔ e.status = .halted ∧ e.outbox = outbox := by
  unfold result?
  cases e.status <;> simp

theorem isTerminal_of_result? {result : Except RuntimeError (List Value)}
    (h : e.result? = some result) : e.status.isTerminal = true := by
  rw [← isSome_result?, h]
  rfl

theorem finish?_eq_after (calls : Nat) (h : e.status.isTerminal = false) : e.finish? calls =
    if (e.after calls).status.isTerminal = true then
      some ((e.after calls).status.answer, e.after calls)
    else none := by
  induction calls generalizing e with
  | zero => simp [finish?, after, h]
  | succ calls ih =>
    have hanswer := step_answer e
    rw [finish?, after_succ]
    generalize e.step = next at hanswer ⊢
    obtain ⟨answer, e'⟩ := next
    dsimp only at hanswer ⊢
    cases hstatus : e'.status.isTerminal with
    | false =>
      obtain rfl : answer = .proceed := hanswer.trans (Status.answer_eq_proceed_iff.2 hstatus)
      exact ih hstatus
    | true =>
      have hlast : answer ≠ .proceed := by
        rw [hanswer, Ne, Status.answer_eq_proceed_iff, hstatus]
        decide
      rw [after_of_terminal hstatus, if_pos hstatus, ← hanswer]
      cases answer with
      | proceed => contradiction
      | _ => rfl

theorem finish?_of_terminal {calls : Nat} (hopen : e.status.isTerminal = false)
    (h : (e.after n).status.isTerminal = true) (hle : n ≤ calls) :
    e.finish? calls = some ((e.after n).status.answer, e.after n) := by
  rw [finish?_eq_after calls hopen, after_eq_of_le h hle, if_pos h]

end Execution

namespace Machine

theorem run?_eq_result? (m : Machine) (patience : Nat) (inbox : List Value) (tiles : Tiles) :
    m.run? patience inbox tiles = ((m.start inbox tiles).after (m.calls patience)).result? := by
  have hopen : (m.start inbox tiles).status.isTerminal = false := rfl
  unfold run? Execution.result?
  rw [Execution.finish?_eq_after _ hopen]
  generalize (m.start inbox tiles).after (m.calls patience) = e
  cases hstatus : e.status <;> simp [Status.isTerminal, Status.answer]

variable {m : Machine} {inbox : List Value} {tiles : Tiles} {patience more : Nat}

theorem calls_le (m : Machine) (h : patience ≤ more) : m.calls patience ≤ m.calls more := by
  unfold calls
  split
  · exact Nat.le_refl _
  · exact h

/-- More patience does not change what a run gives. -/
theorem run?_of_le {result : Except RuntimeError (List Value)}
    (h : m.run? patience inbox tiles = some result) (hle : patience ≤ more) :
    m.run? more inbox tiles = some result := by
  rw [run?_eq_result?] at h ⊢
  rw [Execution.after_eq_of_le (Execution.isTerminal_of_result? h) (m.calls_le hle)]
  exact h

theorem isSome_run?_of_le (h : (m.run? patience inbox tiles).isSome = true)
    (hle : patience ≤ more) : (m.run? more inbox tiles).isSome = true := by
  obtain ⟨result, hresult⟩ := Option.isSome_iff_exists.1 h
  rw [run?_of_le hresult hle]
  rfl

end Machine
end TileMachine
