import TileMachine.Proofs.Machine.InPlace

/-! Every check of an instruction comes before its first write. So a step that fails, or
finds the inbox empty, leaves the state as it was. -/
namespace TileMachine

namespace Device

/-- What a failed step leaves behind: the state as it was, and a count that includes the
instruction unless the limit forbade it. -/
structure Untouched (d : Device) (failure : Failure) (d' : Device) : Prop where
  state : d'.state = d.state
  limit : ∀ limit, failure = .tooManySteps limit → failure.index? = none ∧ d'.steps = d.steps
  fault : (∀ limit, failure ≠ .tooManySteps limit) →
    failure.index? = some d.state.ip ∧ d'.steps = d.steps + 1

def Starves (d : Device) : Prop :=
  d.state.inbox = [] ∧ ∃ i, d.program.instructions[d.state.ip]? = some i ∧ i.opcode = .inbox

end Device

namespace Execution

variable {e : Execution} {error : RuntimeError}

theorem isTerminal_of_first_failure {n : Nat} (hopen : e.status.isTerminal = false)
    (hfirst : ∀ k < n, ∀ earlier, (e.after k).step.1 ≠ .failed earlier)
    (h : (e.after n).step.1 = .failed error) : (e.after n).status.isTerminal = false := by
  cases hended : (e.after n).status.isTerminal with
  | false => rfl
  | true =>
    -- The failure that is repeated here was already the answer of the step before.
    rw [step_of_terminal hended] at h
    cases n with
    | zero =>
      rw [after, hopen] at hended
      contradiction
    | succ n =>
      rw [after, ← step_answer] at h
      exact absurd h (hfirst n (Nat.lt_succ_self n) error)

theorem untouched_of_failed (hopen : e.status.isTerminal = false)
    (h : e.step.1 = .failed error) : e.device.Untouched error.failure e.step.2.device := by
  have hstep := e.stepsTo
  generalize e.step = next at hstep h ⊢
  cases hstep with
  | rests hended => rw [hopen] at hended; contradiction
  | limit =>
    cases h
    exact ⟨rfl, fun _ _ => ⟨rfl, rfl⟩, fun hnot => absurd rfl (hnot _)⟩
  | @fault _ cause =>
    cases h
    exact ⟨rfl, fun limit heq => absurd heq (cause.raise_ne_tooManySteps _ limit),
      fun _ => ⟨cause.index?_raise _, rfl⟩⟩
  | _ => contradiction

theorem state_step_of_starves (h : e.Starves) : e.step.2.state = e.state := by
  cases hopen : e.status.isTerminal with
  | true => rw [step_terminal hopen]
  | false =>
    cases hlimit : e.exhausted with
    | none =>
      rw [step_of_starves h hopen hlimit]
      rfl
    | some limit =>
      obtain ⟨-, i, hi, -⟩ := h
      rw [step_open hopen, advance_exhausted hi hlimit]
      rfl

end Execution

namespace Machine
open Execution

/-- Failure is atomic, although the state is written to while an instruction is carried
out. The step of a run that is the first to fail leaves the state as it was, names the
instruction unless the limit is at fault, and counts it in just that case; nor does a step
that halts for want of a value change the state. -/
theorem untouched_of_first_failure (m : Machine) (inbox : List Value) (tiles : Tiles) (n : Nat) :
    let start := m.device inbox tiles
    let d := start.after n
    let e := (m.start inbox tiles).after n
    (∀ failure, (∀ k < n, ∀ earlier, (start.after k).step.1 ≠ .failed earlier) →
      d.step.1 = .failed failure → d.Untouched failure d.step.2) ∧
    (d.Starves → d.step.1 = .halted → d.step.2.state = d.state) ∧
    d = e.device ∧ d.step = (e.step.1.reply, e.step.2.device) := by
  intro start d e
  have hafter (k : Nat) : start.after k = ((m.start inbox tiles).after k).device :=
    (m.start inbox tiles).after_device k
  have hd : d = e.device := hafter n
  have hstep : d.step = (e.step.1.reply, e.step.2.device) := by rw [hd, step_device]
  refine ⟨fun failure hfirst hfailed => ?_, fun hstarves _ => ?_, hd, hstep⟩
  · rw [hstep] at hfailed ⊢
    obtain ⟨error, herror, rfl⟩ := Step.reply_eq_failed_iff.1 hfailed
    have hopen : e.status.isTerminal = false := by
      refine isTerminal_of_first_failure rfl (fun k hk earlier hearlier => ?_) herror
      apply hfirst k hk earlier.failure
      rw [hafter k, step_device, hearlier]
      rfl
    rw [hd]
    exact untouched_of_failed hopen herror
  · rw [hstep]
    rw [hd] at hstarves ⊢
    exact state_step_of_starves hstarves

/-- The tile that a pointer leads to is as large as can be: nothing is written before the
overflow is found. -/
theorem untouched_of_overflow :
    let m : Machine :=
      ⟨⟨#[⟨.inbox, .nothing⟩, ⟨.bumpup, .tile (.indirect 0)⟩], ∅, #[]⟩, some 5, by decide +kernel⟩
    let tiles : Tiles := (∅ : Tiles) |>.insert 0 (some (.int 2)) |>.insert 1 none
      |>.insert 2 (some (.int 9223372036854775807))
    let d := (m.device [.letter 'A', .int 1] tiles).after 1
    d.step.1 = .failed (.overflow 1) ∧ d.Untouched (.overflow 1) d.step.2 := by
  intro m tiles d
  have hfailed : d.step.1 = .failed (.overflow 1) := by decide +kernel
  refine ⟨hfailed, (untouched_of_first_failure m _ tiles 1).1 _ (fun k hk earlier => ?_) hfailed⟩
  obtain rfl : k = 0 := by omega
  have hproceed : ((m.device [.letter 'A', .int 1] tiles).after 0).step.1 = .proceed := by
    decide +kernel
  rw [hproceed]
  simp

end Machine
end TileMachine
