import TileMachine.Proofs.Machine.StepLimit

/-! The same run with more values in the inbox. Both executions go the same way until the
one with the shorter inbox asks for a value that it does not have: what is still unread
does not show in any step before. -/
namespace TileMachine

namespace State

def extend (s : State) (more : List Value) : State :=
  { s with inbox := s.inbox ++ more }

theorem plan_extend (s : State) (more : List Value) (length : Nat) {i : Instruction}
    (h : i.opcode ≠ .inbox) : (s.extend more).plan length i = s.plan length i := by
  obtain ⟨opcode, operand⟩ := i
  cases opcode with
  | inbox => contradiction
  | _ => cases operand <;> rfl

theorem apply_extend (s : State) (more : List Value) {length : Nat} {opcode : Opcode}
    {action : Action} (hop : opcode ≠ .inbox) (h : opcode.Makes length action) :
    action ≠ .stop ∧ (s.extend more).apply action = (s.apply action).extend more := by
  cases action with
  | stop => cases opcode <;> contradiction
  | take v rest => cases opcode <;> contradiction
  | _ => exact ⟨by simp, rfl⟩

theorem plansAlike_extend (s : State) (more : List Value) (length : Nat) {i : Instruction}
    (h : i.opcode = .inbox → s.inbox ≠ []) :
    PlansAlike (fun s t => t = s.extend more) s (s.extend more) (s.plan length i)
      ((s.extend more).plan length i) := by
  by_cases hop : i.opcode = .inbox
  · obtain ⟨opcode, operand⟩ := i
    cases hop
    cases hinbox : s.inbox with
    | nil => exact absurd hinbox (h rfl)
    | cons v rest =>
      have hplan : s.plan length ⟨.inbox, operand⟩ = .ok (.take v rest) := by
        simp only [plan, hinbox]
      have hplan' : (s.extend more).plan length ⟨.inbox, operand⟩ =
          .ok (.take v (rest ++ more)) := by
        simp only [plan, extend, hinbox, List.cons_append]
      rw [hplan, hplan']
      exact .action (by simp) (by simp) rfl
  · rw [plan_extend s more length hop]
    cases hplan : s.plan length i with
    | error cause => exact .error cause
    | ok action =>
      obtain ⟨hstop, happly⟩ := apply_extend s more hop (makes_of_plan hplan)
      exact .action hstop hstop happly

end State

namespace Execution

def extend (e : Execution) (more : List Value) : Execution :=
  { e with state := e.state.extend more }

variable {e f : Execution} {more : List Value}

theorem Lockstep.eq_extend (h : Lockstep (fun s t => t = s.extend more) e f)
    (hlimit : f.limit = e.limit) : f = e.extend more := by
  obtain ⟨program, limit, state, status, steps⟩ := f
  obtain ⟨rfl, rfl, rfl, rfl⟩ := h
  cases hlimit
  rfl

/-- More values change no step but one that finds the inbox empty. -/
theorem step_extend (more : List Value) (h : e.exhausted = none → ¬e.Starves) :
    (e.extend more).step.2 = e.step.2.extend more := by
  have hlock : Lockstep (fun s t => t = s.extend more) e (e.extend more) := ⟨rfl, rfl, rfl, rfl⟩
  have hnext : Lockstep (fun s t => t = s.extend more) e.step.2 (e.extend more).step.2 := by
    apply hlock.step
    · intro s t hst
      rw [hst]
      rfl
    · intro i _
      rfl
    · intro i hi hlimit
      apply State.plansAlike_extend
      intro hop hinbox
      exact h hlimit ⟨hinbox, i, hi, hop⟩
  apply hnext.eq_extend
  rw [(step_program _).2, (step_program _).2]
  rfl

theorem outbox_prefix_step (e : Execution) : e.outbox <+: e.step.2.outbox := by
  have hstep := e.stepsTo
  generalize e.step = next at hstep ⊢
  cases hstep with
  | @proceeds i action => exact e.state.outbox_prefix_apply action
  | @finishes i action => exact e.state.outbox_prefix_apply action
  | _ => exact List.prefix_refl _

/-- An execution and the one with more values in the inbox. They differ only if the first
has ended for want of a value. -/
structure Trails (more : List Value) (e f : Execution) : Prop where
  same : ¬(e.status = .halted ∧ e.Starves) → f = e.extend more
  outbox : e.outbox <+: f.outbox

theorem Trails.same_of_open (h : Trails more e f) (hopen : e.status.isTerminal = false) :
    f = e.extend more := by
  apply h.same
  intro hended
  rw [hended.1] at hopen
  contradiction

theorem Trails.step (h : Trails more e f) : Trails more e.step.2 f.step.2 := by
  cases hopen : e.status.isTerminal with
  | true =>
    rw [step_terminal hopen]
    refine ⟨fun hfed => ?_, h.outbox.trans f.outbox_prefix_step⟩
    have hsame := h.same hfed
    rwa [step_terminal (hsame ▸ hopen)]
  | false =>
    obtain rfl := h.same_of_open hopen
    by_cases hstarves : e.exhausted = none ∧ e.Starves
    · have hstep := step_of_starves hstarves.2 hopen hstarves.1
      refine ⟨fun hfed => ?_, ?_⟩
      · rw [hstep] at hfed
        exact absurd ⟨rfl, hstarves.2⟩ hfed
      · rw [hstep]
        exact (e.extend more).outbox_prefix_step
    · have hstep := step_extend more fun hlimit hs => hstarves ⟨hlimit, hs⟩
      rw [hstep]
      exact ⟨fun _ => rfl, List.prefix_refl _⟩

theorem Trails.after (h : Trails more e f) (n : Nat) : Trails more (e.after n) (f.after n) := by
  induction n with
  | zero => exact h
  | succ n ih => exact ih.step

theorem Trails.result?_eq_error {error : RuntimeError} (h : Trails more e f)
    (herror : e.result? = some (.error error)) : f.result? = some (.error error) := by
  rw [result?_eq_error_iff] at herror
  rw [h.same (by simp [herror])]
  exact result?_eq_error_iff.2 herror

theorem Trails.exists_result? {longer : List Value} (h : Trails more e f)
    (hended : e.status.isTerminal = true) (hlonger : f.result? = some (.ok longer)) :
    ∃ shorter, e.result? = some (.ok shorter) ∧ shorter <+: longer := by
  cases hstatus : e.status with
  | halted =>
    rw [← (result?_eq_ok_iff.1 hlonger).2]
    exact ⟨_, result?_eq_ok_iff.2 ⟨hstatus, rfl⟩, h.outbox⟩
  | failed error =>
    rw [h.result?_eq_error (result?_eq_error_iff.2 hstatus)] at hlonger
    cases hlonger
  | _ =>
    rw [hstatus] at hended
    contradiction

end Execution

namespace Machine
open Execution

/-- Values added to the inbox rewrite nothing. What failed fails with the same error, and
what was delivered stays. Both executions agree, but for the values that wait, while the
one with the shorter inbox goes on, and in the step with which it ends unless it finds
the inbox empty. -/
theorem run?_append_inbox (m : Machine) (limit patience : Nat) (inbox more : List Value)
    (tiles : Tiles) :
    let bounded := m.withLimit (some limit)
    let short := bounded.start inbox tiles
    let long := bounded.start (inbox ++ more) tiles
    (∀ error, bounded.run? patience inbox tiles = some (.error error) →
      bounded.run? patience (inbox ++ more) tiles = some (.error error)) ∧
    (∀ longer, bounded.run? patience (inbox ++ more) tiles = some (.ok longer) →
      ∃ shorter, bounded.run? patience inbox tiles = some (.ok shorter) ∧ shorter <+: longer) ∧
    (∀ n, (short.after n).status.isTerminal = false →
      long.after n = (short.after n).extend more) ∧
    ∀ n, ¬((short.after (n + 1)).status = .halted ∧ (short.after (n + 1)).Starves) →
      (long.after n).step.1 = (short.after n).step.1 ∧
        long.after (n + 1) = (short.after (n + 1)).extend more := by
  intro bounded short long
  have htrails : Trails more short long := ⟨fun _ => rfl, List.prefix_refl _⟩
  have hlast := htrails.after (limit + 1)
  have hended : (short.after (limit + 1)).status.isTerminal = true :=
    isTerminal_after_withLimit (e := (m.withLimit none).start inbox tiles) rfl rfl limit
  have hrun (values : List Value) : bounded.run? patience values tiles =
      ((bounded.start values tiles).after (limit + 1)).result? :=
    run?_eq_result? bounded patience values tiles
  refine ⟨fun error => ?_, fun longer => ?_, fun n hopen => ?_, fun n hfed => ?_⟩
  · rw [hrun, hrun]
    exact hlast.result?_eq_error
  · rw [hrun, hrun]
    exact hlast.exists_result? hended
  · exact (htrails.after n).same_of_open hopen
  · have hsame := (htrails.after (n + 1)).same hfed
    refine ⟨?_, hsame⟩
    rw [step_answer, step_answer]
    exact congrArg (·.status.answer) hsame

theorem run?_append_inbox_alternate :
    let m : Machine :=
      ⟨⟨#[⟨.inbox, .nothing⟩, ⟨.outbox, .nothing⟩, ⟨.inbox, .nothing⟩, ⟨.jump, .label "in" 0⟩],
        (∅ : Labels) |>.insert "in" 0, #[]⟩, none, by decide +kernel⟩
    let bounded := m.withLimit (some 7)
    let first : List Value := [.int 1]
    let more : List Value := [.letter 'B', .int 3]
    bounded.run? 0 (first ++ more) ∅ = some (.ok [.int 1, .int 3]) ∧
      ∃ shorter, bounded.run? 0 first ∅ = some (.ok shorter) ∧ shorter <+: [.int 1, .int 3] := by
  intro m bounded first more
  have hrun : bounded.run? 0 (first ++ more) ∅ = some (.ok [.int 1, .int 3]) := by
    rw [run?_eq_result?, result?_eq_ok_iff]
    decide +kernel
  exact ⟨hrun, (run?_append_inbox m 7 0 first more ∅).2.1 _ hrun⟩

end Machine
end TileMachine
