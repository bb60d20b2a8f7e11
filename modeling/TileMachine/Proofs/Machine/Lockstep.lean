import TileMachine.Proofs.Machine.Runs

/-! Two executions side by side. While their plans agree up to a relation between the
two states, they give the same answers and their states stay related. -/
namespace TileMachine

inductive State.PlansAlike (R : State → State → Prop) (s t : State) :
    Except Fault Action → Except Fault Action → Prop where
  | error (cause : Fault) : PlansAlike R s t (.error cause) (.error cause)
  | stop : PlansAlike R s t (.ok .stop) (.ok .stop)
  | action {a b : Action} : a ≠ .stop → b ≠ .stop → R (s.apply a) (t.apply b) →
      PlansAlike R s t (.ok a) (.ok b)

theorem State.plansAlike_of_apply {R : State → State → Prop} {s t : State}
    (happly : ∀ action, R (s.apply action) (t.apply action)) (plan : Except Fault Action) :
    PlansAlike R s t plan plan := by
  cases plan with
  | error cause => exact .error cause
  | ok a =>
    by_cases ha : a = .stop
    · rw [ha]
      exact .stop
    · exact .action ha ha (happly a)

theorem State.plansAlike_refl (s : State) (plan : Except Fault Action) :
    PlansAlike (· = ·) s s plan plan :=
  plansAlike_of_apply (fun _ => rfl) plan

/-! ### What a plan depends on -/

namespace State

variable {s t : State} {i : Instruction}

/-- All that an instruction looks at is the same in both states: the hands, the inbox, and
the tile that its address leads to. -/
structure SeenAlike (i : Instruction) (s t : State) : Prop where
  hands : t.hands = s.hands
  inbox : t.inbox = s.inbox
  locate : ∀ a, i.operand = .tile a → t.locate a = s.locate a
  tile : ∀ a n, i.operand = .tile a → s.locate a = .ok n → t.readTile n = s.readTile n

theorem held_congr (h : t.hands = s.hands) : t.held = s.held := by
  unfold held
  rw [h]

theorem SeenAlike.bind_readTile {α : Type} (h : SeenAlike i s t) {a : Address}
    (ha : i.operand = .tile a) (next : Nat → Value → Except Fault α) :
    (t.locate a >>= fun n => t.readTile n >>= next n) =
      s.locate a >>= fun n => s.readTile n >>= next n := by
  rw [h.locate a ha]
  cases hn : s.locate a with
  | error cause => rfl
  | ok n =>
    change t.readTile n >>= next n = s.readTile n >>= next n
    rw [h.tile a n ha hn]

theorem SeenAlike.load_eq (h : SeenAlike i s t) {a : Address} (ha : i.operand = .tile a) :
    t.load a = s.load a := by
  have hread := h.bind_readTile ha fun _ v => pure v
  simpa only [load, bind_pure] using hread

theorem SeenAlike.planBump_eq (h : SeenAlike i s t) {a : Address} (ha : i.operand = .tile a)
    (delta : Int) (refuse : Value → Fault) :
    t.planBump a delta refuse = s.planBump a delta refuse :=
  h.bind_readTile ha _

theorem SeenAlike.plan_eq (h : SeenAlike i s t) (length : Nat) :
    t.plan length i = s.plan length i := by
  have hheld := held_congr h.hands
  obtain ⟨opcode, operand⟩ := i
  cases operand with
  | tile a =>
    cases opcode <;>
      simp only [plan, planAdd, planSub, hheld, h.inbox, h.load_eq rfl, h.locate a rfl,
        h.planBump_eq rfl]
  | _ => cases opcode <;> simp only [plan, hheld, h.inbox]

end State

namespace Execution
open State (PlansAlike)

/-- Two executions that have come equally far, in related states. Their limits may
differ. -/
structure Lockstep (R : State → State → Prop) (e f : Execution) : Prop where
  program : f.program = e.program
  steps : f.steps = e.steps
  status : f.status = e.status
  state : R e.state f.state

variable {R : State → State → Prop} {e f : Execution}

theorem Lockstep.step (h : Lockstep R e f) (hip : ∀ s t, R s t → t.ip = s.ip)
    (hlimit : ∀ i, e.program.instructions[e.state.ip]? = some i → f.exhausted = e.exhausted)
    (hplans : ∀ i, e.program.instructions[e.state.ip]? = some i → e.exhausted = none →
      PlansAlike R e.state f.state (e.state.plan e.program.length i)
        (f.state.plan e.program.length i)) :
    Lockstep R e.step.2 f.step.2 := by
  cases hopen : e.status.isTerminal with
  | true =>
    rw [step_terminal hopen, step_terminal (h.status ▸ hopen)]
    exact h
  | false =>
    have hat : f.program.instructions[f.state.ip]? = e.program.instructions[e.state.ip]? := by
      rw [h.program, hip _ _ h.state]
    have hcount : f.count.steps = e.count.steps := congrArg (· + 1) h.steps
    rw [step_open hopen, step_open (h.status ▸ hopen)]
    cases hi : e.program.instructions[e.state.ip]? with
    | none =>
      rw [advance_at_end hi, advance_at_end (hat.trans hi)]
      exact ⟨h.program, h.steps, rfl, h.state⟩
    | some i =>
      cases hexhausted : e.exhausted with
      | some limit =>
        have hexhausted' := (hlimit i hi).trans hexhausted
        rw [advance_exhausted hi hexhausted, advance_exhausted (hat.trans hi) hexhausted']
        exact ⟨h.program, h.steps, rfl, h.state⟩
      | none =>
        have hexhausted' := (hlimit i hi).trans hexhausted
        have halike := hplans i hi hexhausted
        generalize hplan : e.state.plan e.program.length i = plan at halike
        generalize hplan' : f.state.plan e.program.length i = plan' at halike
        rw [← h.program] at hplan'
        cases halike with
        | error cause =>
          rw [advance_fault hi hexhausted hplan, advance_fault (hat.trans hi) hexhausted' hplan',
            hip _ _ h.state]
          exact ⟨h.program, hcount, rfl, h.state⟩
        | stop =>
          rw [advance_action hi hexhausted hplan, advance_action (hat.trans hi) hexhausted' hplan',
            settle_stop, settle_stop]
          exact ⟨h.program, hcount, rfl, h.state⟩
        | @action a b ha hb hstate =>
          rw [advance_action hi hexhausted hplan, advance_action (hat.trans hi) hexhausted' hplan']
          by_cases hgo : (e.state.apply a).ip < e.program.length
          · have hgo' : (f.state.apply b).ip < f.program.length := by
              rwa [h.program, hip _ _ hstate]
            rw [settle_proceeds (e := e.count) ha hgo, settle_proceeds (e := f.count) hb hgo']
            exact ⟨h.program, hcount, rfl, hstate⟩
          · rw [Nat.not_lt] at hgo
            have hgo' : f.program.length ≤ (f.state.apply b).ip := by
              rwa [h.program, hip _ _ hstate]
            rw [settle_finishes (e := e.count) (.inr hgo),
              settle_finishes (e := f.count) (.inr hgo')]
            exact ⟨h.program, hcount, rfl, hstate⟩

theorem Lockstep.exhausted_eq (h : Lockstep R e f) (hlimit : f.limit = e.limit) :
    f.exhausted = e.exhausted := by
  unfold exhausted
  rw [hlimit, h.steps]

theorem Lockstep.answer_eq (h : Lockstep R e.step.2 f.step.2) : f.step.1 = e.step.1 := by
  rw [step_answer, step_answer, h.status]

/-- Under the same limit, two executions stay in step for good if no instruction of the
program tells related states apart. -/
theorem Lockstep.after (h : Lockstep R e f) (hlimit : f.limit = e.limit)
    (hip : ∀ s t, R s t → t.ip = s.ip)
    (hplans : ∀ i ∈ e.program.instructions, ∀ s t, R s t →
      PlansAlike R s t (s.plan e.program.length i) (t.plan e.program.length i)) (n : Nat) :
    Lockstep R (e.after n) (f.after n) := by
  induction n with
  | zero => exact h
  | succ n ih =>
    have he := e.after_program n
    have hf := f.after_program n
    have hsame : (f.after n).limit = (e.after n).limit := by rw [hf.2, he.2, hlimit]
    apply ih.step hip
    · intro i _
      exact ih.exhausted_eq hsame
    · intro i hi _
      rw [he.1] at hi ⊢
      exact hplans i (Array.mem_of_getElem? hi) _ _ ih.state

end Execution
end TileMachine
