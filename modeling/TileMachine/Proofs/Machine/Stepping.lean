import TileMachine.Machine

/-! The ways in which a step can go, and what it depends on: the instructions of
the program, but neither its labels nor its line table. -/
namespace TileMachine
namespace Execution

variable {e : Execution} {i : Instruction} {q : Program}

theorem advance_at_end (h : e.program.instructions[e.state.ip]? = none) : e.advance = e.halt := by
  unfold advance
  rw [h]

theorem advance_exhausted {limit : Nat} (h : e.program.instructions[e.state.ip]? = some i)
    (hlimit : e.exhausted = some limit) : e.advance = e.fail (.tooManySteps limit) := by
  unfold advance
  rw [h, hlimit]

theorem advance_fault {cause : Fault} (h : e.program.instructions[e.state.ip]? = some i)
    (hlimit : e.exhausted = none) (hplan : e.state.plan e.program.length i = .error cause) :
    e.advance = e.count.fail (.fault e.state.ip cause) := by
  unfold advance
  rw [h, hlimit]
  dsimp only
  rw [hplan]

theorem advance_action {action : Action} (h : e.program.instructions[e.state.ip]? = some i)
    (hlimit : e.exhausted = none) (hplan : e.state.plan e.program.length i = .ok action) :
    e.advance = e.count.settle action := by
  unfold advance
  rw [h, hlimit]
  dsimp only
  rw [hplan]

theorem step_open (h : e.status.isTerminal = false) : e.step = e.advance := by
  unfold step
  cases hstatus : e.status with
  | ready => rfl
  | running => rfl
  | halted => rw [hstatus] at h; contradiction
  | failed error => rw [hstatus] at h; contradiction

theorem step_terminal (h : e.status.isTerminal = true) : e.step.2 = e := by
  unfold step
  cases hstatus : e.status with
  | ready => rw [hstatus] at h; contradiction
  | running => rw [hstatus] at h; contradiction
  | halted => rfl
  | failed error => rfl

/-! ### Another program with the same instructions -/

def withProgram (e : Execution) (q : Program) : Execution :=
  { e with program := q }

theorem settle_withProgram (e : Execution) (action : Action) (h : q.length = e.program.length) :
    (e.withProgram q).settle action =
      ((e.settle action).1, (e.settle action).2.withProgram q) := by
  by_cases hgo : action ≠ .stop ∧ (e.state.apply action).ip < e.program.length
  · have hgo' : action ≠ .stop ∧ (e.state.apply action).ip < q.length := h ▸ hgo
    rw [settle, settle, if_pos hgo]
    exact if_pos hgo'
  · have hgo' : ¬(action ≠ .stop ∧ (e.state.apply action).ip < q.length) := h ▸ hgo
    rw [settle, settle, if_neg hgo]
    exact if_neg hgo'

theorem advance_withProgram (e : Execution) (h : q.instructions = e.program.instructions) :
    (e.withProgram q).advance = (e.advance.1, e.advance.2.withProgram q) := by
  have hlength : q.length = e.program.length := congrArg Array.size h
  have hget : (e.withProgram q).program.instructions[e.state.ip]? =
      e.program.instructions[e.state.ip]? := congrArg (·[e.state.ip]?) h
  cases hi : e.program.instructions[e.state.ip]? with
  | none =>
    rw [advance_at_end hi, advance_at_end (hget.trans hi)]
    rfl
  | some i =>
    cases hlimit : e.exhausted with
    | some limit =>
      rw [advance_exhausted hi hlimit, advance_exhausted (hget.trans hi) hlimit]
      rfl
    | none =>
      have hplans : (e.withProgram q).state.plan (e.withProgram q).program.length i =
          e.state.plan e.program.length i := congrArg (e.state.plan · i) hlength
      cases hplan : e.state.plan e.program.length i with
      | error cause =>
        rw [advance_fault hi hlimit hplan,
          advance_fault (hget.trans hi) hlimit (hplans.trans hplan)]
        rfl
      | ok action =>
        rw [advance_action hi hlimit hplan,
          advance_action (hget.trans hi) hlimit (hplans.trans hplan)]
        exact settle_withProgram e.count action hlength

theorem step_withProgram (e : Execution) (h : q.instructions = e.program.instructions) :
    (e.withProgram q).step = (e.step.1, e.step.2.withProgram q) := by
  cases hstatus : e.status with
  | ready =>
    have hopen : e.status.isTerminal = false := by rw [hstatus]; rfl
    rw [step_open hopen, ← advance_withProgram e h]
    exact step_open hopen
  | running =>
    have hopen : e.status.isTerminal = false := by rw [hstatus]; rfl
    rw [step_open hopen, ← advance_withProgram e h]
    exact step_open hopen
  | halted =>
    simp only [step, withProgram, hstatus]
  | failed error =>
    simp only [step, withProgram, hstatus]

/-! ### What no step changes -/

theorem settle_program (e : Execution) (action : Action) :
    (e.settle action).2.program = e.program ∧ (e.settle action).2.limit = e.limit ∧
      (e.settle action).2.steps = e.steps := by
  by_cases hgo : action ≠ .stop ∧ (e.state.apply action).ip < e.program.length
  · rw [settle, if_pos hgo]
    exact ⟨rfl, rfl, rfl⟩
  · rw [settle, if_neg hgo]
    exact ⟨rfl, rfl, rfl⟩

theorem advance_program (e : Execution) :
    e.advance.2.program = e.program ∧ e.advance.2.limit = e.limit := by
  cases hi : e.program.instructions[e.state.ip]? with
  | none =>
    rw [advance_at_end hi]
    exact ⟨rfl, rfl⟩
  | some i =>
    cases hlimit : e.exhausted with
    | some limit =>
      rw [advance_exhausted hi hlimit]
      exact ⟨rfl, rfl⟩
    | none =>
      cases hplan : e.state.plan e.program.length i with
      | error cause =>
        rw [advance_fault hi hlimit hplan]
        exact ⟨rfl, rfl⟩
      | ok action =>
        rw [advance_action hi hlimit hplan]
        exact ⟨(settle_program e.count action).1, (settle_program e.count action).2.1⟩

theorem step_program (e : Execution) :
    e.step.2.program = e.program ∧ e.step.2.limit = e.limit := by
  cases hopen : e.status.isTerminal with
  | false =>
    rw [step_open hopen]
    exact advance_program e
  | true =>
    rw [step_terminal hopen]
    exact ⟨rfl, rfl⟩

/-! ### Runs -/

theorem finish?_withProgram (calls : Nat) (e : Execution)
    (h : q.instructions = e.program.instructions) : (e.withProgram q).finish? calls =
      (e.finish? calls).map fun last => (last.1, last.2.withProgram q) := by
  induction calls generalizing e with
  | zero => rfl
  | succ calls ih =>
    have hnext := (step_program e).1
    rw [finish?, finish?, step_withProgram e h]
    generalize e.step = next at hnext ⊢
    obtain ⟨answer, e'⟩ := next
    cases answer with
    | proceed => exact ih e' (hnext ▸ h)
    | halted => rfl
    | failed error => rfl

end Execution

theorem Machine.run?_congr {m m' : Machine} (patience : Nat) (inbox : List Value) (tiles : Tiles)
    (hlimit : m'.limit = m.limit) (h : m'.program.instructions = m.program.instructions) :
    m'.run? patience inbox tiles = m.run? patience inbox tiles := by
  have hstart : m'.start inbox tiles = (m.start inbox tiles).withProgram m'.program := by
    rw [start, hlimit]
    rfl
  have hcalls : m'.calls patience = m.calls patience := by rw [calls, calls, hlimit]
  unfold run?
  rw [hstart, hcalls, Execution.finish?_withProgram _ _ h, Option.map_map]
  congr 1
  funext last
  obtain ⟨answer, e⟩ := last
  cases answer <;> rfl

end TileMachine
