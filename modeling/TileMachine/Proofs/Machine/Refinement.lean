import TileMachine.Proofs.Machine.Planning
import TileMachine.Proofs.Machine.Stepping
import TileMachine.Proofs.Program.Validity

/-! Runs of the bounded machine and of the one over exact integers. After any number
of steps both are in the same state, and the next step fails exactly if the
operation table has no row for it or its result is out of range. -/
namespace TileMachine

namespace Execution

def after (e : Execution) : Nat → Execution
  | 0 => e
  | n + 1 => (e.after n).step.2

theorem settle_stop (e : Execution) : e.settle .stop = e.halt := by
  rw [settle, if_neg (by simp)]
  rfl

theorem settle_state (e : Execution) (action : Action) :
    (e.settle action).2.state = e.state.apply action := by
  by_cases hgo : action ≠ .stop ∧ (e.state.apply action).ip < e.program.length
  · rw [settle, if_pos hgo]
  · rw [settle, if_neg hgo]
    rfl

theorem settle_answer (e : Execution) {action : Action} (h : action ≠ .stop) :
    (e.settle action).1 =
      if (e.state.apply action).ip < e.program.length then .proceed else .halted := by
  by_cases hip : (e.state.apply action).ip < e.program.length
  · rw [settle, if_pos ⟨h, hip⟩, if_pos hip]
  · rw [settle, if_neg fun hgo => hip hgo.2, if_neg hip]
    rfl

theorem exhausted_eq_some_iff {e : Execution} {limit : Nat} :
    e.exhausted = some limit ↔ e.limit = some limit ∧ limit ≤ e.steps := by
  simp [exhausted, Option.filter_eq_some_iff]

theorem exhausted_eq_none_iff {e : Execution} :
    e.exhausted = none ↔ ∀ limit, e.limit = some limit → e.steps < limit := by
  simp [exhausted, Option.filter_eq_none_iff]

end Execution

namespace Machine
open Reference (Steps)
open Reference.State (Moves Allows)

variable {m : Machine} {e : Execution} {n : Nat} {i : Instruction} {origin : Reference.State}

def MayStep (m : Machine) (n : Nat) : Prop :=
  ∀ limit, m.limit = some limit → n < limit

structure Open (m : Machine) (n : Nat) (e : Execution) : Prop where
  program : e.program = m.program
  limit : e.limit = m.limit
  steps : e.steps = n
  status : e.status.isTerminal = false

theorem wellFormed (m : Machine) (hi : i ∈ m.program.instructions) : i.WellFormed :=
  ((Program.errors_eq_nil_iff.1 m.valid).2 i hi).1

theorem planned (m : Machine) (s : State) (hi : i ∈ m.program.instructions) :
    State.Planned m.program.length s i (s.plan m.program.length i) :=
  State.planned (m.wellFormed hi) fun _ _ => Program.target_le_length m.valid hi

theorem Open.exhausted_eq_some_iff (h : m.Open n e) {limit : Nat} :
    e.exhausted = some limit ↔ m.limit = some limit ∧ limit ≤ n := by
  rw [Execution.exhausted_eq_some_iff, h.limit, h.steps]

theorem Open.exhausted_eq_none_iff (h : m.Open n e) : e.exhausted = none ↔ m.MayStep n := by
  rw [Execution.exhausted_eq_none_iff, h.limit, h.steps]
  rfl

inductive Answers (m : Machine) (n : Nat) (e : Execution) : Step × Execution → Prop where
  | ends : m.program.instructions[e.state.ip]? = none → Answers m n e e.halt
  | limit {i : Instruction} {limit : Nat} : m.program.instructions[e.state.ip]? = some i →
      m.limit = some limit → limit ≤ n → Answers m n e (e.fail (.tooManySteps limit))
  | fault {i : Instruction} {cause : Fault} : m.program.instructions[e.state.ip]? = some i →
      m.MayStep n → e.state.view.fault? i = some cause →
      Answers m n e (e.count.fail (.fault e.state.ip cause))
  | stop {i : Instruction} : m.program.instructions[e.state.ip]? = some i → m.MayStep n →
      e.state.view.Halts i → Answers m n e e.count.halt
  | action {i : Instruction} {action : Action} : m.program.instructions[e.state.ip]? = some i →
      m.MayStep n → action ≠ .stop →
      Moves m.program.length e.state.view i (e.state.apply action).view →
      (∀ k, e.state.view.result? i = some k → Decimal.InRange k) →
      Answers m n e (e.count.settle action)

theorem Open.answers (h : m.Open n e) : m.Answers n e e.step := by
  rw [Execution.step_open h.status]
  cases hi : m.program.instructions[e.state.ip]? with
  | none =>
    rw [Execution.advance_at_end (h.program ▸ hi)]
    exact .ends hi
  | some i =>
    have hi' : e.program.instructions[e.state.ip]? = some i := h.program ▸ hi
    have hmem : i ∈ m.program.instructions := Array.mem_of_getElem? hi
    cases hlimit : e.exhausted with
    | some limit =>
      obtain ⟨hsome, hle⟩ := h.exhausted_eq_some_iff.1 hlimit
      rw [Execution.advance_exhausted hi' hlimit]
      exact .limit hi hsome hle
    | none =>
      have hmay := h.exhausted_eq_none_iff.1 hlimit
      have hplanned := m.planned e.state hmem
      rw [← h.program] at hplanned
      generalize hplan : e.state.plan e.program.length i = plan at hplanned
      cases hplanned with
      | fault hfault =>
        rw [Execution.advance_fault hi' hlimit hplan]
        exact .fault hi hmay hfault
      | stop hhalts =>
        rw [Execution.advance_action hi' hlimit hplan, Execution.settle_stop]
        exact .stop hi hmay hhalts
      | action hstop hmoves hrange =>
        rw [Execution.advance_action hi' hlimit hplan]
        exact .action hi hmay hstop (h.program ▸ hmoves) hrange

/-! ### The next step -/

/-- How the step that carries out an instruction relates to the operation table. The
limit is tested before everything else. -/
structure NextStep (m : Machine) (n : Nat) (e : Execution) (i : Instruction) : Prop where
  limit : ∀ limit, e.step.1 = .failed (.tooManySteps limit) ↔ m.limit = some limit ∧ limit ≤ n
  fails : m.MayStep n → ((∃ error, e.step.1 = .failed error) ↔
    ¬Allows m.program.length e.state.view i ∨
      ∃ k, e.state.view.result? i = some k ∧ ¬Decimal.InRange k)
  fault : m.MayStep n → ∀ error, e.step.1 = .failed error ↔
    ∃ cause, error = .fault e.state.ip cause ∧ e.state.view.fault? i = some cause
  overflow : m.MayStep n → (e.step.1 = .failed (.fault e.state.ip .overflow) ↔
    ∃ k, e.state.view.result? i = some k ∧ ¬Decimal.InRange k)
  unchanged : ∀ error, e.step.1 = .failed error → e.step.2.state = e.state
  succeeds : (∀ error, e.step.1 ≠ .failed error) →
    e.state.view.Halts i ∧ e.step.1 = .halted ∧ e.step.2.state = e.state ∨
      Moves m.program.length e.state.view i e.step.2.state.view ∧
        e.step.1 = if e.step.2.state.ip < m.program.length then .proceed else .halted

theorem Answers.fault_or_allows {next : Step × Execution} (h : m.Answers n e next)
    (hi : m.program.instructions[e.state.ip]? = some i) (hmay : m.MayStep n) :
    (∃ cause, next.1 = .failed (.fault e.state.ip cause) ∧ e.state.view.fault? i = some cause) ∨
      (∀ error, next.1 ≠ .failed error) ∧ e.state.view.fault? i = none ∧
        Allows m.program.length e.state.view i := by
  have hformed := m.wellFormed (Array.mem_of_getElem? hi)
  cases h with
  | ends hnone => rw [hi] at hnone; contradiction
  | limit _ hlimit hle => exact absurd (hmay _ hlimit) (Nat.not_lt.2 hle)
  | fault hj _ hfault =>
    rw [hi, Option.some.injEq] at hj
    exact .inl ⟨_, rfl, hj ▸ hfault⟩
  | stop hj _ hhalts =>
    rw [hi, Option.some.injEq] at hj
    subst hj
    refine .inr ⟨fun error herror => ?_, hhalts.fault?_eq_none hformed, .inl hhalts⟩
    cases herror
  | action hj _ hstop hmoves hrange =>
    rw [hi, Option.some.injEq] at hj
    subst hj
    have hallows : Allows m.program.length e.state.view i := .inr ⟨_, hmoves⟩
    refine .inr ⟨fun error => ?_, hallows.fault?_eq_none hformed hrange, hallows⟩
    rw [Execution.settle_answer _ hstop]
    split <;> simp

theorem Open.step_of_limit (h : m.Open n e) (hi : m.program.instructions[e.state.ip]? = some i)
    {limit : Nat} (hlimit : m.limit = some limit) (hle : limit ≤ n) :
    e.step = e.fail (.tooManySteps limit) := by
  have hexhausted := h.exhausted_eq_some_iff.2 ⟨hlimit, hle⟩
  rw [Execution.step_open h.status, Execution.advance_exhausted (h.program ▸ hi) hexhausted]

theorem Open.limit_iff (h : m.Open n e) (hi : m.program.instructions[e.state.ip]? = some i)
    (limit : Nat) :
    e.step.1 = .failed (.tooManySteps limit) ↔ m.limit = some limit ∧ limit ≤ n := by
  constructor
  · intro hstep
    by_cases hmay : m.MayStep n
    · rcases h.answers.fault_or_allows hi hmay with ⟨cause, hfault, -⟩ | ⟨hnot, -⟩
      · rw [hfault] at hstep
        cases hstep
      · exact absurd hstep (hnot _)
    · simp only [MayStep, not_forall, Nat.not_lt] at hmay
      obtain ⟨other, hother, hle⟩ := hmay
      rw [h.step_of_limit hi hother hle] at hstep
      cases hstep
      exact ⟨hother, hle⟩
  · rintro ⟨hlimit, hle⟩
    rw [h.step_of_limit hi hlimit hle]
    rfl

theorem Open.fails_iff (h : m.Open n e) (hi : m.program.instructions[e.state.ip]? = some i)
    (hmay : m.MayStep n) : (∃ error, e.step.1 = .failed error) ↔
      ¬Allows m.program.length e.state.view i ∨
        ∃ k, e.state.view.result? i = some k ∧ ¬Decimal.InRange k := by
  rcases h.answers.fault_or_allows hi hmay with ⟨cause, hstep, hfault⟩ | ⟨hnot, hfault, hallows⟩
  · refine ⟨fun _ => ?_, fun _ => ⟨_, hstep⟩⟩
    -- If the table allowed the step and its result were in range, nothing would be violated.
    by_contra hfine
    simp only [not_or, not_not, not_exists, not_and] at hfine
    have hnone := hfine.1.fault?_eq_none (m.wellFormed (Array.mem_of_getElem? hi)) hfine.2
    rw [hfault] at hnone
    contradiction
  · constructor
    · rintro ⟨error, herror⟩
      exact absurd herror (hnot error)
    · rintro (hrefused | ⟨k, hk, hout⟩)
      · exact absurd hallows hrefused
      · exact absurd (Reference.State.inRange_of_fault?_eq_none hfault k hk) hout

theorem Open.fault_iff (h : m.Open n e) (hi : m.program.instructions[e.state.ip]? = some i)
    (hmay : m.MayStep n) (error : RuntimeError) : e.step.1 = .failed error ↔
      ∃ cause, error = .fault e.state.ip cause ∧ e.state.view.fault? i = some cause := by
  rcases h.answers.fault_or_allows hi hmay with ⟨cause, hstep, hfault⟩ | ⟨hnot, hfault, -⟩
  · rw [hstep, hfault]
    constructor
    · intro herror
      cases herror
      exact ⟨cause, rfl, rfl⟩
    · rintro ⟨_, rfl, hcause⟩
      cases hcause
      rfl
  · constructor
    · intro herror
      exact absurd herror (hnot error)
    · rintro ⟨cause, -, hcause⟩
      rw [hfault] at hcause
      contradiction

theorem Open.nextStep (h : m.Open n e) (hi : m.program.instructions[e.state.ip]? = some i) :
    m.NextStep n e i where
  limit := h.limit_iff hi
  fails := h.fails_iff hi
  fault := h.fault_iff hi
  overflow hmay := by
    rw [h.fault_iff hi hmay, ← Reference.State.fault?_eq_overflow_iff]
    simp
  unchanged := by
    intro error herror
    have hanswers := h.answers
    generalize e.step = next at hanswers herror ⊢
    cases hanswers with
    | action _ _ hstop =>
      rw [Execution.settle_answer _ hstop] at herror
      split at herror <;> contradiction
    | _ => rfl
  succeeds := by
    intro hnot
    have hanswers := h.answers
    generalize e.step = next at hanswers hnot ⊢
    cases hanswers with
    | ends hnone => rw [hi] at hnone; contradiction
    | limit => exact absurd rfl (hnot _)
    | fault => exact absurd rfl (hnot _)
    | stop hj _ hhalts =>
      rw [hi, Option.some.injEq] at hj
      exact .inl ⟨hj ▸ hhalts, rfl, rfl⟩
    | action hj _ hstop hmoves =>
      rw [hi, Option.some.injEq] at hj
      rw [Execution.settle_state, Execution.settle_answer _ hstop]
      refine .inr ⟨hj ▸ hmoves, ?_⟩
      change (if _ < e.program.length then _ else _) = _
      rw [h.program]

/-! ### Runs -/

/-- After so many steps the machine over exact integers is in the same state: it has
taken as many, or fewer if the execution has ended. -/
structure Follows (m : Machine) (origin : Reference.State) (n : Nat) (e : Execution) : Prop where
  program : e.program = m.program
  limit : e.limit = m.limit
  reached : ∃ k ≤ n, Steps m.program.instructions k origin e.state.view ∧
    (e.status.isTerminal = false → k = n ∧ e.steps = n)
  valid : e.state.view.Valid

theorem Follows.open_or_terminal (h : m.Follows origin n e) :
    e.status.isTerminal = true ∨
      m.Open n e ∧ Steps m.program.instructions n origin e.state.view := by
  obtain ⟨k, -, hsteps, hopen⟩ := h.reached
  cases hstatus : e.status.isTerminal with
  | true => exact .inl rfl
  | false =>
    obtain ⟨rfl, hcount⟩ := hopen hstatus
    exact .inr ⟨⟨h.program, h.limit, hcount, hstatus⟩, hsteps⟩

theorem Follows.step (h : m.Follows origin n e) : m.Follows origin (n + 1) e.step.2 := by
  obtain ⟨hprogram, hlimit⟩ := e.step_program
  refine ⟨hprogram.trans h.program, hlimit.trans h.limit, ?_, ?_⟩
  · rcases h.open_or_terminal with hterminal | ⟨hopen, hsteps⟩
    · obtain ⟨k, hk, hsteps, -⟩ := h.reached
      rw [Execution.step_terminal hterminal]
      refine ⟨k, by omega, hsteps, fun hstatus => ?_⟩
      rw [hterminal] at hstatus
      contradiction
    · have hanswers := hopen.answers
      generalize e.step = next at hanswers ⊢
      cases hanswers with
      | action hi _ _ hmoves =>
        refine ⟨n + 1, Nat.le_refl _, ?_, fun _ => ⟨rfl, ?_⟩⟩
        · rw [Execution.settle_state]
          exact .succ hsteps hi hmoves
        · rw [(Execution.settle_program _ _).2.2]
          exact congrArg (· + 1) hopen.steps
      -- All other answers end the run and leave the state as it is.
      | _ => exact ⟨n, Nat.le_succ n, hsteps, by rintro ⟨⟩⟩
  · rcases h.open_or_terminal with hterminal | ⟨hopen, -⟩
    · rw [Execution.step_terminal hterminal]
      exact h.valid
    · have hanswers := hopen.answers
      generalize e.step = next at hanswers ⊢
      cases hanswers with
      | action _ _ _ hmoves hrange =>
        rw [Execution.settle_state]
        exact hmoves.every h.valid hrange
      | _ => exact h.valid

theorem Follows.after (h : m.Follows origin 0 e) (n : Nat) : m.Follows origin n (e.after n) := by
  induction n with
  | zero => exact h
  | succ n ih => exact ih.step

theorem follows_start (m : Machine) {inbox : List Value} {tiles : Tiles}
    (hinbox : ∀ v ∈ inbox, v.Valid) (htiles : tiles.Valid) :
    m.Follows (Reference.start inbox tiles.read) 0 (m.start inbox tiles) :=
  ⟨rfl, rfl, ⟨0, Nat.le_refl 0, .zero, fun _ => ⟨rfl, rfl⟩⟩, by simp [start, State.view], htiles,
    hinbox, by simp [start, State.view]⟩

/-- The execution agrees with the machine over exact integers: in its state, in what
its next step does, and in why that fails. -/
structure Refines (m : Machine) (origin : Reference.State) (n : Nat) (e : Execution) : Prop where
  state : ∃ k ≤ n, (∀ r, Steps m.program.instructions k origin r ↔ r = e.state.view) ∧
    (e.status.isTerminal = false → k = n)
  valid : e.state.view.Valid
  next : ∀ i, e.status.isTerminal = false → m.program.instructions[e.state.ip]? = some i →
    m.NextStep n e i
  ends : e.status.isTerminal = false → m.program.instructions[e.state.ip]? = none →
    e.step.1 = .halted ∧ e.step.2.state = e.state
  halted : e.status = .halted → e.step = (.halted, e)
  failed : ∀ error, e.status = .failed error → e.step = (.failed error, e)

theorem Follows.refines (h : m.Follows origin n e) : m.Refines origin n e := by
  have hopen (hstatus : e.status.isTerminal = false) : m.Open n e := by
    obtain ⟨k, -, -, hcount⟩ := h.reached
    exact ⟨h.program, h.limit, (hcount hstatus).2, hstatus⟩
  refine ⟨?_, h.valid, fun i hstatus hi => (hopen hstatus).nextStep hi, fun hstatus hnone => ?_,
    fun hstatus => ?_, fun error hstatus => ?_⟩
  · obtain ⟨k, hk, hsteps, hcount⟩ := h.reached
    refine ⟨k, hk, fun r => ⟨fun hr => hr.eq hsteps, ?_⟩, fun hstatus => (hcount hstatus).1⟩
    rintro rfl
    exact hsteps
  · rw [Execution.step_open hstatus, Execution.advance_at_end (h.program ▸ hnone)]
    exact ⟨rfl, rfl⟩
  · rw [Execution.step, hstatus]
  · rw [Execution.step, hstatus]

/-- Every run refines the run of the machine over exact integers. -/
theorem refines_reference (m : Machine) {inbox : List Value} {tiles : Tiles}
    (hinbox : ∀ v ∈ inbox, v.Valid) (htiles : tiles.Valid) (n : Nat) :
    m.Refines (Reference.start inbox tiles.read) n ((m.start inbox tiles).after n) :=
  ((m.follows_start hinbox htiles).after n).refines

theorem refines_reference_overflow :
    let m : Machine :=
      ⟨⟨#[⟨.inbox, .nothing⟩, ⟨.add, .tile (.indirect 0)⟩], ∅, #[]⟩, some 5, by decide +kernel⟩
    let inbox : List Value := [.int 9223372036854775807]
    let tiles : Tiles := (∅ : Tiles) |>.insert 0 (some (.int 3)) |>.insert 3 (some (.int 1))
    (∀ v ∈ inbox, v.Valid) ∧ tiles.Valid ∧
      m.Refines (Reference.start inbox tiles.read) 1 ((m.start inbox tiles).after 1) ∧
      ((m.start inbox tiles).after 1).step.1 = .failed (.fault 1 .overflow) := by
  intro m inbox tiles
  have hinbox : ∀ v ∈ inbox, v.Valid := by decide
  have htiles : tiles.Valid := (Tiles.valid_empty.insert 0 (by decide)).insert 3 (by decide)
  exact ⟨hinbox, htiles, m.refines_reference hinbox htiles 1, by decide +kernel⟩

end Machine
end TileMachine
