import TileMachine.Proofs.Machine.StepLimit

/-! Driving an execution from outside. `step` and `next?` may be called in any order: until
the execution ends they do the same, and from then on the one repeats the last answer and
the other gives none. The same holds if the phase of an execution and its last answer are
kept in two places, of which each kind of call looks at one. -/
namespace TileMachine

inductive Call where
  | step
  | next
deriving DecidableEq, Repr

/-- What a call gives when the last answer has been given before. -/
def Call.echo (last : Step) : Call → Option Step
  | step => some last
  | next => none

structure Driver (α : Type) where
  step : α → Step × α
  next? : α → Option (Step × α)

namespace Driver

variable {α β : Type}

def call (d : Driver α) (x : α) : Call → Option Step × α
  | .step => (some (d.step x).1, (d.step x).2)
  | .next =>
    match d.next? x with
    | some (answer, y) => (some answer, y)
    | none => (none, x)

def drive (d : Driver α) (x : α) : List Call → List (Option Step) × α
  | [] => ([], x)
  | c :: calls =>
    let (answer, y) := d.call x c
    let (answers, z) := d.drive y calls
    (answer :: answers, z)

theorem drive_cons (d : Driver α) (x : α) (c : Call) (calls : List Call) :
    d.drive x (c :: calls) =
      ((d.call x c).1 :: (d.drive (d.call x c).2 calls).1, (d.drive (d.call x c).2 calls).2) :=
  rfl

section View
variable {d : Driver α} {d' : Driver β} (view : α → β)
  (hstep : ∀ x, d'.step (view x) = ((d.step x).1, view (d.step x).2))
  (hnext : ∀ x, d'.next? (view x) = (d.next? x).map fun next => (next.1, view next.2))
include hstep hnext

theorem call_view (x : α) (c : Call) :
    d'.call (view x) c = ((d.call x c).1, view (d.call x c).2) := by
  cases c with
  | step => simp only [call, hstep]
  | next =>
    simp only [call, hnext]
    cases d.next? x with
    | none => rfl
    | some next => rfl

/-- A view that both kinds of calls respect is respected by every sequence of calls. -/
theorem drive_view (x : α) (calls : List Call) :
    d'.drive (view x) calls = ((d.drive x calls).1, view (d.drive x calls).2) := by
  induction calls generalizing x with
  | nil => rfl
  | cons c calls ih => simp only [drive_cons, call_view view hstep hnext, ih]

end View
end Driver

/-! ### The answers of an execution -/

/-- How the status may change: an execution begins, goes on and ends, or ends at once. -/
inductive Status.Moves : Status → Status → Prop where
  | begins : Moves .ready .running
  | goesOn : Moves .running .running
  | ends {before after : Status} :
      before.isTerminal = false → after.isTerminal = true → Moves before after
  | rests {status : Status} : status.isTerminal = true → Moves status status

theorem Status.moves_running {status : Status} (h : status.isTerminal = false) :
    status.Moves .running := by
  cases status with
  | ready => exact .begins
  | running => exact .goesOn
  | halted | failed => contradiction

theorem Status.Moves.ne_ready {before after : Status} (h : before.Moves after) :
    after ≠ .ready := by
  cases h with
  | begins | goesOn => simp
  | ends _ hended | rests hended =>
    intro hready
    rw [hready] at hended
    contradiction

namespace Execution

variable {e : Execution}

def driver : Driver Execution := ⟨step, next?⟩

theorem moves_step (e : Execution) : e.status.Moves e.step.2.status := by
  have hstep := e.stepsTo
  generalize e.step = next at hstep ⊢
  cases hstep with
  | rests hended => exact .rests hended
  | proceeds hopen => exact Status.moves_running hopen
  | ends hopen | limit hopen | fault hopen | finishes hopen => exact .ends hopen rfl

theorem call_of_open (h : e.status.isTerminal = false) (c : Call) :
    driver.call e c = (some e.step.1, e.step.2) := by
  cases c with
  | step => rfl
  | next =>
    have hnext : e.next? = some e.step := if_neg (by simp [h])
    simp only [Driver.call, driver, hnext]

theorem call_of_terminal (h : e.status.isTerminal = true) (c : Call) :
    driver.call e c = (c.echo e.status.answer, e) := by
  cases c with
  | step => simp only [Driver.call, driver, step_of_terminal h, Call.echo]
  | next =>
    have hnext : e.next? = none := if_pos h
    simp only [Driver.call, driver, hnext, Call.echo]

theorem call_snd (e : Execution) (c : Call) : (driver.call e c).2 = e.step.2 := by
  cases hopen : e.status.isTerminal with
  | false => rw [call_of_open hopen]
  | true => rw [call_of_terminal hopen, step_terminal hopen]

theorem drive_snd (e : Execution) (calls : List Call) :
    (driver.drive e calls).2 = e.after calls.length := by
  induction calls generalizing e with
  | nil => rfl
  | cons c calls ih => rw [Driver.drive_cons, call_snd, ih, List.length_cons, after_succ]

theorem drive_of_terminal (h : e.status.isTerminal = true) (calls : List Call) :
    driver.drive e calls = (calls.map (Call.echo e.status.answer), e) := by
  induction calls with
  | nil => rfl
  | cons c calls ih => rw [Driver.drive_cons, call_of_terminal h, ih, List.map_cons]

theorem answers_of_open {calls : List Call}
    (h : (e.after calls.length).status.isTerminal = false) :
    (driver.drive e calls).1 = List.replicate calls.length (some .proceed) := by
  induction calls generalizing e with
  | nil => rfl
  | cons c calls ih =>
    rw [List.length_cons, after_succ] at h
    have hnext : e.step.2.status.isTerminal = false := by
      cases hended : e.step.2.status.isTerminal with
      | false => rfl
      | true => rw [after_of_terminal hended, hended] at h; contradiction
    have hproceed : e.step.1 = .proceed := by
      rw [step_answer, Status.answer_eq_proceed_iff, hnext]
    rw [Driver.drive_cons, call_of_open (step_of_open hnext).1, ih h, hproceed]
    rfl

theorem answers_of_terminal {calls : List Call} (hopen : e.status.isTerminal = false)
    (h : (e.after calls.length).status.isTerminal = true) : ∃ n < calls.length,
      (driver.drive e calls).1 = List.replicate n (some .proceed) ++
        some (e.after calls.length).status.answer ::
          (calls.drop (n + 1)).map (Call.echo (e.after calls.length).status.answer) := by
  induction calls generalizing e with
  | nil =>
    rw [List.length_nil, after, hopen] at h
    contradiction
  | cons c calls ih =>
    rw [List.length_cons, after_succ] at h ⊢
    rw [Driver.drive_cons, call_of_open hopen]
    cases hnext : e.step.2.status.isTerminal with
    | true =>
      refine ⟨0, Nat.succ_pos _, ?_⟩
      rw [drive_of_terminal hnext, after_of_terminal hnext, step_answer]
      rfl
    | false =>
      have hproceed : e.step.1 = .proceed := by
        rw [step_answer, Status.answer_eq_proceed_iff, hnext]
      obtain ⟨n, hn, hanswers⟩ := ih hnext h
      refine ⟨n + 1, Nat.succ_lt_succ hn, ?_⟩
      dsimp only
      rw [hanswers, hproceed]
      rfl

end Execution

/-! ### Phase and outcome in two places -/

/-- Where an execution stands, without the reason of a failure. -/
inductive Phase where
  | ready | running | halted | failed
deriving DecidableEq, Repr

def Phase.isTerminal : Phase → Bool
  | ready | running => false
  | halted | failed => true

/-- An execution that keeps its phase and the answer it ended with side by side. -/
structure Session where
  program : Program
  limit : Option Nat
  state : State
  steps : Nat := 0
  phase : Phase := .ready
  outcome : Option Step := none

namespace Session

def body (s : Session) : Execution :=
  { program := s.program, limit := s.limit, state := s.state, steps := s.steps }

def record (s : Session) (e : Execution) (phase : Phase) (outcome : Option Step) : Session :=
  { s with state := e.state, steps := e.steps, phase, outcome }

def step (s : Session) : Step × Session :=
  match s.outcome with
  | some outcome => (outcome, s)
  | none =>
    match s.body.advance with
    | (.proceed, e) => (.proceed, s.record e .running none)
    | (.halted, e) => (.halted, s.record e .halted (some .halted))
    | (.failed error, e) => (.failed error, s.record e .failed (some (.failed error)))

def next? (s : Session) : Option (Step × Session) :=
  if s.phase.isTerminal then none else some s.step

def driver : Driver Session := ⟨step, next?⟩

structure Coherent (s : Session) : Prop where
  present : s.outcome.isSome = s.phase.isTerminal
  halted : s.outcome = some .halted ↔ s.phase = .halted
  failed : (∃ error, s.outcome = some (.failed error)) ↔ s.phase = .failed

end Session

def Machine.session (m : Machine) (inbox : List Value) (tiles : Tiles) : Session where
  program := m.program
  limit := m.limit
  state := { tiles, inbox }

def Status.phase : Status → Phase
  | ready => .ready
  | running => .running
  | halted => .halted
  | failed _ => .failed

def Status.outcome? : Status → Option Step
  | ready | running => none
  | halted => some .halted
  | failed error => some (.failed error)

namespace Execution

variable {e : Execution}

def session (e : Execution) : Session :=
  ⟨e.program, e.limit, e.state, e.steps, e.status.phase, e.status.outcome?⟩

theorem isTerminal_phase (e : Execution) :
    e.session.phase.isTerminal = e.status.isTerminal := by
  unfold session
  cases e.status <;> rfl

theorem coherent_session (e : Execution) : e.session.Coherent := by
  unfold session
  cases e.status <;> constructor <;> simp [Status.outcome?, Status.phase, Phase.isTerminal]

theorem outcome_of_terminal (h : e.status.isTerminal = true) :
    e.session.outcome = some e.status.answer := by
  unfold session
  cases hstatus : e.status with
  | ready | running => rw [hstatus] at h; contradiction
  | halted | failed => rfl

theorem outcome_of_open (h : e.status.isTerminal = false) : e.session.outcome = none := by
  unfold session
  cases hstatus : e.status with
  | ready | running => rfl
  | halted | failed => rw [hstatus] at h; contradiction

theorem advance_body (e : Execution) : e.session.body.advance = e.advance := by
  cases e
  rfl

theorem record_session {e' : Execution} (hprogram : e'.program = e.program)
    (hlimit : e'.limit = e.limit) :
    e.session.record e' e'.status.phase e'.status.outcome? = e'.session := by
  simp only [Session.record, session, hprogram, hlimit]

theorem session_step (e : Execution) : e.session.step = (e.step.1, e.step.2.session) := by
  cases hopen : e.status.isTerminal with
  | true => simp only [Session.step, outcome_of_terminal hopen, step_of_terminal hopen]
  | false =>
    have hrecord := record_session e.step_program.1 e.step_program.2
    have hanswer := e.step_answer
    have hbegun := e.moves_step.ne_ready
    rw [step_open hopen] at hrecord hanswer hbegun ⊢
    simp only [Session.step, outcome_of_open hopen, advance_body]
    generalize e.advance = next at hrecord hanswer hbegun ⊢
    cases next with
    | mk answer e' =>
      dsimp only at hrecord hanswer hbegun ⊢
      cases hstatus : e'.status with
      | ready => contradiction
      | running | halted | failed =>
        rw [hstatus] at hanswer hrecord
        rw [← hrecord, hanswer]
        rfl

theorem session_next? (e : Execution) :
    e.session.next? = e.next?.map fun next => (next.1, next.2.session) := by
  unfold Session.next? next?
  rw [isTerminal_phase, session_step]
  split
  · rfl
  · rfl

theorem session_drive (e : Execution) (calls : List Call) :
    Session.driver.drive e.session calls =
      ((driver.drive e calls).1, (driver.drive e calls).2.session) :=
  Driver.drive_view session session_step session_next? e calls

end Execution

/-! ### The life of an execution -/

namespace Machine
open Execution

variable {inbox : List Value} {tiles : Tiles}

theorem run?_of_terminal (m : Machine) {n patience : Nat}
    (h : ((m.start inbox tiles).after n).status.isTerminal = true)
    (hpatience : m.limit = none → n ≤ patience) :
    m.run? patience inbox tiles = ((m.start inbox tiles).after n).result? := by
  rw [run?_eq_result?]
  cases hlimit : m.limit with
  | none =>
    have hcalls : m.calls patience = patience := by simp only [calls, hlimit]
    rw [hcalls, after_eq_of_le h (hpatience hlimit)]
  | some limit =>
    have hcalls : m.calls patience = limit + 1 := by simp only [calls, hlimit]
    have hstart : m.start inbox tiles =
        ((m.withLimit none).start inbox tiles).withLimit (some limit) := by
      simp only [start, withLimit, Execution.withLimit, hlimit]
    have hends : ((m.start inbox tiles).after (limit + 1)).status.isTerminal = true := by
      rw [hstart]
      exact isTerminal_after_withLimit rfl rfl limit
    rw [hcalls, after_eq_of_terminal h hends]

structure Ended (m : Machine) (inbox : List Value) (tiles : Tiles) (calls : List Call)
    (answers : List (Option Step)) (e : Execution) (last : Step) : Prop where
  terminal : last ≠ .proceed
  answers : ∃ n < calls.length, answers =
    List.replicate n (some .proceed) ++ some last :: (calls.drop (n + 1)).map (Call.echo last)
  rests : ∀ more, driver.drive e more = (more.map (Call.echo last), e)
  halted : last = .halted → ∀ patience, (m.limit = none → calls.length ≤ patience) →
    m.run? patience inbox tiles = some (.ok e.outbox)
  failed : ∀ error, last = .failed error → ∀ patience,
    (m.limit = none → calls.length ≤ patience) →
    m.run? patience inbox tiles = some (.error error)

structure Lifecycle (m : Machine) (inbox : List Value) (tiles : Tiles) (calls : List Call)
    (answers : List (Option Step)) (e : Execution) : Prop where
  ready : e.status = .ready ↔ calls = []
  moves : ∀ c, e.status.Moves (driver.call e c).2.status
  going : e.status.isTerminal = false →
    answers = List.replicate calls.length (some .proceed) ∧
      driver.call e .next = driver.call e .step
  ended : e.status.isTerminal = true → Ended m inbox tiles calls answers e e.status.answer

theorem ended_after (m : Machine) {calls : List Call}
    (h : ((m.start inbox tiles).after calls.length).status.isTerminal = true) :
    Ended m inbox tiles calls (driver.drive (m.start inbox tiles) calls).1
      ((m.start inbox tiles).after calls.length)
      ((m.start inbox tiles).after calls.length).status.answer := by
  refine ⟨?_, answers_of_terminal rfl h, drive_of_terminal h, ?_, ?_⟩
  · rw [Ne, Status.answer_eq_proceed_iff, h]
    simp
  · intro hhalted patience hpatience
    rw [m.run?_of_terminal h hpatience, result?_eq_ok_iff, ← Status.answer_eq_halted_iff]
    exact ⟨hhalted, rfl⟩
  · intro error hfailed patience hpatience
    rw [m.run?_of_terminal h hpatience, result?_eq_error_iff, ← Status.answer_eq_failed_iff]
    exact hfailed

theorem status_after_eq_ready_iff (m : Machine) (n : Nat) :
    ((m.start inbox tiles).after n).status = .ready ↔ n = 0 := by
  cases n with
  | zero => exact ⟨fun _ => rfl, fun _ => rfl⟩
  | succ n =>
    have hbegun := ((m.start inbox tiles).after n).moves_step.ne_ready
    exact ⟨fun hready => absurd hready hbegun, fun hzero => absurd hzero (Nat.succ_ne_zero n)⟩

/-- However the two kinds of calls are mixed, an execution lives once: it is told to go on
until one answer ends it, that answer is repeated from then on and nothing changes any
more, and a run gives the same end. If phase and outcome are kept apart, the answers are
the same and the two never disagree. -/
theorem lifecycle_of_calls (m : Machine) (inbox : List Value) (tiles : Tiles)
    (calls : List Call) :
    let driven := Execution.driver.drive (m.start inbox tiles) calls
    let kept := Session.driver.drive (m.session inbox tiles) calls
    Lifecycle m inbox tiles calls driven.1 driven.2 ∧
      kept = (driven.1, driven.2.session) ∧ kept.2.Coherent := by
  intro driven kept
  have hkept : kept = (driven.1, driven.2.session) :=
    session_drive (m.start inbox tiles) calls
  refine ⟨?_, hkept, ?_⟩
  · have hafter : driven.2 = (m.start inbox tiles).after calls.length := drive_snd _ calls
    rw [hafter]
    refine ⟨?_, ?_, ?_, m.ended_after⟩
    · rw [m.status_after_eq_ready_iff, List.length_eq_zero_iff]
    · intro c
      rw [call_snd]
      exact moves_step _
    · intro hopen
      exact ⟨answers_of_open hopen,
        (call_of_open hopen .next).trans (call_of_open hopen .step).symm⟩
  · rw [hkept]
    exact coherent_session _

end Machine
end TileMachine
