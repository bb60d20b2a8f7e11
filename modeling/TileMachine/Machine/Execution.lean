import TileMachine.Machine.State
import TileMachine.Program.Validity

/-! Running a program one instruction at a time. An execution that has halted or
failed stays as it is; every later step repeats its last answer. -/
namespace TileMachine

inductive Status where
  | ready
  | running
  | halted
  | failed (error : RuntimeError)
deriving DecidableEq, Repr

def Status.isTerminal : Status → Bool
  | ready | running => false
  | halted | failed _ => true

inductive Step where
  | proceed
  | halted
  | failed (error : RuntimeError)
deriving DecidableEq, Repr

structure Execution where
  program : Program
  limit : Option Nat
  state : State
  status : Status := .ready
  /-- Instructions carried out so far, the failing one included. -/
  steps : Nat := 0
deriving DecidableEq

namespace Execution

def outbox (e : Execution) : List Value :=
  e.state.outbox.toList

def exhausted (e : Execution) : Option Nat :=
  e.limit.filter (· ≤ e.steps)

def halt (e : Execution) : Step × Execution :=
  (.halted, { e with status := .halted })

def fail (e : Execution) (error : RuntimeError) : Step × Execution :=
  (.failed error, { e with status := .failed error })

def count (e : Execution) : Execution :=
  { e with steps := e.steps + 1 }

/-- Goes on after an action; past the last instruction there is nothing to do. -/
def settle (e : Execution) (action : Action) : Step × Execution :=
  let e := { e with state := e.state.apply action }
  if action ≠ .stop ∧ e.state.ip < e.program.length then (.proceed, { e with status := .running })
  else e.halt

def advance (e : Execution) : Step × Execution :=
  match e.program.instructions[e.state.ip]? with
  | none => e.halt
  | some i =>
    match e.exhausted with
    | some limit => e.fail (.tooManySteps limit)
    | none =>
      match e.state.plan e.program.length i with
      | .error cause => e.count.fail (.fault e.state.ip cause)
      | .ok action => e.count.settle action

def step (e : Execution) : Step × Execution :=
  match e.status with
  | .ready | .running => e.advance
  | .halted => (.halted, e)
  | .failed error => (.failed error, e)

/-- The next step of the sequence that ends with the terminal one. -/
def next? (e : Execution) : Option (Step × Execution) :=
  if e.status.isTerminal then none else some e.step

/-- Steps until the execution has ended; nothing if `calls` steps do not suffice. -/
def finish? : (calls : Nat) → Execution → Option (Step × Execution)
  | 0, _ => none
  | calls + 1, e =>
    match e.step with
    | (.proceed, e') => finish? calls e'
    | last => some last

def drainFrom? (answers : List Step) : (calls : Nat) → Execution → Option (List Step × Execution)
  | calls, e =>
    match e.next?, calls with
    | none, _ => some (answers.reverse, e)
    | some _, 0 => none
    | some (answer, e'), calls + 1 => drainFrom? (answer :: answers) calls e'

def drain? (calls : Nat) (e : Execution) : Option (List Step × Execution) :=
  drainFrom? [] calls e

structure Frame where
  before : State
  step : Step
  after : State
deriving DecidableEq

def historyFrom? (past : List Frame) : (calls : Nat) → Execution →
    Option (List Frame × Step × Execution)
  | 0, _ => none
  | calls + 1, e =>
    match e.step with
    | (.proceed, e') => historyFrom? (⟨e.state, .proceed, e'.state⟩ :: past) calls e'
    | (last, e') => some ((⟨e.state, last, e'.state⟩ :: past).reverse, last, e')

def history? (calls : Nat) (e : Execution) : Option (List Frame × Step × Execution) :=
  historyFrom? [] calls e

end Execution
end TileMachine
