import TileMachine.Machine.Execution

/-! A machine is a program that passed all checks, with a bound on the number of
instructions it may carry out. -/
namespace TileMachine

def defaultLimit : Nat := 1000000

structure Machine where
  program : Program
  limit : Option Nat := some defaultLimit
  valid : program.errors = []

namespace Machine

def ofProgram (p : Program) : Except ProgramError Machine :=
  match h : p.errors with
  | [] => .ok ⟨p, some defaultLimit, h⟩
  | e :: _ => .error e

def withLimit (m : Machine) (limit : Option Nat) : Machine :=
  { m with limit }

def start (m : Machine) (inbox : List Value) (tiles : Tiles) : Execution where
  program := m.program
  limit := m.limit
  state := { tiles, inbox }

/-- Steps after which a run has ended: under a limit one more than it allows.
Without a limit no number is certain, and `patience` stands in. -/
def calls (m : Machine) (patience : Nat) : Nat :=
  match m.limit with
  | some n => n + 1
  | none => patience

/-- The outbox at the end of a run; nothing if the run outlasts `patience`. -/
def run? (m : Machine) (patience : Nat) (inbox : List Value) (tiles : Tiles) :
    Option (Except RuntimeError (List Value)) :=
  (m.start inbox tiles).finish? (m.calls patience) |>.map fun
    | (.failed error, _) => .error error
    | (_, e) => .ok e.outbox

end Machine
end TileMachine
