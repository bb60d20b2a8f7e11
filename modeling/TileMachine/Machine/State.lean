import TileMachine.Instruction
import TileMachine.Machine.RuntimeError
import TileMachine.Tiles

/-! The state of a run and what one instruction does to it. An instruction is
first planned, which only looks at the state, and then applied, which cannot
fail: a fault therefore leaves no trace. -/
namespace TileMachine

structure State where
  ip : Nat := 0
  hands : Option Value := none
  tiles : Tiles := ∅
  inbox : List Value := []
  outbox : Array Value := #[]
deriving DecidableEq

inductive Action where
  /-- Nothing is left in the inbox. -/
  | stop
  /-- The front of the inbox goes to the hands. -/
  | take (v : Value) (rest : List Value)
  /-- The value in the hands goes to the outbox. -/
  | deliver (v : Value)
  | hold (v : Value)
  | store (address : Nat) (v : Value)
  /-- The new value goes to the tile and to the hands. -/
  | bump (address : Nat) (v : Value)
  | goto (target : Nat)
  | skip
deriving DecidableEq, Repr

namespace State

def held (s : State) : Except Fault Value :=
  match s.hands with
  | some v => .ok v
  | none => .error .emptyHands

def readTile (s : State) (address : Nat) : Except Fault Value :=
  match s.tiles.read address with
  | some v => .ok v
  | none => .error (.emptyTile address)

def locate (s : State) : Address → Except Fault Nat
  | .direct n => .ok n
  | .indirect n => do
    let v ← s.readTile n
    match v with
    | .int k => if 0 ≤ k then .ok k.toNat else .error (.notAnAddress n v)
    | .letter _ => .error (.notAnAddress n v)

def load (s : State) (address : Address) : Except Fault Value := do
  s.readTile (← s.locate address)

def checked (n : Int) : Except Fault Value :=
  if Decimal.InRange n then .ok (.int n) else .error .overflow

def planAdd (s : State) (address : Address) : Except Fault Action := do
  let held ← s.held
  match held with
  | .letter _ => .error (.cannotAddTo held)
  | .int a =>
    let v ← s.load address
    match v with
    | .letter _ => .error (.cannotAdd v)
    | .int b => .hold <$> checked (a + b)

/-- Two letters subtract to their distance in the alphabet. -/
def planSub (s : State) (address : Address) : Except Fault Action := do
  let held ← s.held
  let v ← s.load address
  match held, v with
  | .int a, .int b => .hold <$> checked (a - b)
  | .letter a, .letter b => .ok (.hold (.int (a.toNat - b.toNat)))
  | _, _ => .error (.cannotSub v held)

def planBump (s : State) (address : Address) (delta : Int) (refuse : Value → Fault) :
    Except Fault Action := do
  let n ← s.locate address
  let v ← s.readTile n
  match v with
  | .letter _ => .error (refuse v)
  | .int k => .bump n <$> checked (k + delta)

/-- A jump may go to any instruction and to the end. -/
def planJump (length target : Nat) : Except Fault Action :=
  if target ≤ length then .ok (.goto target) else .error (.invalidJumpTarget target)

def plan (s : State) (length : Nat) (i : Instruction) : Except Fault Action :=
  match i.opcode, i.operand with
  | .inbox, _ =>
    match s.inbox with
    | [] => .ok .stop
    | v :: rest => .ok (.take v rest)
  | .outbox, _ => .deliver <$> s.held
  | .copyfrom, .tile address => .hold <$> s.load address
  | .copyto, .tile address => do
    let v ← s.held
    return .store (← s.locate address) v
  | .add, .tile address => s.planAdd address
  | .sub, .tile address => s.planSub address
  | .bumpup, .tile address => s.planBump address 1 .cannotIncrement
  | .bumpdn, .tile address => s.planBump address (-1) .cannotDecrement
  | .jump, .label _ target => planJump length target
  | .jumpz, .label _ target => do
    if (← s.held).isZero then planJump length target else return .skip
  | .jumpn, .label _ target => do
    let v ← s.held
    match v with
    | .int n => if n < 0 then planJump length target else return .skip
    | .letter _ => .error (.cannotCompare v)
  | _, _ => .error .malformed

def apply (s : State) : Action → State
  | .stop => s
  | .take v rest => { s with ip := s.ip + 1, hands := some v, inbox := rest }
  | .deliver v => { s with ip := s.ip + 1, hands := none, outbox := s.outbox.push v }
  | .hold v => { s with ip := s.ip + 1, hands := some v }
  | .store address v => { s with ip := s.ip + 1, tiles := s.tiles.insert address (some v) }
  | .bump address v =>
    { s with ip := s.ip + 1, hands := some v, tiles := s.tiles.insert address (some v) }
  | .goto target => { s with ip := target }
  | .skip => { s with ip := s.ip + 1 }

end State
end TileMachine
