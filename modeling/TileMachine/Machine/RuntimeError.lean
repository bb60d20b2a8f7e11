import TileMachine.Value

/-! What can go wrong while a program runs. -/
namespace TileMachine

inductive Fault where
  | emptyHands
  | emptyTile (address : Nat)
  | notAnAddress (address : Nat) (value : Value)
  | cannotAddTo (held : Value)
  | cannotAdd (value : Value)
  | cannotSub (value held : Value)
  | cannotIncrement (value : Value)
  | cannotDecrement (value : Value)
  | cannotCompare (held : Value)
  | overflow
  | invalidJumpTarget (target : Nat)
  | malformed
deriving DecidableEq, Repr

inductive RuntimeError where
  | fault (index : Nat) (cause : Fault)
  | tooManySteps (limit : Nat)
deriving DecidableEq, Repr

def Fault.describe : Fault → String
  | emptyHands => "you don't hold any value"
  | emptyTile address => "tile " ++ Decimal.ofNat address ++ " is empty"
  | notAnAddress address value =>
    "tile " ++ Decimal.ofNat address ++ " holds " ++ value.text ++ ", which is not a valid address,"
  | cannotAddTo held => "cannot add to value " ++ held.text
  | cannotAdd value => "cannot add value " ++ value.text
  | cannotSub value held => "cannot sub " ++ value.text ++ " from " ++ held.text
  | cannotIncrement value => "cannot increment value " ++ value.text
  | cannotDecrement value => "cannot decrement value " ++ value.text
  | cannotCompare held => "cannot compare value " ++ held.text ++ " with zero"
  | overflow => "integer overflow"
  | invalidJumpTarget target => "invalid jump target " ++ Decimal.ofNat target
  | malformed => "malformed instruction"

namespace RuntimeError

def message : RuntimeError → String
  | fault index .malformed => Fault.malformed.describe ++ " at " ++ Decimal.ofNat index
  | fault index cause => cause.describe ++ " at instruction " ++ Decimal.ofNat index
  | tooManySteps limit => "too many steps (limit " ++ Decimal.ofNat limit ++ ")"

def index? : RuntimeError → Option Nat
  | fault index _ => some index
  | tooManySteps _ => none

end RuntimeError
end TileMachine
