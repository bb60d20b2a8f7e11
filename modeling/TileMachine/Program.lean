import Std.Data.ExtTreeMap
import TileMachine.Instruction

/-! Programs: instructions, the labels that name positions among them, and the
source line of each instruction where it is known. -/
namespace TileMachine

/-- Label names with the instruction index they stand for, ordered by name. -/
abbrev Labels := Std.ExtTreeMap String Nat

structure Program where
  instructions : Array Instruction
  labels : Labels
  lines : Array Nat := #[]
deriving DecidableEq

namespace Program

def length (p : Program) : Nat :=
  p.instructions.size

def lineOf? (p : Program) (index : Nat) : Option Nat :=
  p.lines[index]?

def label? (p : Program) (name : String) : Option Nat :=
  p.labels[name]?

def labelsWhere (p : Program) (test : Nat → Bool) : List String :=
  (p.labels.toList.filter fun (_, target) => test target).map Prod.fst

def labelsAt (p : Program) (index : Nat) : List String :=
  p.labelsWhere (· == index)

end Program
end TileMachine
