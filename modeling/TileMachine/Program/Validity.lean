import TileMachine.Program

/-! What a program must satisfy before it runs: operands of the right kind,
jumps that agree with the labels, and labels inside the program or at its end. -/
namespace TileMachine

inductive ProgramError where
  | labelOutOfRange (name : String) (target length : Nat)
  | operandMismatch (index : Nat) (opcode : Opcode)
  | undefinedLabel (index : Nat) (name : String)
  | labelMismatch (index : Nat) (name : String) (target expected : Nat)
deriving DecidableEq, Repr

def ProgramError.message : ProgramError → String
  | labelOutOfRange name target length =>
    "label '" ++ name ++ "' points at " ++ Decimal.ofNat target ++
      ", past the end of the program (" ++ Decimal.ofNat length ++ ")"
  | operandMismatch index opcode =>
    opcode.mnemonic ++ " expects " ++ opcode.operandKind.describe ++
      " at instruction " ++ Decimal.ofNat index
  | undefinedLabel index name =>
    "undefined label '" ++ name ++ "' at instruction " ++ Decimal.ofNat index
  | labelMismatch index name target expected =>
    "label '" ++ name ++ "' resolves to " ++ Decimal.ofNat expected ++ ", not " ++
      Decimal.ofNat target ++ ", at instruction " ++ Decimal.ofNat index

namespace Program

def labelError? (p : Program) : String × Nat → Option ProgramError
  | (name, target) =>
    if target ≤ p.length then none else some (.labelOutOfRange name target p.length)

/-- An operand of the wrong kind hides the other problems of its instruction. -/
def instructionError? (p : Program) : Instruction × Nat → Option ProgramError
  | (i, index) =>
    if i.WellFormed then
      match i.operand with
      | .label name target =>
        match p.label? name with
        | none => some (.undefinedLabel index name)
        | some expected =>
          if expected = target then none
          else some (.labelMismatch index name target expected)
      | _ => none
    else some (.operandMismatch index i.opcode)

/-- All problems: those of the labels in name order, then those of the instructions. -/
def errors (p : Program) : List ProgramError :=
  p.labels.toList.filterMap p.labelError? ++
    p.instructions.toList.zipIdx.filterMap p.instructionError?

end Program
end TileMachine
