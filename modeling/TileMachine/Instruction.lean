import TileMachine.Text.Decimal

/-! The eleven operations and the instructions built from them. An instruction
may pair an operation with an operand of the wrong kind; `WellFormed` excludes it. -/
namespace TileMachine

inductive Opcode where
  | inbox | outbox | copyfrom | copyto | add | sub | bumpup | bumpdn | jump | jumpz | jumpn
deriving DecidableEq, Repr

inductive OperandKind where
  | nothing | tile | label
deriving DecidableEq, Repr

def OperandKind.describe : OperandKind → String
  | nothing => "no argument"
  | tile => "a tile address"
  | label => "a label"

def OperandKind.arity : OperandKind → Nat
  | nothing => 0
  | tile | label => 1

namespace Opcode

def all : List Opcode :=
  [inbox, outbox, copyfrom, copyto, add, sub, bumpup, bumpdn, jump, jumpz, jumpn]

def mnemonic : Opcode → String
  | inbox => "inbox"
  | outbox => "outbox"
  | copyfrom => "copyfrom"
  | copyto => "copyto"
  | add => "add"
  | sub => "sub"
  | bumpup => "bumpup"
  | bumpdn => "bumpdn"
  | jump => "jump"
  | jumpz => "jumpz"
  | jumpn => "jumpn"

def operandKind : Opcode → OperandKind
  | inbox | outbox => .nothing
  | copyfrom | copyto | add | sub | bumpup | bumpdn => .tile
  | jump | jumpz | jumpn => .label

/-- Mnemonics are read in any mixture of ASCII cases. -/
def ofMnemonic? (text : String) : Option Opcode :=
  all.find? fun op => op.mnemonic.toList == text.toList.map Char.toLower

theorem mem_all (op : Opcode) : op ∈ all := by
  cases op <;> decide

@[simp] theorem ofMnemonic?_mnemonic (op : Opcode) : ofMnemonic? op.mnemonic = some op := by
  cases op <;> decide

end Opcode

inductive Address where
  | direct (n : Nat)
  | indirect (n : Nat)
deriving DecidableEq, Repr

def Address.text : Address → String
  | direct n => Decimal.ofNat n
  | indirect n => "[" ++ Decimal.ofNat n ++ "]"

inductive Operand where
  | nothing
  | tile (address : Address)
  | label (name : String) (target : Nat)
deriving DecidableEq, Repr

def Operand.kind : Operand → OperandKind
  | nothing => .nothing
  | tile _ => .tile
  | label _ _ => .label

structure Instruction where
  opcode : Opcode
  operand : Operand
deriving DecidableEq, Repr

namespace Instruction

def WellFormed (i : Instruction) : Prop :=
  i.operand.kind = i.opcode.operandKind

instance (i : Instruction) : Decidable i.WellFormed :=
  inferInstanceAs (Decidable (_ = _))

def text (i : Instruction) : String :=
  match i.operand with
  | .nothing => i.opcode.mnemonic
  | .tile address => i.opcode.mnemonic ++ " " ++ address.text
  | .label name _ => i.opcode.mnemonic ++ " " ++ name

end Instruction
end TileMachine
