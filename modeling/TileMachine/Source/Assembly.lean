import TileMachine.Program
import TileMachine.Source.Lexer
import TileMachine.Source.Statement

/-! Programs from text. Lines are read in order; jumps are resolved after the
last line, so a label may be used before it is declared. -/
namespace TileMachine

/-- An operation whose jump target is not yet known. -/
structure Operation where
  opcode : Opcode
  argument : Argument
  line : Nat
deriving DecidableEq, Repr

def Operation.resolve (labels : Labels) (op : Operation) : Except ParseError Instruction :=
  match op.argument with
  | .nothing => .ok ⟨op.opcode, .nothing⟩
  | .tile address => .ok ⟨op.opcode, .tile address⟩
  | .label name span =>
    match labels[name]? with
    | some target => .ok ⟨op.opcode, .label name target⟩
    | none => .error ⟨op.line, some span, .undefinedLabel name⟩

structure Draft where
  operations : Array Operation := #[]
  labels : Labels := ∅

namespace Draft

def add (d : Draft) : Statement → Except ParseError Draft
  | .declare name token =>
    if name ∈ d.labels then .error (token.fail (.duplicateLabel name))
    else .ok { d with labels := d.labels.insert name d.operations.size }
  | .operation opcode argument line =>
    .ok { d with operations := d.operations.push ⟨opcode, argument, line⟩ }

def addLine (d : Draft) (tokens : List Token) : Except ParseError Draft := do
  match ← Statement.ofTokens tokens with
  | none => return d
  | some s => d.add s

/-- Tokens belong to one line as long as the line number stays the same. -/
def ofTokens (tokens : List Token) : Except ParseError Draft :=
  (tokens.splitBy (·.line == ·.line)).foldlM addLine {}

def finish (d : Draft) : Except ParseError Program := do
  let instructions ← d.operations.mapM (Operation.resolve d.labels)
  return ⟨instructions, d.labels, d.operations.map Operation.line⟩

end Draft

namespace Program

def ofTokens (tokens : List Token) : Except ParseError Program := do
  (← Draft.ofTokens tokens).finish

def parse (source : String) : Except ParseError Program :=
  ofTokens (Lexer.tokenize source)

end Program
end TileMachine
