import TileMachine.Instruction
import TileMachine.Source.Token
import TileMachine.Text.Lines

/-! Why a program text is refused, and where. -/
namespace TileMachine

inductive ParseError.Cause where
  | unknownOpcode (text : String)
  | missingArgument (opcode : Opcode) (expected : OperandKind)
  | unexpectedToken (text : String)
  | expectedAddress (opcode : Opcode) (text : String)
  | expectedLabel (opcode : Opcode) (text : String)
  | invalidInteger (text : String)
  | invalidAddress (text : String)
  | malformedIndirect (text : String)
  | duplicateLabel (name : String)
  | invalidLabel (name : String)
  | undefinedLabel (name : String)
deriving DecidableEq, Repr

structure ParseError where
  line : Nat
  span : Option Span
  cause : ParseError.Cause
deriving DecidableEq, Repr

namespace ParseError

def Cause.message : Cause → String
  | unknownOpcode text => "unknown operation '" ++ text ++ "'"
  | missingArgument opcode expected => opcode.mnemonic ++ " expects " ++ expected.describe
  | unexpectedToken text => "unexpected token '" ++ text ++ "'"
  | expectedAddress opcode text => opcode.mnemonic ++ " expects a tile address, got '" ++ text ++ "'"
  | expectedLabel opcode text => opcode.mnemonic ++ " expects a label, got '" ++ text ++ "'"
  | invalidInteger text => "invalid integer '" ++ text ++ "'"
  | invalidAddress text => "invalid tile address '" ++ text ++ "'"
  | malformedIndirect text => "malformed indirect address '" ++ text ++ "'"
  | duplicateLabel name => "duplicate label '" ++ name ++ "'"
  | invalidLabel name => "invalid label '" ++ name ++ "'"
  | undefinedLabel name => "undefined label '" ++ name ++ "'"

def message (e : ParseError) : String :=
  "line " ++ Decimal.ofNat e.line ++ ": " ++ e.cause.message

def spaces (n : Nat) : String :=
  String.ofList (List.replicate n ' ')

/-- The characters before the span and under it. A span that does not fit the
line is marked by one caret at the margin or where it starts. -/
def caretColumns (line : List Char) (span : Span) : Nat × Nat :=
  (((Text.slice? 0 span.start line).map List.length).getD 0,
    max 1 (((Text.slice? span.start span.stop line).map List.length).getD 1))

def excerpt (e : ParseError) (line : List Char) : String :=
  let gutter := Decimal.ofNat e.line
  let marked :=
    match e.span with
    | none => ""
    | some span =>
      let (before, width) := caretColumns line span
      "\n " ++ spaces gutter.length ++ " | " ++ spaces before ++
        String.ofList (List.replicate width '^')
  "\n " ++ gutter ++ " | " ++ String.ofList line ++ marked

def render (e : ParseError) (source : String) : String :=
  match (Text.lines source.toList)[e.line - 1]? with
  | none => e.message
  | some line => e.message ++ e.excerpt line

end ParseError

def Token.fail (t : Token) (cause : ParseError.Cause) : ParseError :=
  ⟨t.line, some t.span, cause⟩

def Token.unexpected (t : Token) : ParseError :=
  t.fail (.unexpectedToken t.text)

end TileMachine
