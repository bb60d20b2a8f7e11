import TileMachine.Source.ParseError

/-! A line of a program is empty, declares a label, or gives one operation with
its argument. Jumps still name their label here. -/
namespace TileMachine

inductive Argument where
  | nothing
  | tile (address : Address)
  | label (name : String) (span : Span)
deriving DecidableEq, Repr

inductive Statement where
  | declare (name : String) (token : Token)
  | operation (opcode : Opcode) (argument : Argument) (line : Nat)
deriving DecidableEq, Repr

namespace Statement

/-- Label names are not empty and hold no blank and no bracket. -/
def isLabelName (cs : List Char) : Bool :=
  !cs.isEmpty && cs.all fun c => !(Text.isBlank c || c == '[' || c == ']')

def noMore : List Token → Except ParseError Unit
  | [] => .ok ()
  | t :: _ => .error t.unexpected

def readAddress (t : Token) : Except ParseError Nat :=
  match Decimal.integer? t.text.toList with
  | none => .error (t.fail (.invalidInteger t.text))
  | some n =>
    if Decimal.InRange n then
      if 0 ≤ n then .ok n.toNat else .error (t.fail (.invalidAddress t.text))
    else .error (t.fail (.invalidInteger t.text))

/-- The tokens up to the first closing bracket, that one included. -/
def bracketed : List Token → List Token
  | [] => []
  | t :: ts => if t.kind = .rightBracket then [t] else t :: bracketed ts

def malformedIndirect (first : Token) (rest : List Token) : ParseError :=
  let covered := bracketed (first :: rest)
  let last := covered.getLast?.getD first
  ⟨first.line, some (first.span.cover last.span),
    .malformedIndirect (" ".intercalate (covered.map Token.text))⟩

def readTile (opcode : Opcode) (first : Token) (rest : List Token) : Except ParseError Argument :=
  match first.kind, rest with
  | .integer, _ => do
    let n ← readAddress first
    noMore rest
    return .tile (.direct n)
  | .leftBracket, inner :: close :: more =>
    if inner.kind = .integer ∧ close.kind = .rightBracket then do
      let n ← readAddress inner
      noMore more
      return .tile (.indirect n)
    else .error (malformedIndirect first rest)
  | .leftBracket, _ | .rightBracket, _ => .error (malformedIndirect first rest)
  | _, _ => .error (first.fail (.expectedAddress opcode first.text))

def readLabel (opcode : Opcode) (first : Token) (rest : List Token) : Except ParseError Argument :=
  match first.kind with
  | .word | .integer => do
    noMore rest
    return .label first.text first.span
  | _ => .error (first.fail (.expectedLabel opcode first.text))

def readArgument (opcode : Opcode) (mnemonic : Token) (args : List Token) :
    Except ParseError Argument :=
  match opcode.operandKind, args with
  | .nothing, _ => do
    noMore args
    return .nothing
  | expected, [] => .error (mnemonic.fail (.missingArgument opcode expected))
  | .tile, first :: rest => readTile opcode first rest
  | .label, first :: rest => readLabel opcode first rest

def readDeclaration (first : Token) (args : List Token) : Except ParseError Statement :=
  let name := first.labelName?.getD ""
  if isLabelName name.toList then do
    noMore args
    return .declare name first
  else .error (first.fail (.invalidLabel name))

def readOperation (first : Token) (args : List Token) : Except ParseError Statement :=
  match Opcode.ofMnemonic? first.text with
  | none => .error (first.fail (.unknownOpcode first.text))
  | some opcode => do
    let argument ← readArgument opcode first args
    return .operation opcode argument first.line

def ofTokens (tokens : List Token) : Except ParseError (Option Statement) :=
  match tokens.filter Token.isSignificant with
  | [] => .ok none
  | first :: args =>
    match first.kind with
    | .labelDef => some <$> readDeclaration first args
    | .word => some <$> readOperation first args
    | _ => .error first.unexpected

end Statement
end TileMachine
