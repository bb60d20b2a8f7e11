import TileMachine.Text.Blank
import TileMachine.Text.Bytes

/-! The tokens of a program text. Blanks and comments are tokens too, so that a
text can be put together again from its tokens. -/
namespace TileMachine

/-- Byte positions within a line, the second one excluded. -/
structure Span where
  start : Nat
  stop : Nat
deriving DecidableEq, Repr

def Span.cover (a b : Span) : Span :=
  ⟨min a.start b.start, max a.stop b.stop⟩

inductive TokenKind where
  | integer | word | labelDef | leftBracket | rightBracket | comment | blank
deriving DecidableEq, Repr

/-- A token on a 1-based source line. -/
structure Token where
  kind : TokenKind
  text : String
  line : Nat
  span : Span
deriving DecidableEq, Repr

def isIntegerLiteral : List Char → Bool
  | '-' :: cs => !cs.isEmpty && cs.all Char.isDigit
  | cs => !cs.isEmpty && cs.all Char.isDigit

def TokenKind.ofText (cs : List Char) : TokenKind :=
  if cs = ['['] then leftBracket
  else if cs = [']'] then rightBracket
  else if isIntegerLiteral cs then integer
  else word

namespace Token

def isSignificant (t : Token) : Bool :=
  t.kind != .comment && t.kind != .blank

/-- The name that a label declaration declares: its text without the colon at
the end and the blanks around. -/
def labelName? (t : Token) : Option String :=
  match t.kind, t.text.toList.reverse with
  | .labelDef, ':' :: rest => some (String.ofList (Text.trim rest.reverse))
  | _, _ => none

/-- The token with another text at the same place. Declarations, comments and
blanks keep their kind, whatever the text. -/
def substitute (t : Token) (text : String) : Token where
  kind :=
    match t.kind with
    | .labelDef | .comment | .blank => t.kind
    | _ => .ofText text.toList
  text := text
  line := t.line
  span := ⟨t.span.start, t.span.start + Text.byteLength text.toList⟩

def renderFrom (line : Nat) : List Token → List Char
  | [] => []
  | t :: ts =>
    List.replicate (t.line - line) '\n' ++ t.text.toList ++ renderFrom (max line t.line) ts

def render (tokens : List Token) : String :=
  if tokens.isEmpty then "" else String.ofList (renderFrom 1 tokens ++ ['\n'])

end Token
end TileMachine
