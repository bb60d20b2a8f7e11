import TileMachine.Source.Token
import TileMachine.Text.Lines

/-! From text to tokens, line by line. Lexing loses nothing: the texts of a
line's tokens make up the line. -/
namespace TileMachine.Lexer
open Text

structure Lexeme where
  kind : TokenKind
  text : List Char
deriving DecidableEq, Repr

inductive CharClass where
  | blank | bracket | word
deriving DecidableEq, Repr

def CharClass.of (c : Char) : CharClass :=
  if c == '[' || c == ']' then bracket else if isBlank c then blank else word

/-- Neighbours in one token: brackets stand alone. -/
def sameRun (a b : Char) : Bool :=
  CharClass.of a == CharClass.of b && CharClass.of a != .bracket

/-- Cuts a line at its first double hyphen, where the comment starts. -/
def splitComment : List Char → List Char × List Char
  | [] => ([], [])
  | '-' :: '-' :: cs => ([], '-' :: '-' :: cs)
  | c :: cs =>
    let (code, comment) := splitComment cs
    (c :: code, comment)

/-- At most one lexeme: none for the empty text. -/
def lexeme (kind : TokenKind) (text : List Char) : List Lexeme :=
  if text.isEmpty then [] else [⟨kind, text⟩]

def lexRun (run : List Char) : Lexeme :=
  ⟨if run.all isBlank then .blank else .ofText run, run⟩

/-- Code that ends in a colon is a label declaration as a whole. -/
def lexCode (code : List Char) : List Lexeme :=
  if (trimEnd code).getLast? = some ':' then
    lexeme .blank (leading code) ++ lexeme .labelDef (trim code) ++ lexeme .blank (trailing code)
  else
    (code.splitBy sameRun).map lexRun

def startsWithKeyword (keyword : String) (line : List Char) : Bool :=
  (firstWord line).map Char.toLower == keyword.toList

def endsWithSemicolon (line : List Char) : Bool :=
  (trimEnd line).getLast? == some ';'

/-- The lexemes of one line, and whether the next line is inside a definition
block. A block ends with a blank line or a line that ends in a semicolon, and
all its lines are comments. So is a line that the word `comment` opens. -/
def lexLine (inBlock : Bool) (line : List Char) : List Lexeme × Bool :=
  if inBlock then
    (lexeme .comment line, !((trim line).isEmpty || endsWithSemicolon line))
  else if startsWithKeyword "define" line then
    (lexeme .comment line, !endsWithSemicolon line)
  else if startsWithKeyword "comment" line then
    (lexeme .comment line, false)
  else
    let (code, comment) := splitComment line
    (lexCode code ++ lexeme .comment comment, false)

def place (line start : Nat) : List Lexeme → List Token
  | [] => []
  | l :: ls =>
    let stop := start + byteLength l.text
    ⟨l.kind, String.ofList l.text, line, ⟨start, stop⟩⟩ :: place line stop ls

def lexLines (inBlock : Bool) (line : Nat) : List (List Char) → List Token
  | [] => []
  | cs :: rest =>
    let (lexemes, inBlock') := lexLine inBlock cs
    place line 0 lexemes ++ lexLines inBlock' (line + 1) rest

def tokenize (source : String) : List Token :=
  lexLines false 1 (lines source.toList)

end TileMachine.Lexer
