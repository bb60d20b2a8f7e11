import TileMachine.Json.Number

/-! The tokens of a JSON text. A text that cannot be split further ends in the
token `invalid`, so that a reader meets the fault only when it gets there. -/
namespace TileMachine.Json

inductive Token where
  | leftBrace | rightBrace | leftBracket | rightBracket | colon | comma
  | null
  | bool (b : Bool)
  | number (n : Number)
  /-- A string; nothing for one with a surrogate that has no partner. -/
  | text (s : Option String)
  | invalid
deriving DecidableEq, Repr

def isSpace (c : Char) : Bool :=
  c == ' ' || c == '\t' || c == '\n' || c == '\r'

/-- A piece of a string: a character, or a UTF-16 unit given by an escape. -/
inductive Piece where
  | char (c : Char)
  | unit (n : Nat)
deriving DecidableEq, Repr

def isHighSurrogate (n : Nat) : Bool := 0xD800 ≤ n && n < 0xDC00
def isLowSurrogate (n : Nat) : Bool := 0xDC00 ≤ n && n < 0xE000

/-- Surrogates have to come in pairs, the high one first. -/
def joinPieces : List Piece → Option (List Char)
  | [] => some []
  | .char c :: ps => (joinPieces ps).map (c :: ·)
  | .unit high :: .unit low :: ps =>
    if isHighSurrogate high then
      if isLowSurrogate low then
        (joinPieces ps).map (Char.ofNat (0x10000 + (high - 0xD800) * 0x400 + (low - 0xDC00)) :: ·)
      else none
    else if isLowSurrogate high then none
    else (joinPieces (.unit low :: ps)).map (Char.ofNat high :: ·)
  | .unit n :: ps =>
    if isHighSurrogate n || isLowSurrogate n then none
    else (joinPieces ps).map (Char.ofNat n :: ·)

def hexValue? (c : Char) : Option Nat :=
  if c.isDigit then some (c.toNat - '0'.toNat)
  else if 'a' ≤ c ∧ c ≤ 'f' then some (c.toNat - 'a'.toNat + 10)
  else if 'A' ≤ c ∧ c ≤ 'F' then some (c.toNat - 'A'.toNat + 10)
  else none

def hexUnit? (a b c d : Char) : Option Nat := do
  return (((← hexValue? a) * 16 + (← hexValue? b)) * 16 + (← hexValue? c)) * 16 + (← hexValue? d)

def escape? : Char → Option Char
  | '"' => some '"'
  | '\\' => some '\\'
  | '/' => some '/'
  | 'b' => some '\x08'
  | 'f' => some '\x0c'
  | 'n' => some '\n'
  | 'r' => some '\r'
  | 't' => some '\t'
  | _ => none

def lexString : List Char → Option (List Piece × List Char)
  | [] => none
  | '"' :: cs => some ([], cs)
  | '\\' :: 'u' :: a :: b :: c :: d :: cs => do
    let n ← hexUnit? a b c d
    let (pieces, rest) ← lexString cs
    return (.unit n :: pieces, rest)
  | '\\' :: c :: cs => do
    let c ← escape? c
    let (pieces, rest) ← lexString cs
    return (.char c :: pieces, rest)
  | c :: cs => do
    guard (c ≠ '\\' ∧ 0x20 ≤ c.toNat)
    let (pieces, rest) ← lexString cs
    return (.char c :: pieces, rest)

def lexDigits (cs : List Char) : Option (List Char × List Char) :=
  match cs.takeWhile Char.isDigit with
  | [] => none
  | digits => some (digits, cs.dropWhile Char.isDigit)

def lexExponent : List Char → Option (Int × List Char)
  | '-' :: cs => (lexDigits cs).map fun (digits, rest) => (-(value digits), rest)
  | '+' :: cs => (lexDigits cs).map fun (digits, rest) => (value digits, rest)
  | cs => (lexDigits cs).map fun (digits, rest) => (value digits, rest)
where
  value (digits : List Char) : Int := Nat.ofDigitChars 10 digits 0

def lexScale (l : Literal) (cs : List Char) : Option (Literal × List Char) :=
  match cs with
  | 'e' :: cs | 'E' :: cs => do
    let (exponent, rest) ← lexExponent cs
    return ({ l with exponent, plain := false }, rest)
  | _ => some (l, cs)

def lexNumber (negative : Bool) (cs : List Char) : Option (Number × List Char) := do
  let (whole, rest) ← lexDigits cs
  guard (whole.head? ≠ some '0' ∨ whole.length = 1)
  let (literal, rest) ←
    match rest with
    | '.' :: rest => do
      let (fraction, rest) ← lexDigits rest
      lexScale { negative, whole, fraction, plain := false } rest
    | _ => lexScale { negative, whole } rest
  return (.ofLiteral literal, rest)

def lexToken : List Char → Option (Token × List Char)
  | '\x7b' :: cs => some (.leftBrace, cs)
  | '\x7d' :: cs => some (.rightBrace, cs)
  | '[' :: cs => some (.leftBracket, cs)
  | ']' :: cs => some (.rightBracket, cs)
  | ':' :: cs => some (.colon, cs)
  | ',' :: cs => some (.comma, cs)
  | 'n' :: 'u' :: 'l' :: 'l' :: cs => some (.null, cs)
  | 't' :: 'r' :: 'u' :: 'e' :: cs => some (.bool true, cs)
  | 'f' :: 'a' :: 'l' :: 's' :: 'e' :: cs => some (.bool false, cs)
  | '"' :: cs => (lexString cs).map fun (pieces, rest) =>
    (.text ((joinPieces pieces).map String.ofList), rest)
  | '-' :: cs => (lexNumber true cs).map fun (n, rest) => (.number n, rest)
  | cs => (lexNumber false cs).map fun (n, rest) => (.number n, rest)

/-- Every token takes at least one character, so the number of characters bounds
the number of tokens. -/
def lexUpTo : (bound : Nat) → List Char → List Token
  | 0, _ => []
  | bound + 1, cs =>
    match cs.dropWhile isSpace with
    | [] => []
    | cs =>
      match lexToken cs with
      | none => [.invalid]
      | some (token, rest) => token :: lexUpTo bound rest

def lex (text : String) : List Token :=
  lexUpTo text.toList.length text.toList

end TileMachine.Json
