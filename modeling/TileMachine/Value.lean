import TileMachine.Text.Blank
import TileMachine.Text.Decimal

/-! What the actor carries: an integer or a letter. Letters are kept in upper
case; integers are plain, and `Valid` states the range that reading accepts and
arithmetic stays in. -/
namespace TileMachine

inductive Value where
  | int (n : Int)
  | letter (c : Char)
deriving DecidableEq, Repr

inductive ValueError where
  | invalid (text : String)
  | notALetter (c : Char)
deriving DecidableEq, Repr

def ValueError.message : ValueError → String
  | .invalid text => "invalid value '" ++ text ++ "'"
  | .notALetter c => "invalid letter '" ++ String.singleton c ++ "' (expected A-Z)"

namespace Value

def Valid : Value → Prop
  | int n => Decimal.InRange n
  | letter c => c.isUpper

instance : DecidablePred Valid
  | int n => inferInstanceAs (Decidable (Decimal.InRange n))
  | letter c => inferInstanceAs (Decidable (c.isUpper = true))

def ofLetter (c : Char) : Except ValueError Value :=
  if c.isAlpha then .ok (letter c.toUpper) else .error (.notALetter c)

/-- Blanks around the text do not count. One letter is a letter in either case,
everything else has to be an integer in range. -/
def ofChars (cs : List Char) : Except ValueError Value :=
  match Text.trim cs with
  | [c] =>
    if c.isAlpha then .ok (letter c.toUpper) else integer [c]
  | trimmed => integer trimmed
where
  integer (trimmed : List Char) : Except ValueError Value :=
    match Decimal.integer? trimmed with
    | some n => if Decimal.InRange n then .ok (int n) else .error (.invalid (String.ofList trimmed))
    | none => .error (.invalid (String.ofList trimmed))

def parse (text : String) : Except ValueError Value :=
  ofChars text.toList

/-- A quoted value is exactly one letter. -/
def ofQuoted (text : String) : Except ValueError Value :=
  match text.toList with
  | [c] => ofLetter c
  | _ => .error (.invalid text)

def text : Value → String
  | int n => Decimal.ofInt n
  | letter c => String.singleton c

def int? : Value → Option Int
  | int n => some n
  | letter _ => none

def isZero (v : Value) : Bool :=
  v == int 0

def join (values : List Value) : String :=
  " ".intercalate (values.map text)

end Value
end TileMachine
