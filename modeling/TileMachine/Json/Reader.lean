import TileMachine.Json.Token
import TileMachine.Value

/-! Reading JSON from left to right. The first problem decides: data of the wrong
shape is reported even if the text is broken further on. -/
namespace TileMachine.Json

inductive Mismatch where
  | invalidType
  | invalidLength
  | missingField (name : String)
  | duplicateField (name : String)
  | notAValue
  | notAFloor
  | value (error : ValueError)
  | invalidAddress (key : String)
deriving DecidableEq, Repr

inductive Error where
  /-- The text is no JSON, or nested too deeply. -/
  | malformed
  | data (mismatch : Mismatch)
deriving DecidableEq, Repr

def Mismatch.headline : Mismatch → String
  | invalidType => "invalid type"
  | invalidLength => "invalid length"
  | missingField name => "missing field `" ++ name ++ "`"
  | duplicateField name => "duplicate field `" ++ name ++ "`"
  | notAValue => "data did not match any variant of untagged enum RawValue"
  | notAFloor => "data did not match any variant of untagged enum RawFloor"
  | value error => error.message
  | invalidAddress key => "invalid tile address '" ++ key ++ "'"

/-- The rest is in the words of the JSON reader: where the problem is and, for a wrong type
or length, what was found and expected. -/
def Mismatch.message (mismatch : Mismatch) (words : String := "") : String :=
  mismatch.headline ++ words

def Error.message (words : String) : Error → String
  | malformed => words
  | data mismatch => mismatch.message words

abbrev Reader (α : Type) := List Token → Except Error (α × List Token)

inductive Tree where
  | null
  | bool (b : Bool)
  | number (n : Number)
  | text (s : String)
  | array (items : List Tree)
  | object (members : List (String × Tree))

def maxDepth : Nat := 127

/-- How carefully to read: data that is kept is limited in depth, and its numbers
and strings have to be representable; data that is skipped only has to be
well-formed. -/
inductive Care where
  | keep (depth : Nat)
  | skip
deriving DecidableEq, Repr

def Care.enter : Care → Except Error Care
  | keep 0 => .error .malformed
  | keep (depth + 1) => .ok (keep depth)
  | skip => .ok skip

def Care.number (care : Care) (n : Number) : Except Error Number :=
  match care, n with
  | keep _, .huge => .error .malformed
  | _, _ => .ok n

def Care.text (care : Care) (s : Option String) : Except Error String :=
  match care, s with
  | _, some s => .ok s
  | keep _, none => .error .malformed
  | skip, none => .ok ""

mutual
/-- A whole value, in at most `bound` calls one inside the other. -/
def readTree : (bound : Nat) → Care → Reader Tree
  | 0, _, _ => .error .malformed
  | bound + 1, care, tokens =>
    match tokens with
    | .null :: rest => .ok (.null, rest)
    | .bool b :: rest => .ok (.bool b, rest)
    | .number n :: rest => do return (.number (← care.number n), rest)
    | .text s :: rest => do return (.text (← care.text s), rest)
    | .leftBracket :: rest => do
      let care ← care.enter
      match rest with
      | .rightBracket :: rest => return (.array [], rest)
      | _ => readItems bound care [] rest
    | .leftBrace :: rest => do
      let care ← care.enter
      match rest with
      | .rightBrace :: rest => return (.object [], rest)
      | _ => readMembers bound care [] rest
    | _ => .error .malformed

def readItems : (bound : Nat) → Care → List Tree → Reader Tree
  | 0, _, _, _ => .error .malformed
  | bound + 1, care, before, tokens => do
    let (item, rest) ← readTree bound care tokens
    match rest with
    | .comma :: rest => readItems bound care (item :: before) rest
    | .rightBracket :: rest => return (.array (item :: before).reverse, rest)
    | _ => .error .malformed

def readMembers : (bound : Nat) → Care → List (String × Tree) → Reader Tree
  | 0, _, _, _ => .error .malformed
  | bound + 1, care, before, tokens => do
    match tokens with
    | .text key :: .colon :: rest =>
      let key ← care.text key
      let (member, rest) ← readTree bound care rest
      match rest with
      | .comma :: rest => readMembers bound care ((key, member) :: before) rest
      | .rightBrace :: rest => return (.object ((key, member) :: before).reverse, rest)
      | _ => .error .malformed
    | _ => .error .malformed
end

def callBound : List Token → Nat
  | tokens@(.leftBracket :: _) | tokens@(.leftBrace :: _) => 2 * tokens.length + 1
  | _ => 1

def read (care : Care) : Reader Tree := fun tokens =>
  readTree (callBound tokens) care tokens

def wrongType {α : Type} (depth : Nat) (tokens : List Token) : Except Error α :=
  match tokens with
  | .leftBracket :: _ | .leftBrace :: _ => .error (.data .invalidType)
  | _ => do
    let _ ← read (.keep depth) tokens
    .error (.data .invalidType)

def nextItem? (first : Bool) : List Token → Except Error (Option (List Token))
  | [] => .error .malformed
  | .rightBracket :: _ => .ok none
  | .comma :: rest =>
    match first, rest with
    | false, .rightBracket :: _ => .error .malformed
    | false, rest => .ok (some rest)
    | true, _ => .error .malformed
  | tokens => if first then .ok (some tokens) else .error .malformed

def nextKey? (first : Bool) : List Token → Except Error (Option (String × List Token))
  | .rightBrace :: _ => .ok none
  | .comma :: .text (some key) :: rest =>
    if first then .error .malformed else .ok (some (key, rest))
  | .text (some key) :: rest =>
    if first then .ok (some (key, rest)) else .error .malformed
  | _ => .error .malformed

def expect (token : Token) : List Token → Except Error (List Token)
  | [] => .error .malformed
  | t :: rest => if t = token then .ok rest else .error .malformed

def readAll {α : Type} (item : Reader α) : (bound : Nat) → List α → Reader (List α)
  | 0, _, _ => .error .malformed
  | bound + 1, before, tokens => do
    match ← nextItem? before.isEmpty tokens with
    | none => return (before.reverse, ← expect .rightBracket tokens)
    | some tokens =>
      let (a, rest) ← item tokens
      readAll item bound (a :: before) rest

def readArray {α : Type} (depth : Nat) (item : Nat → Reader α) : Reader (List α) := fun tokens =>
  match tokens, depth with
  | .leftBracket :: _, 0 => .error .malformed
  | .leftBracket :: rest, depth + 1 => readAll (item depth) (tokens.length + 1) [] rest
  | _, _ => wrongType depth tokens

def readNullable {α : Type} (read : Reader α) : Reader (Option α)
  | .null :: rest => .ok (none, rest)
  | tokens => do
    let (a, rest) ← read tokens
    return (some a, rest)

/-- A field of a record: whether it has been read already, and how to read it. -/
structure Field (σ : Type) where
  name : String
  present : σ → Bool
  /-- Told how many levels are left below. -/
  add : (depth : Nat) → σ → Reader σ

/-- How a record is read. Fields come as members of an object in any order, or as
items of an array in the order of `fields`. -/
structure Shape (σ α : Type) where
  empty : σ
  fields : List (Field σ)
  /-- The record, or the name of the first field that is missing. -/
  close : σ → Except String α

namespace Shape
variable {σ α : Type}

/-- Members with another name than those of the fields are skipped. -/
def readFields (shape : Shape σ α) (depth : Nat) : (bound : Nat) → Bool → σ → Reader σ
  | 0, _, _, _ => .error .malformed
  | bound + 1, first, seen, tokens => do
    match ← nextKey? first tokens with
    | none => return (seen, ← expect .rightBrace tokens)
    | some (key, rest) =>
      match shape.fields.find? (·.name == key) with
      | none =>
        let (_, rest) ← Json.read .skip (← expect .colon rest)
        shape.readFields depth bound false seen rest
      | some field =>
        if field.present seen then .error (.data (.duplicateField key))
        else
          let (seen, rest) ← field.add depth seen (← expect .colon rest)
          shape.readFields depth bound false seen rest

def readPositions (depth : Nat) : List (Field σ) → Bool → σ → Reader σ
  | [], _, seen, tokens => .ok (seen, tokens)
  | field :: fields, first, seen, tokens => do
    match ← nextItem? first tokens with
    | none => readPositions depth fields first seen tokens
    | some tokens =>
      let (seen, rest) ← field.add depth seen tokens
      readPositions depth fields false seen rest

def read (shape : Shape σ α) (depth : Nat) : Reader α := fun tokens =>
  match tokens, depth with
  | .leftBrace :: _, 0 | .leftBracket :: _, 0 => .error .malformed
  | .leftBrace :: rest, depth + 1 => do
    let (seen, rest) ← shape.readFields depth (tokens.length + 1) true shape.empty rest
    match shape.close seen with
    | .ok a => return (a, rest)
    | .error name => .error (.data (.missingField name))
  | .leftBracket :: rest, depth + 1 => do
    let (seen, rest) ← readPositions depth shape.fields true shape.empty rest
    match shape.close seen with
    | .ok a => return (a, ← expect .rightBracket rest)
    | .error _ => .error (.data .invalidLength)
  | _, _ => wrongType depth tokens

end Shape

def parse {α : Type} (read : Nat → Reader α) (text : String) : Except Error α := do
  match ← read maxDepth (lex text) with
  | (a, []) => return a
  | (_, _ :: _) => .error .malformed

end TileMachine.Json
