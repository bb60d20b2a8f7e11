import TileMachine.Json.Reader
import TileMachine.Tiles

/-! Fixtures: an initial floor and examples of an inbox with the outbox that a
program has to produce from it, read from JSON. -/
namespace TileMachine

structure Example where
  inbox : List Value
  outbox : List Value
deriving DecidableEq, Repr

structure Fixture where
  tiles : Tiles
  examples : List Example
deriving DecidableEq

namespace Value
open Json

def ofTree : Tree → Except Mismatch Value
  | .number (.int n) => if Decimal.InRange n then .ok (int n) else .error .notAValue
  | .text s => (ofQuoted s).mapError .value
  | _ => .error .notAValue

def readJson (depth : Nat) : Reader Value := fun tokens => do
  let (tree, rest) ← Json.read (.keep depth) tokens
  match ofTree tree with
  | .ok v => return (v, rest)
  | .error mismatch => .error (.data mismatch)

def parseJson (text : String) : Except Json.Error Value :=
  Json.parse readJson text

end Value

namespace Tiles
open Json

def itemOfTree : Tree → Except Mismatch (Option Value)
  | .null => .ok none
  | tree => (some <$> Value.ofTree tree).mapError fun _ => .notAFloor

def addressOfKey (key : String) : Except Mismatch Nat :=
  match Decimal.natural? (Text.trim key.toList) with
  | some n => if n < Decimal.addressCount then .ok n else .error (.invalidAddress key)
  | none => .error (.invalidAddress key)

/-- Of equal keys the last one counts. Then the keys are taken in their order, and
of those that mean the same address again the last one counts. -/
def ofMembers (members : List (String × Option Value)) : Except Mismatch Tiles :=
  let byKey : Std.ExtTreeMap String (Option Value) := .ofList members
  byKey.toList.foldlM (fun tiles (key, item) =>
    return tiles.insert (← addressOfKey key) item) ∅

def ofTree : Tree → Except Mismatch Tiles
  | .array items => ofItems <$> items.mapM itemOfTree
  | .object members => do
    ofMembers (← members.mapM fun (key, tree) => return (key, ← itemOfTree tree))
  | _ => .error .notAFloor

def readJson (depth : Nat) : Reader Tiles := fun tokens => do
  let (tree, rest) ← Json.read (.keep depth) tokens
  match ofTree tree with
  | .ok tiles => return (tiles, rest)
  | .error mismatch => .error (.data mismatch)

end Tiles

namespace Example
open Json

structure Partial where
  inbox : Option (List Value) := none
  outbox : Option (List Value) := none

def shape : Shape Partial Example where
  empty := {}
  fields := [
    { name := "inbox"
      present := (·.inbox.isSome)
      add := fun depth seen tokens => do
        let (inbox, rest) ← readArray depth Value.readJson tokens
        return ({ seen with inbox := some inbox }, rest) },
    { name := "outbox"
      present := (·.outbox.isSome)
      add := fun depth seen tokens => do
        let (outbox, rest) ← readArray depth Value.readJson tokens
        return ({ seen with outbox := some outbox }, rest) }]
  close := fun
    | ⟨none, _⟩ => .error "inbox"
    | ⟨some _, none⟩ => .error "outbox"
    | ⟨some inbox, some outbox⟩ => .ok ⟨inbox, outbox⟩

end Example

namespace Fixture
open Json

def levelShape : Shape (Option Tiles) Tiles where
  empty := none
  fields := [
    { name := "tiles"
      present := Option.isSome
      add := fun depth _ tokens => do
        let (tiles, rest) ← Tiles.readJson depth tokens
        return (some tiles, rest) }]
  close := fun tiles => .ok (tiles.getD ∅)

structure Partial where
  tiles : Option (Option Tiles) := none
  floor : Option (Option Tiles) := none
  examples : Option (List Example) := none

/-- Tiles at the top win over those of a floor object. -/
def Partial.floorTiles (p : Partial) : Tiles :=
  (p.tiles.join <|> p.floor.join).getD ∅

def shape : Shape Partial Fixture where
  empty := {}
  fields := [
    { name := "tiles"
      present := (·.tiles.isSome)
      add := fun depth seen tokens => do
        let (tiles, rest) ← readNullable (Tiles.readJson depth) tokens
        return ({ seen with tiles := some tiles }, rest) },
    { name := "floor"
      present := (·.floor.isSome)
      add := fun depth seen tokens => do
        let (floor, rest) ← readNullable (levelShape.read depth) tokens
        return ({ seen with floor := some floor }, rest) },
    { name := "examples"
      present := (·.examples.isSome)
      add := fun depth seen tokens => do
        let (examples, rest) ← readArray depth Example.shape.read tokens
        return ({ seen with examples := some examples }, rest) }]
  close := fun seen =>
    match seen.examples with
    | none => .error "examples"
    | some examples => .ok ⟨seen.floorTiles, examples⟩

def parse (text : String) : Except Json.Error Fixture :=
  Json.parse shape.read text

end Fixture
end TileMachine
