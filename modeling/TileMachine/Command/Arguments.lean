import TileMachine.Machine
import TileMachine.Text.Decimal

/-! The words of a command line. Options may stand before and after the paths, be
written long or short, carry their value in the same word or in the next one, and
short ones may be run together. -/
namespace TileMachine

inductive Command where
  | run (program : String) (inbox tiles : Option String) (verbose : Bool) (maxSteps : Nat)
  | check (program : String)
  | format (program : String)
  | test (program fixture : String) (maxSteps : Nat)
deriving DecidableEq, Repr

def Command.paths : Command → List String
  | run program _ _ _ _ | check program | format program => [program]
  | test program fixture _ => [program, fixture]

inductive Invocation where
  | version
  | command (c : Command)
deriving DecidableEq, Repr

namespace Arguments

inductive Flag where
  | inbox | tiles | verbose | maxSteps
deriving DecidableEq, Repr

def Flag.long : Flag → String
  | inbox => "inbox"
  | tiles => "tiles"
  | verbose => "verbose"
  | maxSteps => "max-steps"

def Flag.short? : Flag → Option Char
  | inbox => some 'i'
  | tiles => some 't'
  | verbose => some 'v'
  | maxSteps => none

def Flag.takesValue : Flag → Bool
  | verbose => false
  | inbox | tiles | maxSteps => true

inductive Verb where
  | run | check | format | test
deriving DecidableEq, Repr

def Verb.ofName? : String → Option Verb
  | "run" => some run
  | "check" => some check
  | "fmt" => some format
  | "test" => some test
  | _ => none

def Verb.flags : Verb → List Flag
  | run => [.inbox, .tiles, .verbose, .maxSteps]
  | test => [.maxSteps]
  | check | format => []

structure Scan where
  values : List (Flag × String) := []
  paths : List String := []
  /-- A flag that waits for the next word as its value. -/
  pending : Option Flag := none
  onlyPaths : Bool := false
deriving DecidableEq, Repr

namespace Scan

def set (s : Scan) (flag : Flag) (value : String) : Option Scan :=
  if (s.values.lookup flag).isSome then none
  else some { s with values := (flag, value) :: s.values, pending := none }

def await (s : Scan) (flag : Flag) : Scan :=
  { s with pending := some flag }

/-- Short flags in one word: the first one that takes a value takes all the rest
of the word, without an equals sign in front. -/
def short (verb : Verb) : List Char → Scan → Option Scan
  | [], s => some s
  | c :: cs, s => do
    let flag ← verb.flags.find? (·.short? == some c)
    if flag.takesValue then
      match cs with
      | [] => return s.await flag
      | '=' :: value => s.set flag (String.ofList value)
      | value => s.set flag (String.ofList value)
    else short verb cs (← s.set flag "")

def long (verb : Verb) (word : List Char) (s : Scan) : Option Scan := do
  let flag ← verb.flags.find? (·.long.toList == word.takeWhile (· != '='))
  match flag.takesValue, word.dropWhile (· != '=') with
  | true, [] => return s.await flag
  | true, _ :: value => s.set flag (String.ofList value)
  | false, [] => s.set flag ""
  | false, _ :: _ => none

/-- A lone hyphen is a path; two of them leave only paths to follow. -/
def word (verb : Verb) (s : Scan) (text : String) : Option Scan :=
  match s.pending with
  | some flag => s.set flag text
  | none =>
    if s.onlyPaths then some { s with paths := text :: s.paths }
    else
      match text.toList with
      | ['-', '-'] => some { s with onlyPaths := true }
      | '-' :: '-' :: cs => long verb cs s
      | '-' :: c :: cs => short verb (c :: cs) s
      | _ => some { s with paths := text :: s.paths }

def value? (s : Scan) (flag : Flag) : Option String :=
  s.values.lookup flag

/-- The bound from the command line, else from the environment, else the default. -/
def maxSteps? (s : Scan) (environment : Option String) : Option Nat :=
  match s.value? .maxSteps <|> environment with
  | none => some defaultLimit
  | some text => (Decimal.natural? text.toList).filter (· < Nat.pow 2 64)

def command? (s : Scan) (verb : Verb) (environment : Option String) : Option Command :=
  match verb, s.paths.reverse with
  | .run, [program] => do
    let maxSteps ← s.maxSteps? environment
    return .run program (s.value? .inbox) (s.value? .tiles) (s.value? .verbose).isSome maxSteps
  | .check, [program] => some (.check program)
  | .format, [program] => some (.format program)
  | .test, [program, fixture] => do
    return .test program fixture (← s.maxSteps? environment)
  | _, _ => none

end Scan

def parseVerb (verb : Verb) (words : List String) (environment : Option String) :
    Option Command := do
  let s ← words.foldlM (Scan.word verb) {}
  guard (s.pending.isNone ∧ "" ∉ s.paths)
  s.command? verb environment

/-- Nothing for a command line that makes no sense. `environment` is the bound on
the steps that the environment sets, if it does. -/
def parse (words : List String) (environment : Option String) : Option Invocation :=
  match words with
  | [] => none
  | first :: rest =>
    match first.toList with
    | '-' :: 'V' :: _ => some .version
    | _ =>
      if first = "--version" then some .version
      else do
        let verb ← Verb.ofName? first
        return .command (← parseVerb verb rest environment)

end Arguments
end TileMachine
