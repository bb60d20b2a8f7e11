import TileMachine.Command.Arguments
import TileMachine.Command.Report
import TileMachine.InputList
import TileMachine.Program.Listing
import TileMachine.Source.Assembly
import TileMachine.Trace

/-! The commands: run a program, check it, print its listing, and test it against
a fixture. Files are looked up by path; each step of a command may end it early
with a report. -/
namespace TileMachine

abbrev Files := String → Except FileError ByteArray

namespace Command

def readText (files : Files) (path : String) : Except Report String :=
  match files path with
  | .error error => .error (.refuse .badInput (.unreadable path error))
  | .ok bytes =>
    match String.fromUTF8? bytes with
    | some text => .ok text
    | none => .error (.refuse .badInput (.unreadable path .notText))

def loadProgram (files : Files) (path : String) : Except Report (String × Program) := do
  let source ← readText files path
  match Program.parse source with
  | .ok program => return (source, program)
  | .error error => .error (.refuse .badInput (.refused path error source))

/-- No steps at most means no bound. -/
def limitOf (maxSteps : Nat) : Option Nat :=
  if maxSteps = 0 then none else some maxSteps

def loadMachine (program : Program) (limit : Option Nat) : Except Report Machine :=
  match h : program.errors with
  | [] => .ok ⟨program, limit, h⟩
  | errors => .error ⟨.invalidProgram, "", errors.map .invalid⟩

def loadInbox (text : Option String) : Except Report (List Value) :=
  (Value.parseList (text.getD "")).mapError fun error => .refuse .badInput (.badInbox error)

def loadTiles : Option String → Except Report Tiles
  | none => .ok ∅
  | some text => (Tiles.parse text).mapError fun error => .refuse .badInput (.badTiles error)

def loadFixture (files : Files) (path : String) : Except Report Fixture := do
  let text ← readText files path
  (Fixture.parse text).mapError fun error => .refuse .badInput (.badFixture path error)

/-- The source line of the instruction that failed, without the blanks around. -/
def place? (source : String) (program : Program) (error : RuntimeError) :
    Option (Nat × String) := do
  let line ← program.lineOf? (← error.index?)
  let text ← (Text.lines source.toList)[line - 1]?
  return (line, String.ofList (Text.trim text))

def failedRun (source : String) (program : Program) (output : String) (error : RuntimeError) :
    Report :=
  ⟨.runtimeError, output, [.failed error (place? source program error)]⟩

def runPlain (patience : Nat) (source : String) (machine : Machine) (inbox : List Value)
    (tiles : Tiles) : Option Report :=
  (machine.run? patience inbox tiles).map fun
    | .ok outbox => { ending := .success, output := Text.unlines [Value.join outbox] }
    | .error error => failedRun source machine.program "" error

def runVerbose (patience : Nat) (source : String) (machine : Machine) (inbox : List Value)
    (tiles : Tiles) : Option Report := do
  let (frames, last, e) ← (machine.start inbox tiles).history? (machine.calls patience)
  let lines := ("< " ++ Value.join inbox) :: Trace.describeAll machine.program frames
  match last with
  | .failed error => return failedRun source machine.program (Text.unlines lines) error
  | _ =>
    return { ending := .success, output := Text.unlines (lines ++ ["> " ++ Value.join e.outbox]) }

def answerRun (files : Files) (patience : Nat) (path : String) (inbox tiles : Option String)
    (verbose : Bool) (maxSteps : Nat) : Except Report (Option Report) := do
  let (source, program) ← loadProgram files path
  let inbox ← loadInbox inbox
  let tiles ← loadTiles tiles
  let machine ← loadMachine program (limitOf maxSteps)
  if verbose then return runVerbose patience source machine inbox tiles
  else return runPlain patience source machine inbox tiles

def answerCheck (files : Files) (path : String) : Except Report Report := do
  let (_, program) ← loadProgram files path
  let _ ← loadMachine program none
  return { ending := .success
           output := Text.unlines ["OK: " ++ path ++ " (" ++ Decimal.ofNat program.length ++
             " instructions, " ++ Decimal.ofNat program.labels.size ++ " labels)"] }

def answerFormat (files : Files) (path : String) : Except Report Report := do
  let (_, program) ← loadProgram files path
  return { ending := .success, output := program.listing }

inductive Verdict where
  | pass
  | mismatch (outbox : List Value)
  | failed (error : RuntimeError)
deriving DecidableEq, Repr

def Verdict.of (x : Example) : Except RuntimeError (List Value) → Verdict
  | .ok outbox => if outbox = x.outbox then pass else mismatch outbox
  | .error error => failed error

def Verdict.lines (v : Verdict) (x : Example) (index : Nat) : List String :=
  let title := "example " ++ Decimal.ofNat index ++ ": "
  match v with
  | pass => [title ++ "ok"]
  | mismatch outbox =>
    [title ++ "FAILED", "  expected: " ++ Value.join x.outbox, "  got:      " ++ Value.join outbox]
  | failed e => [title ++ "FAILED", "  runtime error: " ++ e.message]

def judge? (patience : Nat) (machine : Machine) (tiles : Tiles) (x : Example) : Option Verdict :=
  (machine.run? patience x.inbox tiles).map (Verdict.of x)

def testReport (examples : List Example) (verdicts : List Verdict) : Report :=
  let lines := (examples.zip verdicts).zipIdx.flatMap fun ((x, v), index) => v.lines x index
  let passed := verdicts.count .pass
  let summary :=
    Decimal.ofNat passed ++ "/" ++ Decimal.ofNat examples.length ++ " examples passed"
  { ending := if passed = examples.length then .success else .mismatch
    output := Text.unlines (lines ++ [summary]) }

def answerTest (files : Files) (patience : Nat) (path fixturePath : String) (maxSteps : Nat) :
    Except Report (Option Report) := do
  let (_, program) ← loadProgram files path
  let fixture ← loadFixture files fixturePath
  let machine ← loadMachine program (limitOf maxSteps)
  return (fixture.examples.mapM (judge? patience machine fixture.tiles)).map
    (testReport fixture.examples)

/-- The report of a command; nothing if a run without a bound outlasts `patience`. -/
def respond? (files : Files) (patience : Nat) : Command → Option Report
  | .run path inbox tiles verbose maxSteps =>
    early (answerRun files patience path inbox tiles verbose maxSteps)
  | .check path => early (some <$> answerCheck files path)
  | .format path => early (some <$> answerFormat files path)
  | .test path fixture maxSteps => early (answerTest files patience path fixture maxSteps)
where
  early : Except Report (Option Report) → Option Report
    | .ok report => report
    | .error report => some report

end Command

def versionText : String := "hrmi 0.1.0"

end TileMachine
