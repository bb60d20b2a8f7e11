import TileMachine.Fixture
import TileMachine.Machine.RuntimeError
import TileMachine.Program.Validity
import TileMachine.Source.ParseError

/-! What a command answers: an exit code, lines for the standard output, and
complaints for the standard error. -/
namespace TileMachine

inductive FileError where
  | missing
  | directory
  | notText
  | other (message : String)
deriving DecidableEq, Repr

def FileError.message : FileError → String
  | missing => "No such file or directory (os error 2)"
  | directory => "Is a directory (os error 21)"
  | notText => "stream did not contain valid UTF-8"
  | other message => message

inductive Complaint where
  | unreadable (path : String) (error : FileError)
  | refused (path : String) (error : ParseError) (source : String)
  | badInbox (error : ValueError)
  | badTiles (error : ValueError)
  | badFixture (path : String) (error : Json.Error)
  | invalid (error : ProgramError)
  /-- A run that failed, with the number and the text of the source line. -/
  | failed (error : RuntimeError) (place : Option (Nat × String))
deriving DecidableEq, Repr

/-- A fixture is refused in the words of the JSON reader. -/
def Complaint.message (complaint : Complaint) (words : Json.Error → String := fun _ => "") :
    String :=
  match complaint with
  | unreadable path error => "error: cannot read '" ++ path ++ "': " ++ error.message
  | refused path error source => "error: " ++ path ++ ": " ++ error.render source
  | badInbox error => "error: inbox: " ++ error.message
  | badTiles error => "error: tiles: " ++ error.message
  | badFixture path error => "error: " ++ path ++ ": " ++ error.message (words error)
  | invalid error => "error: " ++ error.message
  | failed error none => "runtime error: " ++ error.message
  | failed error (some (line, text)) =>
    "runtime error: " ++ error.message ++ "\n  --> line " ++ Decimal.ofNat line ++ ": " ++ text

inductive Ending where
  | success | badInput | invalidProgram | runtimeError | mismatch
deriving DecidableEq, Repr

def Ending.exitCode : Ending → Nat
  | success => 0
  | badInput => 1
  | invalidProgram => 2
  | runtimeError => 3
  | mismatch => 4

structure Report where
  ending : Ending
  output : String := ""
  complaints : List Complaint := []
deriving DecidableEq, Repr

namespace Report

def exitCode (r : Report) : Nat :=
  r.ending.exitCode

def errorOutput (r : Report) (words : Json.Error → String := fun _ => "") : String :=
  Text.unlines (r.complaints.map (·.message words))

def refuse (ending : Ending) (complaint : Complaint) : Report :=
  ⟨ending, "", [complaint]⟩

end Report
end TileMachine
