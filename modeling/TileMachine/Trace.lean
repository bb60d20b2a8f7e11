import TileMachine.Machine.Execution

/-! One line of text for each step of a run: the instruction, then the changes
that it made. -/
namespace TileMachine.Trace

def column : Nat := 15

def padRight (width : Nat) (text : String) : String :=
  text ++ String.ofList (List.replicate (width - text.length) ' ')

def show? : Option Value → String
  | some v => v.text
  | none => "-"

def addresses (before after : Tiles) : List Nat :=
  (before ∪ after).keys

def tileChanges (before after : Tiles) : List String :=
  (addresses before after).filterMap fun address =>
    if before.read address = after.read address then none
    else some ("tile " ++ Decimal.ofNat address ++ "=" ++ show? (after.read address))

/-- The number of positions an instruction may have: 64 bits without sign. -/
def positions : Nat := 18446744073709551616

/-- The position after this one; the first one comes after the last. -/
def following (ip : Nat) : Nat :=
  (ip + 1) % positions

theorem following_of_lt {ip : Nat} (h : ip + 1 < positions) : following ip = ip + 1 :=
  Nat.mod_eq_of_lt h

/-- A value that came from the inbox or went to the outbox is not reported as a
change of the hands. A halt on an empty inbox is no jump. -/
def changes (before after : State) (halted : Bool) : List String :=
  let took := after.inbox.length < before.inbox.length
  let put := before.outbox.size < after.outbox.size
  (if took then ["in " ++ show? after.hands] else []) ++
  tileChanges before.tiles after.tiles ++
  (if put then after.outbox.back?.toList.map ("out " ++ ·.text) else []) ++
  (if ¬took ∧ ¬put ∧ before.hands ≠ after.hands then ["hands=" ++ show? after.hands] else []) ++
  (if after.ip ≠ following before.ip ∧ ¬(halted ∧ after.ip = before.ip)
    then ["jump " ++ Decimal.ofNat after.ip] else [])

def remarks (before after : State) : Step → List String
  | .failed error => ["error: " ++ error.message]
  | .proceed => changes before after false
  | .halted => changes before after true ++ ["halt"]

/-- No instruction means that the step ran off the end of the program. -/
def describe (i : Option Instruction) (before after : State) (step : Step) : String :=
  let head := (i.map Instruction.text).getD "(end)"
  let line := padRight column head ++ " / ".intercalate (remarks before after step)
  String.ofList (Text.trimEnd line.toList)

def describeAll (p : Program) (frames : List Execution.Frame) : List String :=
  frames.map fun f => describe p.instructions[f.before.ip]? f.before f.after f.step

end TileMachine.Trace
