import TileMachine.Program
import TileMachine.Text.Lines

/-! The canonical listing of a program: a heading, then labels at the margin and
instructions indented by four spaces. -/
namespace TileMachine.Program

def heading : String := "-- HUMAN RESOURCE MACHINE PROGRAM --"

def labelLine (name : String) : String :=
  name ++ ":"

def instructionLine (i : Instruction) : String :=
  "    " ++ i.text

/-- Labels stand before the instruction they point at; those that point at the
end or beyond close the listing. -/
def listingLines (p : Program) : List String :=
  p.instructions.toList.zipIdx.flatMap (fun (i, index) =>
    (p.labelsAt index).map labelLine ++ [instructionLine i]) ++
  (p.labelsWhere (p.length ≤ ·)).map labelLine

def listing (p : Program) : String :=
  Text.unlines (heading :: "" :: p.listingLines)

end TileMachine.Program
