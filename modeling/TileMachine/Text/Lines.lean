/-! A text as lines. A line ends at a line feed, which takes one carriage return
directly before it along. A text that ends in a line feed has no empty last line. -/
namespace TileMachine.Text

def lines : List Char → List (List Char)
  | [] => []
  | '\n' :: cs => [] :: lines cs
  | '\r' :: '\n' :: cs => [] :: lines cs
  | c :: cs =>
    match lines cs with
    | [] => [[c]]
    | line :: rest => (c :: line) :: rest

def unlines (ls : List String) : String :=
  String.join (ls.map (· ++ "\n"))

end TileMachine.Text
