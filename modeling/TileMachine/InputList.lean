import TileMachine.Tiles

/-! Comma-separated lists, as the inbox and the floor are given on the command line. -/
namespace TileMachine

/-- A list of values; a blank text is the empty list. -/
def Value.parseList (text : String) : Except ValueError (List Value) :=
  if (Text.trim text.toList).isEmpty then .ok []
  else (text.toList.splitOn ',').mapM Value.ofChars

def Tiles.parseItem (item : List Char) : Except ValueError (Option Value) :=
  if (Text.trim item).isEmpty then .ok none else some <$> Value.ofChars item

def Tiles.parse (text : String) : Except ValueError Tiles :=
  Tiles.ofItems <$> (text.toList.splitOn ',').mapM Tiles.parseItem

end TileMachine
