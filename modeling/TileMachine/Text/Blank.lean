/-! Blank characters and trimming. A blank is a character with the Unicode
property White_Space, so the set is larger than ASCII white space. -/
namespace TileMachine.Text

/-- The 25 characters with the property White_Space. -/
def isBlank (c : Char) : Bool :=
  let n := c.toNat
  (9 ≤ n && n ≤ 13) || n == 0x20 || n == 0x85 || n == 0xA0 || n == 0x1680 ||
    (0x2000 ≤ n && n ≤ 0x200A) || n == 0x2028 || n == 0x2029 || n == 0x202F ||
    n == 0x205F || n == 0x3000

def trimStart (cs : List Char) : List Char :=
  cs.dropWhile isBlank

def trimEnd (cs : List Char) : List Char :=
  (cs.reverse.dropWhile isBlank).reverse

def trim (cs : List Char) : List Char :=
  trimEnd (trimStart cs)

def leading (cs : List Char) : List Char :=
  cs.takeWhile isBlank

def trailing (cs : List Char) : List Char :=
  (cs.reverse.takeWhile isBlank).reverse

/-- The first maximal run without blanks, empty if there is none. -/
def firstWord (cs : List Char) : List Char :=
  (trimStart cs).takeWhile (!isBlank ·)

@[simp] theorem leading_append_trimStart (cs : List Char) : leading cs ++ trimStart cs = cs :=
  List.takeWhile_append_dropWhile

@[simp] theorem trimEnd_append_trailing (cs : List Char) : trimEnd cs ++ trailing cs = cs := by
  rw [trimEnd, trailing, ← List.reverse_append, List.takeWhile_append_dropWhile,
    List.reverse_reverse]

end TileMachine.Text
