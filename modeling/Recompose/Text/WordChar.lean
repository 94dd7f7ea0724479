import Recompose.Text.Letter

namespace Recompose.Text

def wordOnlyRanges : List (Nat × Nat) := [
    (1160, 1161), (6846, 6846), (8204, 8205), (8413, 8416), (8418, 8420), (9398, 9449),
    (11823, 11823), (42608, 42610), (127280, 127305), (127312, 127337), (127344, 127369)]

/-- Characters that names admit although they are no word characters. -/
def nameOnlyRanges : List (Nat × Nat) := [
    (183, 183), (903, 903), (4969, 4977), (6618, 6618), (8472, 8472), (8494, 8494), (12443, 12444)]

def isWordChar (c : Char) : Bool :=
  if c.toNat < 128 then
    c.isAlphanum || c == '_'
  else
    let n := c.toNat
    inRanges wordOnlyRanges n
      || ((inRanges letterRanges n || inRanges followRanges n) && !inRanges nameOnlyRanges n)

end Recompose.Text
