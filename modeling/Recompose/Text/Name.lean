import Recompose.Text.Letter

namespace Recompose.Text

def isNameStart (c : Char) : Bool :=
  if c.toNat < 128 then c.isAlpha || c == '_' || c == '$' else inRanges letterRanges c.toNat

def isNamePart (c : Char) : Bool :=
  if c.toNat < 128 then
    c.isAlphanum || c == '_' || c == '$'
  else
    inRanges letterRanges c.toNat || inRanges followRanges c.toNat
      || c.toNat == 0x200C || c.toNat == 0x200D

def isLineEnd (c : Char) : Bool :=
  c == '\n' || c == '\r' || c.toNat == 0x2028 || c.toNat == 0x2029

/-- Characters other than line ends that separate tokens. -/
def isGap (c : Char) : Bool :=
  let n := c.toNat
  n == 9 || n == 11 || n == 12 || n == 32 || n == 0x85 || n == 0xA0 || n == 0xFEFF || n == 0x1680
    || (0x2000 ≤ n && n ≤ 0x200B) || n == 0x202F || n == 0x205F || n == 0x3000

end Recompose.Text
