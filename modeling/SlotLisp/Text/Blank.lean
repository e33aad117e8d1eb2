import SlotLisp.Text.Ranges

/-!
Blank characters: the ones that separate tokens and are trimmed from the ends of a setting. They are
the characters of Unicode's White_Space property and the four separators 0x1c to 0x1f.
-/

namespace SlotLisp

def blankRanges : Ranges := [
  (0x9, 0xd), (0x1c, 0x20), (0x85, 0x85), (0xa0, 0xa0), (0x1680, 0x1680), (0x2000, 0x200a),
  (0x2028, 0x2029), (0x202f, 0x202f), (0x205f, 0x205f), (0x3000, 0x3000)]

def isBlank (c : Char) : Bool := blankRanges.contains c

end SlotLisp
