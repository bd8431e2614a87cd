import ScriptBridge.Text.CharSet

/-!
# Blanks

`isBlank` holds of the characters that only make space: the spaces of all widths and the ends of
lines, pages and paragraphs.
-/

namespace ScriptBridge

/-- The code points of the blanks. -/
def blankTable : CharSet := #[
  (0x09, 0x0D), (0x20, 0x20), (0x85, 0x85), (0xA0, 0xA0), (0x1680, 0x1680), (0x2000, 0x200A),
  (0x2028, 0x2029), (0x202F, 0x202F), (0x205F, 0x205F), (0x3000, 0x3000)]

/-- A blank of any width. -/
def isBlank (c : Char) : Bool :=
  blankTable.contains c

end ScriptBridge
