import LispMachine.Text.CodeRange
/-!
# Blanks

The characters with the Unicode property White_Space, and trimming by it.
-/
namespace LispMachine.Text

def blankRanges : List CodeRange := [
  (9, 13), (32, 32), (133, 133), (160, 160), (5760, 5760), (8192, 8202), (8232, 8233),
  (8239, 8239), (8287, 8287), (12288, 12288)]

/-- Whether the character separates words. -/
def isBlank (c : Char) : Bool := inRanges blankRanges c

def trim (s : String) : String :=
  String.ofList (((s.toList.dropWhile isBlank).reverse.dropWhile isBlank).reverse)

end LispMachine.Text
