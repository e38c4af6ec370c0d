/-! Blank characters. Two sets are in use: the layout that may stand between tokens, and
the wider white space that is cut off both ends of a typed command. -/

namespace LispFront

/-- The characters that may stand between tokens: space, tab and line feed. A carriage
return is not among them. -/
def isLayout (c : Char) : Bool :=
  c = ' ' || c = '\t' || c = '\n'

def isWhiteSpace (c : Char) : Bool :=
  let code := c.toNat
  (0x9 ≤ code && code ≤ 0xD) || code = 0x20 || code = 0x85 || code = 0xA0 ||
    code = 0x1680 ||
    (0x2000 ≤ code && code ≤ 0x200A) || code = 0x2028 || code = 0x2029 || code = 0x202F ||
    code = 0x205F || code = 0x3000

def trim (characters : List Char) : List Char :=
  ((characters.dropWhile isWhiteSpace).reverse.dropWhile isWhiteSpace).reverse

/-- White space inside stays. -/
example : trim " \u3000a b\r\n".toList = "a b".toList := by decide

end LispFront
