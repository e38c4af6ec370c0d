import LispFront.Text.Position
import LispFront.Token.Kind

/-! Tokens. The position of a token is that of its first character. It serves those who
read the tree; two tokens at different places may still be the same symbol. -/

namespace LispFront

structure Token where
  kind : TokenKind
  text : String
  position : Position
deriving DecidableEq, Repr

namespace Token

/-- Two tokens agree when they are the same symbol, wherever they stand. -/
def agrees (left right : Token) : Bool :=
  left.kind == right.kind && left.text == right.text

theorem agrees_iff {left right : Token} :
    left.agrees right = true ↔ left.kind = right.kind ∧ left.text = right.text := by
  simp [agrees]

def isOperator (token : Token) : Bool :=
  token.kind.isOperator

def display (token : Token) : String :=
  token.kind.spelling ++ "('" ++ token.text ++ "')"

instance : ToString Token := ⟨display⟩

end Token

end LispFront
