/-! The kinds of token. Each has one spelling, under which it is shown and exchanged. -/

namespace LispFront

/-- What a token is. A `number` is a run of digits and dots that need not be a numeral, an
`identifier` is a run of letters, and `illegal` stands for a character that begins no
token of the language. -/
inductive TokenKind where
  | plus
  | minus
  | star
  | slash
  | colon
  | quote
  | leftRound
  | rightRound
  | leftCurly
  | rightCurly
  | leftSquare
  | rightSquare
  | number
  | identifier
  | string
  | endOfInput
  | illegal
deriving DecidableEq, Repr

namespace TokenKind

def all : List TokenKind :=
  [plus, minus, star, slash, colon, quote, leftRound, rightRound, leftCurly,
    rightCurly, leftSquare, rightSquare, number, identifier, string, endOfInput, illegal]

theorem mem_all (kind : TokenKind) : kind ∈ all := by
  cases kind <;> decide

def spelling : TokenKind → String
  | plus => "PLUS"
  | minus => "MINUS"
  | star => "STAR"
  | slash => "SLASH"
  | colon => "COLON"
  | quote => "QUOTE"
  | leftRound => "LROUND"
  | rightRound => "RROUND"
  | leftCurly => "LCURLY"
  | rightCurly => "RCURLY"
  | leftSquare => "LSQUARE"
  | rightSquare => "RSQUARE"
  | number => "NUMBER"
  | identifier => "IDENT"
  | string => "STRING"
  | endOfInput => "EOF"
  | illegal => "ILLEGAL"

instance : ToString TokenKind := ⟨spelling⟩

def ofSpelling? (text : String) : Option TokenKind :=
  all.find? fun kind => kind.spelling == text

@[simp] theorem ofSpelling?_spelling (kind : TokenKind) :
    ofSpelling? kind.spelling = some kind := by
  cases kind <;> decide

def ofSymbol? : Char → Option TokenKind
  | '+' => some plus
  | '-' => some minus
  | '*' => some star
  | '/' => some slash
  | ':' => some colon
  | '\'' => some quote
  | '(' => some leftRound
  | ')' => some rightRound
  | '{' => some leftCurly
  | '}' => some rightCurly
  | '[' => some leftSquare
  | ']' => some rightSquare
  | _ => none

def isOperator : TokenKind → Bool
  | plus | minus | star | slash => true
  | _ => false

def isBracket : TokenKind → Bool
  | leftRound | rightRound | leftCurly | rightCurly | leftSquare | rightSquare => true
  | _ => false

end TokenKind

end LispFront
