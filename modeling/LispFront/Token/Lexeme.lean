import LispFront.Text.Alphabetic
import LispFront.Token.Kind

/-! Lexemes: the stretches of text that make one token each. `Lexeme.scan` cuts the first
lexeme off a text that begins with no layout. Nothing is lost in the cut
(`written_append_snd_scan`), and each cut is as long as its kind allows. -/

namespace LispFront

/-- A kind, the text a token of it carries, and the characters it is written with. The two
differ for strings alone, whose quotes are written and not carried. -/
structure Lexeme where
  kind : TokenKind
  text : List Char
  written : List Char
deriving DecidableEq, Repr

namespace Lexeme

/-- A number goes on over digits and dots alike, so that `1.2.3` is a single lexeme. -/
def continuesNumber (c : Char) : Bool :=
  c.isDigit || c = '.'

/-- A string goes on up to the next quote; there are no escapes. -/
def continuesString (c : Char) : Bool :=
  c ≠ '"'

def scanRun (kind : TokenKind) (continues : Char → Bool) (first : Char)
    (rest : List Char) : Lexeme × List Char :=
  let text := first :: rest.takeWhile continues
  (⟨kind, text, text⟩, rest.dropWhile continues)

/-- Takes a string up to its closing quote. If there is none, the string takes all that is
left. -/
def scanString (rest : List Char) : Lexeme × List Char :=
  let text := rest.takeWhile continuesString
  match rest.dropWhile continuesString with
  | [] => (⟨.string, text, '"' :: text⟩, [])
  | closing :: following => (⟨.string, text, '"' :: (text ++ [closing])⟩, following)

def scan (first : Char) (rest : List Char) : Lexeme × List Char :=
  if first.isDigit then
    scanRun .number continuesNumber first rest
  else if isAlphabetic first then
    scanRun .identifier isAlphabetic first rest
  else if first = '"' then
    scanString rest
  else
    (⟨(TokenKind.ofSymbol? first).getD .illegal, [first], [first]⟩, rest)

private theorem written_append_snd_scanString (rest : List Char) :
    (scanString rest).1.written ++ (scanString rest).2 = '"' :: rest := by
  have parts := List.takeWhile_append_dropWhile (p := continuesString) (l := rest)
  unfold scanString
  split <;> rename_i equal <;> rw [equal] at parts <;> simpa using parts

theorem written_append_snd_scan (first : Char) (rest : List Char) :
    (scan first rest).1.written ++ (scan first rest).2 = first :: rest := by
  unfold scan scanRun
  split
  · simp
  split
  · simp
  split
  · rename_i quote
    rw [written_append_snd_scanString, quote]
  · rfl

private theorem written_scan_ne_nil (first : Char) (rest : List Char) :
    (scan first rest).1.written ≠ [] := by
  unfold scan scanRun scanString
  split
  · simp
  split
  · simp
  split
  · split <;> simp
  · simp

theorem length_snd_scan_le (first : Char) (rest : List Char) :
    (scan first rest).2.length ≤ rest.length := by
  have parts := congrArg List.length (written_append_snd_scan first rest)
  have written := List.length_pos_iff.mpr (written_scan_ne_nil first rest)
  simp only [List.length_append, List.length_cons] at parts
  omega

theorem kind_scan_ne_endOfInput (first : Char) (rest : List Char) :
    (scan first rest).1.kind ≠ .endOfInput := by
  unfold scan scanRun scanString
  split
  · simp
  split
  · simp
  split
  · split <;> simp
  · simp only [TokenKind.ofSymbol?]
    split <;> decide

end Lexeme

end LispFront
