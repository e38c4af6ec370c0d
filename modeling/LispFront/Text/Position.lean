/-! Places in a source text. Lines and columns count from one. A line feed ends its line;
every other character, whatever its width, fills one column. -/

namespace LispFront

structure Position where
  line : Nat
  column : Nat
deriving DecidableEq, Repr

namespace Position

def origin : Position := ⟨1, 1⟩

def advance (position : Position) (c : Char) : Position :=
  if c = '\n' then ⟨position.line + 1, 1⟩ else ⟨position.line, position.column + 1⟩

def after (position : Position) (characters : List Char) : Position :=
  characters.foldl advance position

@[simp] theorem after_nil (position : Position) : position.after [] = position := rfl

@[simp] theorem after_cons (position : Position) (c : Char) (rest : List Char) :
    position.after (c :: rest) = (position.advance c).after rest := rfl

theorem after_append (position : Position) (first second : List Char) :
    position.after (first ++ second) = (position.after first).after second :=
  List.foldl_append

/-- The second line begins at column one again. -/
example : origin.after "ab\nc".toList = ⟨2, 2⟩ := by decide

end Position

end LispFront
