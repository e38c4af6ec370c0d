import LispFront.Text.Blank
import LispFront.Token.Basic
import LispFront.Token.Lexeme

/-! A cursor reads tokens off a text one at a time. At the end of the text it stays where
it is and gives the end-of-input token as often as it is asked. -/

namespace LispFront

/-- The characters still to be read, and where the first of them stands. -/
structure Cursor where
  rest : List Char
  position : Position
deriving DecidableEq, Repr

namespace Cursor

def ofString (source : String) : Cursor :=
  ⟨source.toList, .origin⟩

def atEnd (cursor : Cursor) : Bool :=
  cursor.rest.isEmpty

def skipLayout (cursor : Cursor) : Cursor :=
  ⟨cursor.rest.dropWhile isLayout, cursor.position.after (cursor.rest.takeWhile isLayout)⟩

def next (cursor : Cursor) : Token × Cursor :=
  let start := cursor.skipLayout
  match start.rest with
  | [] => (⟨.endOfInput, "", start.position⟩, start)
  | first :: rest =>
      let scanned := Lexeme.scan first rest
      (⟨scanned.1.kind, String.ofList scanned.1.text, start.position⟩,
        ⟨scanned.2, start.position.after scanned.1.written⟩)

def exhausted (cursor : Cursor) : Cursor :=
  ⟨[], cursor.position.after cursor.rest⟩

theorem next_of_rest_skipLayout_eq_nil {cursor : Cursor}
    (nothing : cursor.skipLayout.rest = []) :
    cursor.next = (⟨.endOfInput, "", cursor.skipLayout.position⟩, cursor.skipLayout) := by
  simp [next, nothing]

theorem next_of_rest_skipLayout_eq_cons {cursor : Cursor} {first : Char}
    {rest : List Char} (begins : cursor.skipLayout.rest = first :: rest) :
    cursor.next =
      (⟨(Lexeme.scan first rest).1.kind, String.ofList (Lexeme.scan first rest).1.text,
          cursor.skipLayout.position⟩,
        ⟨(Lexeme.scan first rest).2,
          cursor.skipLayout.position.after (Lexeme.scan first rest).1.written⟩) := by
  simp [next, begins]

theorem length_rest_skipLayout_le (cursor : Cursor) :
    cursor.skipLayout.rest.length ≤ cursor.rest.length :=
  (List.dropWhile_suffix isLayout).length_le

theorem length_rest_lt_of_next {cursor following : Cursor} {token : Token}
    (reading : cursor.next = (token, following)) (more : token.kind ≠ .endOfInput) :
    following.rest.length < cursor.rest.length := by
  have skipped := cursor.length_rest_skipLayout_le
  cases begins : cursor.skipLayout.rest with
  | nil =>
      rw [next_of_rest_skipLayout_eq_nil begins] at reading
      cases reading
      exact absurd rfl more
  | cons first rest =>
      have shorter := Lexeme.length_snd_scan_le first rest
      rw [begins, List.length_cons] at skipped
      rw [next_of_rest_skipLayout_eq_cons begins] at reading
      cases reading
      exact Nat.lt_of_le_of_lt shorter skipped

theorem length_rest_le_of_next {cursor following : Cursor} {token : Token}
    (reading : cursor.next = (token, following)) :
    following.rest.length ≤ cursor.rest.length := by
  by_cases ended : token.kind = .endOfInput
  · cases begins : cursor.skipLayout.rest with
    | nil =>
        rw [next_of_rest_skipLayout_eq_nil begins] at reading
        cases reading
        exact cursor.length_rest_skipLayout_le
    | cons first rest =>
        rw [next_of_rest_skipLayout_eq_cons begins] at reading
        cases reading
        exact absurd ended (Lexeme.kind_scan_ne_endOfInput first rest)
  · exact Nat.le_of_lt (length_rest_lt_of_next reading ended)

def tokens (cursor : Cursor) : List Token :=
  match reading : cursor.next with
  | (token, following) =>
      if ended : token.kind = .endOfInput then
        [token]
      else
        have : following.rest.length < cursor.rest.length :=
          length_rest_lt_of_next reading ended
        token :: following.tokens
termination_by cursor.rest.length

theorem tokens_eq (cursor : Cursor) :
    cursor.tokens =
      if cursor.next.1.kind = .endOfInput then
        [cursor.next.1]
      else
        cursor.next.1 :: cursor.next.2.tokens := by
  rw [tokens]
  split
  rename_i reading
  simp [reading]

/-- A run of dots is read dot by dot, a string with its line feeds in one piece. -/
example : (ofString "a.. \"b\n\"(").tokens =
    [⟨.identifier, "a", ⟨1, 1⟩⟩, ⟨.illegal, ".", ⟨1, 2⟩⟩, ⟨.illegal, ".", ⟨1, 3⟩⟩,
      ⟨.string, "b\n", ⟨1, 5⟩⟩, ⟨.leftRound, "(", ⟨2, 2⟩⟩,
        ⟨.endOfInput, "", ⟨2, 3⟩⟩] := by
  decide +kernel

end Cursor

end LispFront
