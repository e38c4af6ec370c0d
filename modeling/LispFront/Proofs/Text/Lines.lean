import LispFront.Proofs.Text.Order
import Mathlib.Data.List.DropRight

/-! # Lines and columns by counting

The place just past some characters can be told without going through them one by one: its
line from the number of line feeds among them, its column from what comes behind the last
of these. -/

namespace LispFront

def lastLine (characters : List Char) : List Char :=
  characters.rtakeWhile (· ≠ '\n')

@[simp] theorem lastLine_concat_newline (characters : List Char) :
    lastLine (characters ++ ['\n']) = [] :=
  List.rtakeWhile_concat_neg _ _ _ (by simp)

private theorem lastLine_concat_of_ne (characters : List Char) {c : Char}
    (newline : c ≠ '\n') : lastLine (characters ++ [c]) = lastLine characters ++ [c] :=
  List.rtakeWhile_concat_pos _ _ _ (by simpa using newline)

namespace Position

theorem line_after (position : Position) (characters : List Char) :
    (position.after characters).line = position.line + characters.count '\n' := by
  induction characters generalizing position with
  | nil => rfl
  | cons c rest induction =>
      rw [after_cons, induction]
      by_cases newline : c = '\n'
      · subst newline
        rw [List.count_cons_self]
        simp only [advance, if_true]
        omega
      · rw [List.count_cons_of_ne newline]
        simp only [advance, if_neg newline]

theorem column_after (position : Position) (characters : List Char) :
    (position.after characters).column =
      (if '\n' ∈ characters then 1 else position.column) +
        (lastLine characters).length := by
  induction characters using List.reverseRecOn with
  | nil => rfl
  | append_singleton rest c induction =>
      rw [after_append, after_cons, after_nil]
      by_cases newline : c = '\n'
      · subst newline
        simp [advance]
      · have absent : '\n' ∉ [c] := by simpa using Ne.symm newline
        rw [lastLine_concat_of_ne rest newline, List.length_append, List.length_singleton,
          ← Nat.add_assoc]
        simp only [advance, if_neg newline, induction, List.mem_append, absent, or_false]

theorem after_eq (position : Position) (characters : List Char) :
    position.after characters =
      ⟨position.line + characters.count '\n',
        (if '\n' ∈ characters then 1 else position.column) +
          (lastLine characters).length⟩ := by
  rw [← column_after, ← line_after]

theorem origin_after (characters : List Char) :
    origin.after characters =
      ⟨1 + characters.count '\n', 1 + (lastLine characters).length⟩ := by
  rw [after_eq, show origin.column = 1 from rfl, ite_self]
  rfl

theorem eq_of_after_eq {position : Position} {first second first' second' : List Char}
    (whole : first ++ second = first' ++ second')
    (place : position.after first = position.after first') :
    first = first' := by
  have closer (part more : List Char)
      (same : position.after (part ++ more) = position.after part) : more = [] := by
    by_contra filled
    have later := lt_after (position.after part) filled
    rw [← after_append, same] at later
    exact lt_irrefl _ later
  rcases List.append_eq_append_iff.mp whole with ⟨more, rfl, -⟩ | ⟨more, rfl, -⟩
  · rw [closer first more place.symm, List.append_nil]
  · rw [closer first' more place, List.append_nil]

/-! ## Texts behind other texts -/

/-- The place in a longer text of what stands at `position` in the text behind `front`. On
the first line, columns count on from the last line of `front`. -/
def displace (front : List Char) (position : Position) : Position :=
  ⟨position.line + front.count '\n',
    if position.line = 1 then position.column + (lastLine front).length
    else position.column⟩

theorem displace_after (front characters : List Char) :
    displace front (origin.after characters) = origin.after (front ++ characters) := by
  rw [after_append, after_eq (origin.after front), origin_after, origin_after]
  simp only [displace, Position.mk.injEq]
  by_cases newline : '\n' ∈ characters
  · have lines := List.count_pos_iff.mpr newline
    rw [if_neg (by omega), if_pos newline]
    omega
  · rw [List.count_eq_zero.mpr newline, if_pos rfl, if_neg newline]
    omega

end Position

end LispFront
