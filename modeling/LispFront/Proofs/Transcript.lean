import LispFront.Conversation
import Mathlib.Algebra.Ring.Parity

/-! # Transcripts

What a whole conversation comes to (`Conversation.transcribed`). The lines before the one
that ends it are answered one by one. What has been typed before a line matters to its
answer only through the settings, and these only count how often they have been toggled
(`Conversation.respond_settingsAfter`). -/

namespace LispFront.Conversation

/-! ## Lines -/

/-- A text is cut just after each line feed, and only the last line may lack one. -/
structure IsCut (text : List Char) (lines : List (List Char)) : Prop where
  flatten : lines.flatten = text
  nonempty : ∀ line ∈ lines, line ≠ []
  unbroken : ∀ line ∈ lines, '\n' ∉ line.dropLast
  ended : ∀ line ∈ lines.dropLast, line.getLast? = some '\n'

namespace IsCut

variable {text line : List Char} {later : List (List Char)} {c : Char}

private theorem single (c : Char) : IsCut [c] [[c]] := by
  constructor <;> simp

theorem cons_lineFeed (cut : IsCut text later) :
    IsCut ('\n' :: text) (['\n'] :: later) := by
  constructor
  · rw [List.flatten_cons, cut.flatten, List.singleton_append]
  · exact List.forall_mem_cons.mpr ⟨List.cons_ne_nil _ _, cut.nonempty⟩
  · exact List.forall_mem_cons.mpr ⟨List.not_mem_nil, cut.unbroken⟩
  · cases later with
    | nil => exact nofun
    | cons line later => exact List.forall_mem_cons.mpr ⟨rfl, cut.ended⟩

theorem cons_other (cut : IsCut text (line :: later)) (other : c ≠ '\n') :
    IsCut (c :: text) ((c :: line) :: later) := by
  have nonempty := List.forall_mem_cons.mp cut.nonempty
  have unbroken := List.forall_mem_cons.mp cut.unbroken
  constructor
  · rw [← cut.flatten]
    rfl
  · exact List.forall_mem_cons.mpr ⟨List.cons_ne_nil _ _, nonempty.2⟩
  · refine List.forall_mem_cons.mpr ⟨?_, unbroken.2⟩
    rw [List.dropLast_cons_of_ne_nil nonempty.1, List.mem_cons, not_or]
    exact ⟨other.symm, unbroken.1⟩
  · have ended := cut.ended
    cases later with
    | nil => exact nofun
    | cons next later =>
        rw [List.dropLast_cons_of_ne_nil (List.cons_ne_nil _ _),
          List.forall_mem_cons] at ended ⊢
        rw [List.getLast?_cons_of_ne_nil nonempty.1]
        exact ended

end IsCut

theorem isCut_lines (text : List Char) : IsCut text (lines text) := by
  induction text with
  | nil => constructor <;> simp [lines]
  | cons c rest induction =>
      rw [lines]
      split
      case isTrue feed =>
        subst feed
        exact induction.cons_lineFeed
      case isFalse other =>
        cases cut : lines rest with
        | nil =>
            have nothing : rest = [] := by
              rw [← induction.flatten, cut, List.flatten_nil]
            rw [nothing]
            exact IsCut.single c
        | cons line later =>
            rw [cut] at induction
            exact induction.cons_other other

/-! ## Commands -/

def typed (line : String) : String :=
  String.ofList (trim line.toList)

/-- On how many of the lines `command` is typed. -/
def uses (command : String) (lines : List String) : Nat :=
  (lines.map typed).count command

private theorem uses_concat (command : String) (earlier : List String) (line : String) :
    uses command (earlier ++ [line]) =
      uses command earlier + if typed line = command then 1 else 0 := by
  rw [uses, List.map_append, List.count_append, List.map_singleton,
    List.count_singleton, uses]
  simp only [beq_iff_eq]

theorem ofLine_cases (line : String) :
    (typed line = "" ∧ Command.ofLine line = .nothing) ∨
      ((typed line = "exit" ∨ typed line = "quit") ∧ Command.ofLine line = .leave) ∨
      (typed line = "help" ∧ Command.ofLine line = .help) ∨
      (typed line = ":tokens" ∧ Command.ofLine line = .toggleTokens) ∨
      (typed line = ":json" ∧ Command.ofLine line = .toggleJson) ∨
      (typed line ∉ ["", "exit", "quit", "help", ":tokens", ":json"] ∧
        Command.ofLine line = .read line) := by
  unfold Command.ofLine typed
  split <;> simp_all

theorem ofLine_eq_leave_iff (line : String) :
    Command.ofLine line = .leave ↔ typed line = "exit" ∨ typed line = "quit" := by
  rcases ofLine_cases line with
    ⟨word, command⟩ | ⟨word, command⟩ | ⟨word, command⟩ | ⟨word, command⟩ |
      ⟨word, command⟩ | ⟨word, command⟩
  all_goals simp_all

/-! ## Settings -/

def settingsAfter (earlier : List String) : Settings :=
  ⟨decide (Odd (uses ":tokens" earlier)), decide (Odd (uses ":json" earlier))⟩

private theorem settingsAfter_nil : settingsAfter [] = initialSettings := by
  decide

private theorem decide_odd_add_one (count : Nat) :
    decide (Odd (count + 1)) = !decide (Odd count) := by
  simp only [Nat.odd_add_one, decide_not]

section

variable (toJsonText : Program → String)

def answer (earlier : List String) (line : String) : Reply :=
  (respond toJsonText (settingsAfter earlier) (Command.ofLine line)).2

def answers (earlier lines : List String) : List Reply :=
  lines.mapIdx fun place line => answer toJsonText (earlier ++ lines.take place) line

end

variable {toJsonText : Program → String}

theorem respond_settingsAfter (earlier : List String) (line : String) :
    (respond toJsonText (settingsAfter earlier) (Command.ofLine line)).1 =
      settingsAfter (earlier ++ [line]) := by
  simp only [settingsAfter, uses_concat]
  rcases ofLine_cases line with
    ⟨word, command⟩ | ⟨word | word, command⟩ | ⟨word, command⟩ | ⟨word, command⟩ |
      ⟨word, command⟩ | ⟨other, command⟩
  case inr.inr.inr.inr.inr =>
    simp only [List.mem_cons, List.not_mem_nil, or_false, not_or] at other
    simp [respond, other, command]
  all_goals simp [respond, word, command, decide_odd_add_one]

private theorem answer_eq_readSource {line : String}
    (other : typed line ∉ ["", "exit", "quit", "help", ":tokens", ":json"])
    (earlier : List String) :
    answer toJsonText earlier line =
      readSource toJsonText (settingsAfter earlier) line := by
  rcases ofLine_cases line with
    ⟨word, -⟩ | ⟨word | word, -⟩ | ⟨word, -⟩ | ⟨word, -⟩ | ⟨word, -⟩ | ⟨-, command⟩
  case inr.inr.inr.inr.inr => rw [answer, command, respond]
  all_goals simp [word] at other

/-! ## Conversations -/

/-- The lines in front of the first that ends the conversation. -/
def kept (lines : List String) : List String :=
  lines.takeWhile fun line => typed line ≠ "exit" ∧ typed line ≠ "quit"

private theorem kept_cons_of_leave {line : String} (leaves : Command.ofLine line = .leave)
    (later : List String) : kept (line :: later) = [] := by
  rw [ofLine_eq_leave_iff] at leaves
  refine List.takeWhile_cons_of_neg ?_
  simpa [← not_or] using leaves

private theorem kept_cons {line : String} (stays : Command.ofLine line ≠ .leave)
    (later : List String) : kept (line :: later) = line :: kept later := by
  rw [Ne, ofLine_eq_leave_iff] at stays
  refine List.takeWhile_cons_of_pos ?_
  simpa [← not_or] using stays

private theorem answers_cons (earlier : List String) (line : String)
    (later : List String) :
    answers toJsonText earlier (line :: later) =
      answer toJsonText earlier line :: answers toJsonText (earlier ++ [line]) later := by
  simp [answers, List.mapIdx_cons]

def spoken (replies : List Reply) : Transcript :=
  ⟨String.join (replies.map fun reply => prompt ++ reply.output) ++ prompt,
    String.join (replies.map Reply.errors), 0⟩

private theorem spoken_cons (reply : Reply) (replies : List Reply) :
    spoken (reply :: replies) =
      ⟨prompt ++ reply.output ++ (spoken replies).output,
        reply.errors ++ (spoken replies).errors, (spoken replies).exitCode⟩ := by
  simp only [spoken, List.map_cons, String.join_cons, String.append_assoc]

private theorem converse_cons_of_leave {line : String}
    (leaves : Command.ofLine line = .leave) (settings : Settings) (later : List String) :
    converse toJsonText settings (line :: later) = ⟨prompt, "", 0⟩ := by
  rw [converse, leaves]

private theorem converse_cons {line : String} (stays : Command.ofLine line ≠ .leave)
    (settings : Settings) (later : List String) :
    converse toJsonText settings (line :: later) =
      ⟨prompt ++ (respond toJsonText settings (Command.ofLine line)).2.output ++
          (converse toJsonText
            (respond toJsonText settings (Command.ofLine line)).1 later).output,
        (respond toJsonText settings (Command.ofLine line)).2.errors ++
          (converse toJsonText
            (respond toJsonText settings (Command.ofLine line)).1 later).errors,
        (converse toJsonText (respond toJsonText settings (Command.ofLine line)).1
          later).exitCode⟩ := by
  rw [converse]
  split
  case h_1 leaves => exact absurd leaves stays
  case h_2 =>
    cases respond toJsonText settings (Command.ofLine line)
    rfl

private theorem converse_settingsAfter (earlier lines : List String) :
    converse toJsonText (settingsAfter earlier) lines =
      spoken (answers toJsonText earlier (kept lines)) := by
  induction lines generalizing earlier with
  | nil => rfl
  | cons line later induction =>
      by_cases leaves : Command.ofLine line = .leave
      case pos =>
        rw [converse_cons_of_leave leaves, kept_cons_of_leave leaves]
        rfl
      case neg =>
        rw [converse_cons leaves, kept_cons leaves, answers_cons,
          spoken_cons, ← induction, ← respond_settingsAfter, answer]

theorem unlines_map {α : Type} (line : α → String) (items : List α) :
    unlines (items.map line) = String.join (items.map fun item => line item ++ "\n") := by
  rw [unlines, List.map_map]
  rfl

/-- What is written while a text is typed. -/
structure Transcribed (toJsonText : Program → String) (input : String) : Prop where
  cut : IsCut input.toList (lines input.toList)
  written :
    let replies := answers toJsonText [] (kept ((lines input.toList).map String.ofList))
    transcript toJsonText input =
      ⟨banner ++ String.join (replies.map fun reply => prompt ++ reply.output) ++ prompt,
        String.join (replies.map Reply.errors), 0⟩
  /-- Of what stands in front of a line only the parities of the toggles matter to its
  answer. -/
  apart : ∀ line earlier earlier',
    (Odd (uses ":tokens" earlier) ↔ Odd (uses ":tokens" earlier')) →
      (Odd (uses ":json" earlier) ↔ Odd (uses ":json" earlier')) →
        answer toJsonText earlier line = answer toJsonText earlier' line
  read : ∀ line earlier, typed line ∉ ["", "exit", "quit", "help", ":tokens", ":json"] →
    let reading := Reading.ofText line
    let tokens := (Cursor.ofString line).tokens
    answer toJsonText earlier line =
      ⟨(if Odd (uses ":tokens" earlier) then
            String.join (tokens.map fun token => "  " ++ token.display ++ "\n")
          else "") ++
          (if Odd (uses ":json" earlier) then toJsonText reading.program ++ "\n"
          else reading.program.render),
        String.join
          (reading.diagnostics.map fun diagnostic =>
            "  ✗ " ++ diagnostic.message ++ "\n")⟩

theorem transcribed (toJsonText : Program → String) (input : String) :
    Transcribed toJsonText input := by
  constructor
  case cut => exact isCut_lines _
  case written =>
    have talk :=
      @converse_settingsAfter toJsonText [] ((lines input.toList).map String.ofList)
    rw [settingsAfter_nil] at talk
    intro replies
    simp only [transcript, talk, spoken, String.append_assoc]
    rfl
  case apart =>
    intro line earlier earlier' tokens json
    simp only [answer, settingsAfter, tokens, json]
  case read =>
    intro line earlier other reading tokens
    rw [answer_eq_readSource other, readSource, unlines_map, unlines_map]
    simp only [settingsAfter, decide_eq_true_eq]
    rfl

end LispFront.Conversation
