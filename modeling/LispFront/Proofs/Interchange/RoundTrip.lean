import LispFront.Proofs.Interchange.Program
import LispFront.Proofs.Interchange.Standard

/-! # Programs read back and told apart

A program is read back from its own text, position by position, as long as no node of it
is more than forty nodes deep (`JsonLibrary.readProgram_write`). Two programs have one
text only if they are one program, however deep: a reader of programs cannot show this,
for it refuses what is nested too deep (`JsonLibrary.write_inj`). -/

namespace LispFront

/-- The line and the column fit 64 bits. -/
def Token.Fits (token : Token) : Prop :=
  token.position.line < UInt64.size ∧ token.position.column < UInt64.size

instance (token : Token) : Decidable token.Fits :=
  inferInstanceAs (Decidable (_ ∧ _))

namespace JsonLibrary

variable {library : JsonLibrary}

/-! ## Texts -/

theorem write_eq_ok_iff {program : Program} {text : String} :
    library.write program = .ok text ↔ library.print program.toDatum = .ok text := by
  unfold write
  cases library.print program.toDatum <;> simp [Except.mapError]

theorem exists_write (prints : library.Prints) (program : Program) :
    ∃ text, library.write program = .ok text ∧
      program.toDatum.toJson.WrittenAs text.toList := by
  obtain ⟨text, printed, written⟩ := prints program.toDatum
  exact ⟨text, write_eq_ok_iff.mpr printed, written⟩

theorem readProgram_eq_ok_iff_read {text : String} {program : Program} :
    library.readProgram text = .ok program ↔
      library.read declarations (.named .program) text = .ok program.toDatum := by
  unfold readProgram
  cases library.read declarations (.named .program) text with
  | error message => simp
  | ok datum =>
      simp only [Except.ok.injEq, ← Program.ofDatum?_eq_some_iff]
      cases Program.ofDatum? datum <;> simp

private theorem readProgram_eq_error {text : String}
    (refused : ∀ datum, library.read declarations (.named .program) text ≠ .ok datum) :
    ∃ message, library.readProgram text = .error (.serialization message) := by
  unfold readProgram
  cases read : library.read declarations (.named .program) text with
  | error message => exact ⟨message, rfl⟩
  | ok datum => exact absurd read (refused datum)

/-! ## Reading back -/

/-- A program is read back as it is, with the place of every token, if no node has more
than forty nodes around it, and is refused otherwise. -/
theorem readProgram_write (prints : library.Prints) (reads : library.Reads declarations)
    (program : Program) (fits : ∀ token ∈ program.tokens, token.Fits) :
    ∃ text, library.write program = .ok text ∧
      if ∀ node ∈ program.nodes, node.depth ≤ 40 then
        library.readProgram text = .ok program
      else
        ∃ message, library.readProgram text = .error (.serialization message) := by
  obtain ⟨text, printed, written⟩ := exists_write prints program
  have read_iff {datum : Datum} :=
    @Reads.read_written_iff _ _ _ reads _ _ (program.hasShape fits) _ written datum
  rw [reads.nestingLimit_eq, Program.height_le_iff] at read_iff
  refine ⟨text, printed, ?_⟩
  split
  case isTrue shallow =>
    exact readProgram_eq_ok_iff_read.mpr (read_iff.mpr ⟨rfl, shallow⟩)
  case isFalse deep =>
    exact readProgram_eq_error fun datum read => deep (read_iff.mp read).2

/-- Forty brackets around a name, every text of it in need of escapes, and then one
more. -/
theorem readProgram_write_of_nested :
    let token : Token := ⟨.string, "\"\\\n\x01𝄞", ⟨0, 18446744073709551615⟩⟩
    let nested : Nat → Program := fun levels =>
      ⟨[Nat.repeat (fun inner => .array token [inner]) levels
        (.identifier ⟨token, "\x1f"⟩)]⟩
    (∃ text, standard.write (nested 40) = .ok text ∧
        standard.readProgram text = .ok (nested 40)) ∧
      ∃ text message, standard.write (nested 41) = .ok text ∧
        standard.readProgram text = .error (.serialization message) := by
  intro token nested
  have reads := standard_reads declarations
  have shallow : ∀ node ∈ (nested 40).nodes, node.depth ≤ 40 := by decide +kernel
  have deep : ¬ ∀ node ∈ (nested 41).nodes, node.depth ≤ 40 := by decide +kernel
  have forty := readProgram_write standard_prints reads (nested 40) (by decide +kernel)
  have more := readProgram_write standard_prints reads (nested 41) (by decide +kernel)
  simp only [if_pos shallow] at forty
  simp only [if_neg deep] at more
  obtain ⟨text, written, message, refused⟩ := more
  exact ⟨forty, text, message, written, refused⟩

/-! ## Telling apart -/

/-- Programs of one text are one program, with any texts, at any places and however
deep. -/
theorem write_inj (prints : library.Prints) {left right : Program} :
    library.write left = library.write right ↔ left = right := by
  constructor
  · intro same
    obtain ⟨text, printed, written⟩ := exists_write prints left
    obtain ⟨text', printed', written'⟩ := exists_write prints right
    rw [printed, printed', Except.ok.injEq] at same
    subst same
    have anywhere (program : Program) :
        program.toDatum.HasShape declarations Set.univ (.named .program) :=
      program.hasShape fun token _ => ⟨trivial, trivial⟩
    have data : left.toDatum = right.toDatum :=
      (anywhere left).toJson_inj (anywhere right) (Json.eq_of_writtenAs written written')
    have own := Program.ofDatum?_eq_some_iff.mpr data
    rw [Program.ofDatum?_eq_some_iff.mpr rfl] at own
    exact Option.some.inj own
  · exact congrArg library.write

/-- A bracket in the text of a string, and the column of a token. -/
theorem write_ne_of_moved :
    let program : Nat → Program := fun column =>
      ⟨[.string ⟨.string, "\"]\x7d", ⟨1, column⟩⟩ "\"]\x7d"]⟩
    standard.write (program 1) ≠ standard.write (program 2) := by
  intro program same
  have own : program 1 = program 2 := (write_inj standard_prints).mp same
  simp [program] at own

end JsonLibrary

end LispFront
