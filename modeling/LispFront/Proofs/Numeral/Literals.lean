import LispFront.Proofs.Numeral.Value
import LispFront.Proofs.Parse.Recovery
import LispFront.Proofs.Token.Indices

/-! # Literals

A text writes its numbers as runs of digits and points that begin with a digit. Such a run
is a decimal without a sign unless it has a second point, and it is never a word
(`Numeral.IsLiteral.ofText?_eq_none_iff`). All numbers of a program that was read from a
text are such runs, and they stand in the text as they stand in the program
(`Reading.numberValue_of_mem_nodes`). -/

namespace LispFront

namespace Numeral

structure IsLiteral (text : List Char) : Prop where
  begins : ∃ first rest, text = first :: rest ∧ first.isDigit = true
  inside : ∀ c ∈ text, Lexeme.continuesNumber c = true

/-! ## Points -/

theorem count_point_of_forall_isDigit {digits : List Char}
    (digit : ∀ c ∈ digits, c.isDigit = true) : digits.count '.' = 0 :=
  List.count_eq_zero.mpr fun member => absurd (digit '.' member) (by decide)

private theorem forall_isDigit {text : List Char}
    (inside : ∀ c ∈ text, Lexeme.continuesNumber c = true) (pointless : '.' ∉ text) :
    ∀ c ∈ text, c.isDigit = true := by
  intro c member
  have apart : c ≠ '.' := by
    rintro rfl
    exact pointless member
  simpa [Lexeme.continuesNumber, apart] using inside c member

theorem IsSign.count_point {negative : Bool} {sign : List Char}
    (signed : IsSign negative sign) : sign.count '.' = 0 := by
  cases signed with
  | absent => rfl
  | plus => rfl
  | minus => rfl

theorem IsExponent.count_point {exponent : Int} {text : List Char}
    (scaled : IsExponent exponent text) : text.count '.' = 0 := by
  have apart := scaled.stops.2
  rcases scaled with _ | ⟨letter, signed, digit, nonempty, stands⟩
  · rfl
  · rename_i mark negative sign digits
    have other : mark ≠ '.' := by simpa using apart
    rw [List.count_cons_of_ne other, List.count_append, signed.count_point,
      count_point_of_forall_isDigit digit]

theorem IsSignificand.count_point_le_one {whole fraction significand : List Char}
    (digits : IsSignificand whole fraction significand)
    (digit : ∀ c ∈ whole ++ fraction, c.isDigit = true) :
    significand.count '.' ≤ 1 := by
  rcases List.forall_mem_append.mp digit with ⟨wholeDigit, fractionDigit⟩
  have wholeCount := count_point_of_forall_isDigit wholeDigit
  have fractionCount := count_point_of_forall_isDigit fractionDigit
  cases digits with
  | whole => omega
  | point =>
      rw [List.count_append, List.count_cons_self]
      omega

theorem Parts.WrittenAs.count_point_le_one {parts : Parts} {text : List Char}
    (written : parts.WrittenAs text) : text.count '.' ≤ 1 := by
  obtain ⟨signed, digits, digit, nonempty, scaled⟩ := written
  rw [List.count_append, List.count_append, signed.count_point, scaled.count_point,
    Nat.zero_add, Nat.add_zero]
  exact digits.count_point_le_one digit

/-! ## Literals as decimals -/

private theorem writtenAs_of_isSignificand {whole fraction text : List Char}
    (digits : IsSignificand whole fraction text)
    (digit : ∀ c ∈ whole ++ fraction, c.isDigit = true)
    (nonempty : whole ++ fraction ≠ []) :
    (Parts.mk false whole fraction 0).WrittenAs text := by
  have written : (Parts.mk false whole fraction 0).WrittenAs ([] ++ (text ++ [])) :=
    .text .absent digits digit nonempty .absent
  rwa [List.nil_append, List.append_nil] at written

theorem Unsigned.eq_nil_of_isSign {negative : Bool} {sign rest : List Char}
    (unsigned : Unsigned (sign ++ rest)) (signed : IsSign negative sign) :
    sign = [] ∧ negative = false := by
  cases signed with
  | absent => exact ⟨rfl, rfl⟩
  | plus => exact absurd rfl (unsigned '+' rfl).2
  | minus => exact absurd rfl (unsigned '-' rfl).1

namespace IsLiteral

variable {text : List Char}

theorem unsigned (literal : IsLiteral text) : Unsigned text := by
  obtain ⟨first, rest, rfl, digit⟩ := literal.begins
  exact unsigned_of_isDigit digit

private theorem not_isSignedWord (literal : IsLiteral text) : ¬ IsSignedWord text := by
  rintro ⟨signed, named⟩
  obtain ⟨rfl, -⟩ := literal.unsigned.eq_nil_of_isSign signed
  rw [List.nil_append] at literal
  obtain ⟨first, rest, rfl, digit⟩ := literal.begins
  exact not_isWord_cons (.inl digit) named

private theorem negative_eq_false {parts : Parts} (literal : IsLiteral text)
    (written : parts.WrittenAs text) : parts.negative = false := by
  obtain ⟨signed, digits, digit, nonempty, scaled⟩ := written
  exact (literal.unsigned.eq_nil_of_isSign signed).2

theorem exists_parts (literal : IsLiteral text) (single : text.count '.' ≤ 1) :
    ∃ parts : Parts, parts.WrittenAs text := by
  obtain ⟨first, rest, begins, firstDigit⟩ := literal.begins
  by_cases pointed : '.' ∈ text
  · obtain ⟨whole, fraction, rfl⟩ := List.append_of_mem pointed
    rw [List.count_append, List.count_cons_self] at single
    have digit : ∀ c ∈ whole ++ fraction, c.isDigit = true := by
      refine forall_isDigit (fun c member => literal.inside c ?_) ?_
      · rw [List.mem_append] at member
        rw [List.mem_append, List.mem_cons]
        exact member.imp_right .inr
      · rw [← List.count_eq_zero, List.count_append]
        omega
    -- A point needs a digit beside it, and the first character is one.
    have nonempty : whole ≠ [] := by
      rintro rfl
      rw [← (List.cons.inj begins).1] at firstDigit
      exact absurd firstDigit (by decide)
    exact ⟨_,
      writtenAs_of_isSignificand .point digit
        (List.append_ne_nil_of_left_ne_nil nonempty _)⟩
  · have digit := forall_isDigit literal.inside pointed
    have nonempty : text ≠ [] := by
      rw [begins]
      exact List.cons_ne_nil first rest
    rw [← List.append_nil text] at digit nonempty
    exact ⟨_, writtenAs_of_isSignificand .whole digit nonempty⟩

theorem exists_parts_iff (literal : IsLiteral text) :
    (∃ parts : Parts, parts.WrittenAs text) ↔ text.count '.' ≤ 1 :=
  ⟨fun ⟨_, written⟩ => written.count_point_le_one, literal.exists_parts⟩

theorem ofText?_eq_none_iff {text : String} (literal : IsLiteral text.toList) :
    ofText? text = none ↔ ¬ text.toList.count '.' ≤ 1 := by
  rw [Numeral.ofText?_eq_none_iff, or_iff_left literal.not_isSignedWord,
    literal.exists_parts_iff]

theorem toBits_toBinary64_le {text : String} (literal : IsLiteral text.toList)
    {numeral : Numeral} (read : ofText? text = some numeral) :
    numeral.toBinary64.toBits ≤ finiteRanks := by
  have single : text.toList.count '.' ≤ 1 := by
    by_contra double
    rw [literal.ofText?_eq_none_iff.mpr double] at read
    cases read
  obtain ⟨parts, written⟩ := literal.exists_parts single
  obtain ⟨rank, nearest, bits⟩ := parts.decimal.exists_nearest_toBinary64
  have unsigned : parts.decimal.negative = false := literal.negative_eq_false written
  rw [ofText?_of_written written] at read
  cases read
  rw [toBinary64, bits, unsigned]
  exact nearest.bounded

end IsLiteral

end Numeral

namespace Binary64

variable {value : Binary64}

private theorem ne_nan_of_toBits_le (bounded : value.toBits ≤ finiteRanks) :
    value ≠ .nan := by
  rintro rfl
  exact absurd bounded (by decide)

theorem testBit_toBits_of_le (bounded : value.toBits ≤ finiteRanks) :
    value.toBits.testBit 63 = false :=
  Nat.testBit_lt_two_pow (Nat.lt_of_le_of_lt bounded (by decide))

end Binary64

/-! ## Literals in a text -/

/-- `token` is a number of `source`, and `literal` is all that is written for it there: it
begins where the token stands, and ends before the first character that is neither digit
nor point. -/
structure Token.IsNumberOf (source literal : String) (token : Token) : Prop where
  listed : token ∈ (Cursor.ofString source).tokens
  kind : token.kind = .number
  text : token.text = literal
  isLiteral : Numeral.IsLiteral literal.toList
  written : ∃ before following, source.toList = before ++ (literal.toList ++ following) ∧
    token.position = Position.origin.after before ∧
      Lexeme.Stops Lexeme.continuesNumber following

theorem Lexeme.Stands.isLiteral {lexeme : Lexeme} {following : List Char}
    (stands : lexeme.Stands following) (number : lexeme.kind = .number) :
    lexeme.written = lexeme.text ∧ Numeral.IsLiteral lexeme.text ∧
      Stops continuesNumber following := by
  cases stands with
  | number digit inside stops =>
      refine ⟨rfl, ⟨⟨_, _, rfl, digit⟩, List.forall_mem_cons.mpr ⟨?_, inside⟩⟩, stops⟩
      rw [continuesNumber, digit, Bool.true_or]
  | identifier => cases number
  | closedString => cases number
  | openString => cases number
  | symbol symbol => exact absurd number (isSymbol_of_ofSymbol? symbol).1
  | illegal => cases number

theorem Cursor.isNumberOf_of_mem_words {source : String} {token : Token}
    (listed : token ∈ (ofString source).words) (number : token.kind = .number) :
    token.IsNumberOf source token.text := by
  have member : token ∈ (ofString source).tokens := by
    rw [tokens_eq_words_append]
    exact List.mem_append_left _ listed
  obtain ⟨lexeme, before, following, symbol, fits, whole, place⟩ :=
    exists_written member (kind_ne_endOfInput_of_mem_words listed)
  obtain ⟨kind, text⟩ := Prod.mk.inj symbol
  obtain ⟨written, literal, stops⟩ := fits.isLiteral (kind.trans number)
  have spelled : lexeme.text = token.text.toList := by rw [← text, String.toList_ofList]
  rw [spelled] at written literal
  rw [written] at whole
  exact ⟨member, number, rfl, literal, before, following, whole, place, stops⟩

namespace Reading

/-- A number in a program that was read from a text has a value unless there is a second
point in it. The value is a number or infinity, with no sign; without a value, the number
is refused with all that is written of it. -/
theorem numberValue_of_mem_nodes {source : String} {depth : Nat} {token : Token}
    {value : String}
    (member : ⟨depth, .number token value⟩ ∈ (ofText source).program.nodes) :
    token.IsNumberOf source value ∧
      ((∃ number, (Expression.number token value).numberValue = .ok number) ↔
        value.toList.count '.' ≤ 1) ∧
      (∀ number, (Expression.number token value).numberValue = .ok number →
        number ≠ .nan ∧ number.toBits.testBit 63 = false) ∧
      ∀ failure, (Expression.number token value).numberValue = .error failure →
        failure = .invalidNumber value := by
  have made : (Expression.number token value).MadeOf (Cursor.ofString source).words :=
    forall_nodesBelow (fun _ => Expression.MadeOf.children) 0 _
      (madeOf_ofText source) _ member
  obtain ⟨kind, rfl⟩ := made.valid
  have written :=
    Cursor.isNumberOf_of_mem_words (made.tokens token List.mem_cons_self) kind
  have refused := written.isLiteral.ofText?_eq_none_iff
  refine ⟨written, ?_⟩
  rw [Expression.numberValue]
  cases read : Numeral.ofText? token.text with
  | none =>
      have double := refused.mp read
      refine ⟨⟨?_, fun single => absurd single double⟩, ?_, ?_⟩
      · rintro ⟨number, same⟩
        cases same
      · intro number same
        cases same
      · intro failure same
        cases same
        rfl
  | some numeral =>
      have bounded := written.isLiteral.toBits_toBinary64_le read
      have single : token.text.toList.count '.' ≤ 1 := by simpa [read] using refused
      refine ⟨⟨fun _ => single, fun _ => ⟨_, rfl⟩⟩, ?_, ?_⟩
      · intro number same
        cases same
        exact ⟨Binary64.ne_nan_of_toBits_le bounded,
          Binary64.testBit_toBits_of_le bounded⟩
      · intro failure same
        cases same

/-- A number inside a call, with two points, and another behind it with a point at its
end. -/
theorem numberValue_of_mem_nodes_of_malformed :
    let source := ")[(+\n1.2.3) 5.]"
    let refused : Expression := .number ⟨.number, "1.2.3", ⟨2, 1⟩⟩ "1.2.3"
    let accepted : Expression := .number ⟨.number, "5.", ⟨2, 8⟩⟩ "5."
    (⟨2, refused⟩ ∈ (ofText source).program.nodes ∧
        refused.numberValue = .error (.invalidNumber "1.2.3")) ∧
      ⟨1, accepted⟩ ∈ (ofText source).program.nodes ∧
        ∃ value, accepted.numberValue = .ok value := by
  intro source refused accepted
  have words : (Cursor.ofString source).words =
      [⟨.rightRound, ")", ⟨1, 1⟩⟩, ⟨.leftSquare, "[", ⟨1, 2⟩⟩, ⟨.leftRound, "(", ⟨1, 3⟩⟩,
        ⟨.plus, "+", ⟨1, 4⟩⟩, ⟨.number, "1.2.3", ⟨2, 1⟩⟩, ⟨.rightRound, ")", ⟨2, 6⟩⟩,
        ⟨.number, "5.", ⟨2, 8⟩⟩,
        ⟨.rightSquare, "]", ⟨2, 10⟩⟩] := by
    decide +kernel
  have nodes : (ofText source).program.nodes[2]? = some ⟨2, refused⟩ ∧
      (ofText source).program.nodes[3]? = some ⟨1, accepted⟩ := by
    rw [Program.nodes, ofText_eq_ofWords, program_ofWords, words]
    exact ⟨rfl, rfl⟩
  have first := List.mem_of_getElem? nodes.1
  have second := List.mem_of_getElem? nodes.2
  refine ⟨⟨first, ?_⟩, second, (numberValue_of_mem_nodes second).2.1.mpr (by decide)⟩
  obtain ⟨-, valued, -, named⟩ := numberValue_of_mem_nodes first
  cases outcome : refused.numberValue with
  | ok value => exact absurd (valued.mp ⟨value, outcome⟩) (by decide)
  | error failure => rw [named failure outcome]

end Reading

end LispFront
