import LispFront.Json.Reader
import LispFront.Proofs.Json.Numeral
import LispFront.Proofs.Json.Quoted

/-! # The symbols of a JSON text

A symbol is read off a text as it is written there, and a run over a text takes the
symbols that the text is written with (`Reader.exists_written_of_run?`,
`Reader.run?_of_written`). -/

namespace LispFront.Json

/-! ## Symbols in a text -/

namespace Symbol

private theorem writtenAs_of_ofMark? {mark : Char} {symbol : Symbol}
    (marks : ofMark? mark = some symbol) : symbol.WrittenAs [mark] := by
  unfold ofMark? at marks
  split at marks <;> cases marks
  · exact .openObject
  · exact .closeObject
  · exact .openArray
  · exact .closeArray
  · exact .comma
  · exact .colon

private theorem exists_writtenAs_of_word? {text following : List Char} {symbol : Symbol}
    (read : word? text = some (symbol, following)) :
    ∃ written, text = written ++ following ∧ symbol.WrittenAs written := by
  unfold word? at read
  split at read <;> cases read
  · exact ⟨_, rfl, .null⟩
  · exact ⟨_, rfl, .true⟩
  · exact ⟨_, rfl, .false⟩

private theorem writtenAs_string {units : List StringUnit} {written : List Char}
    (inscribed : Inscribed units written) :
    WrittenAs (.string ((joinSurrogates? units).map String.ofList))
      ('"' :: (written ++ ['"'])) := by
  have iff {characters : List Char} : joinSurrogates? units = some characters ↔
      Joins units characters :=
    joinSurrogates?_eq_some_iff fun _ => inscribed.isSurrogate
  cases join : joinSurrogates? units with
  | none =>
      refine .unpaired inscribed fun characters joins => ?_
      rw [iff.mpr joins] at join
      cases join
  | some characters =>
      apply WrittenAs.string inscribed
      rw [String.toList_ofList]
      exact iff.mp join

private theorem exists_writtenAs_of_read? {first : Char} {rest following : List Char}
    {symbol : Symbol} (read : read? first rest = some (symbol, following)) :
    ∃ written, first :: rest = written ++ following ∧ symbol.WrittenAs written := by
  unfold read? at read
  split at read
  · rename_i marks
    cases read
    exact ⟨[first], rfl, writtenAs_of_ofMark? marks⟩
  split at read
  · rename_i quote
    simp only [Option.map_eq_some_iff, Prod.exists] at read
    obtain ⟨units, tail, reads, same⟩ := read
    cases same
    obtain ⟨written, rfl, inscribed⟩ := units?_eq_some_iff.mp reads
    exact ⟨'"' :: (written ++ ['"']), by simp [quote], writtenAs_string inscribed⟩
  split at read
  · simp only [Option.map_eq_some_iff, Prod.exists] at read
    obtain ⟨numeral, tail, cut, same⟩ := read
    cases same
    have isNumeral := isNumeral_of_numeral? cut
    rw [← String.toList_ofList (l := numeral)] at isNumeral
    refine ⟨_, ?_, .number isNumeral⟩
    rw [String.toList_ofList]
    exact (append_of_numeral? cut).1.symm
  · exact exists_writtenAs_of_word? read

/-- The text is read as the symbol, where `following` comes after it. -/
def ReadFrom (text : List Char) (symbol : Symbol) (following : List Char) : Prop :=
  ∃ first rest, text ++ following = first :: rest ∧ isSpace first = false ∧
    read? first rest = some (symbol, following)

private theorem readFrom_numeral {numeral : String} {following : List Char}
    (isNumeral : IsNumeral numeral.toList) (ends : EndsNumeral following) :
    ReadFrom numeral.toList (.number numeral) following := by
  obtain ⟨first, rest, begins, leads⟩ := isNumeral.exists_eq_cons
  have cut : numeral? (first :: (rest ++ following)) =
      some (numeral.toList, following) := by
    rw [← List.cons_append, ← begins, numeral?_append ends,
      numeral?_of_isNumeral isNumeral]
    rfl
  have noMark : ofMark? first = none := by
    unfold ofMark?
    split <;> first | rfl | simp at leads
  have noQuote : first ≠ '"' := by
    rintro rfl
    simp at leads
  have apart : isSpace first = false := by
    by_contra space
    simp only [isSpace, Bool.not_eq_false, Bool.or_eq_true, decide_eq_true_eq] at space
    rcases space with ((rfl | rfl) | rfl) | rfl <;> simp at leads
  refine ⟨first, rest ++ following, by rw [begins, List.cons_append], apart, ?_⟩
  simp [read?, noMark, noQuote, leads, cut]

private theorem readFrom_quoted {units : List StringUnit} {written : List Char}
    (inscribed : Inscribed units written) {text : JsonText}
    (joins : (joinSurrogates? units).map String.ofList = text) (following : List Char) :
    ReadFrom ('"' :: (written ++ ['"'])) (.string text) following := by
  have reads : units? (written ++ '"' :: following) = some (units, following) :=
    units?_eq_some_iff.mpr ⟨written, rfl, inscribed⟩
  refine ⟨'"', written ++ '"' :: following, by simp, rfl, ?_⟩
  simp [read?, ofMark?, reads, joins]

theorem WrittenAs.readFrom {symbol : Symbol} {text following : List Char}
    (written : symbol.WrittenAs text)
    (ends : ∀ numeral, symbol = .number numeral → EndsNumeral following) :
    ReadFrom text symbol following := by
  cases written with
  | number isNumeral => exact readFrom_numeral isNumeral (ends _ rfl)
  | string inscribed joins =>
      refine readFrom_quoted inscribed ?_ following
      rw [(joinSurrogates?_eq_some_iff fun _ => inscribed.isSurrogate).mpr joins,
        Option.map_some, String.ofList_toList]
  | unpaired inscribed apart =>
      refine readFrom_quoted inscribed ?_ following
      rw [Option.map_eq_none_iff, Option.eq_none_iff_forall_ne_some]
      intro characters join
      exact apart characters
        ((joinSurrogates?_eq_some_iff fun _ => inscribed.isSurrogate).mp join)
  | _ => exact ⟨_, _, rfl, rfl, rfl⟩

end Symbol

/-! ## Runs over a text -/

namespace Reader

private theorem run?_eq (reader : Reader) (text : List Char) :
    reader.run? text =
      match text.dropWhile isSpace with
      | [] => some reader
      | first :: rest =>
          (Symbol.read? first rest).bind fun (symbol, following) =>
            (reader.step? symbol).bind (run? · following) := by
  rw [run?]
  split
  · rename_i empty
    simp only [empty]
  · rename_i first rest begins
    simp only [begins]
    split
    · rename_i unread
      simp only [unread, Option.bind_none]
    · rename_i symbol following read
      simp only [read, Option.bind_some]
      cases reader.step? symbol <;> rfl

private theorem run?_space (reader : Reader) {space : List Char}
    (blank : ∀ c ∈ space, isSpace c = true) (text : List Char) :
    reader.run? (space ++ text) = reader.run? text := by
  rw [run?_eq, run?_eq reader text, List.dropWhile_append_of_pos blank]

private theorem run?_readFrom (reader : Reader) {text following : List Char}
    {symbol : Symbol} (read : symbol.ReadFrom text following) :
    reader.run? (text ++ following) = (reader.step? symbol).bind (run? · following) := by
  obtain ⟨first, rest, same, apart, read⟩ := read
  rw [run?_eq, same, List.dropWhile_cons_of_neg (by simp [apart])]
  simp only [read, Option.bind_some]

theorem exists_written_of_run? {reader final : Reader} {text : List Char}
    (run : reader.run? text = some final) :
    ∃ symbols, Written symbols text ∧ symbols.foldlM step? reader = some final := by
  fun_induction run? reader text with
  | case1 reader text empty =>
      cases run
      exact ⟨[], .nil (List.dropWhile_eq_nil_iff.mp empty), rfl⟩
  | case2 => cases run
  | case3 => cases run
  | case4 reader text first rest begins symbol following read _ next step induction =>
      obtain ⟨symbols, later, steps⟩ := induction run
      obtain ⟨written, parts, writtenAs⟩ := Symbol.exists_writtenAs_of_read? read
      have whole : text = text.takeWhile isSpace ++ (written ++ following) := by
        rw [← parts, ← begins, List.takeWhile_append_dropWhile]
      refine ⟨symbol :: symbols, ?_, by simp [step, steps]⟩
      rw [whole]
      exact .cons (fun _ => List.mem_takeWhile_imp) writtenAs later

theorem exists_mark_of_readSeparator? {value : Json} {frames : List Frame}
    {symbol : Symbol} {next : Reader}
    (step : readSeparator? value frames symbol = some next) {written : List Char}
    (writtenAs : symbol.WrittenAs written) :
    ∃ mark, written = [mark] ∧ continuesNumeral mark = false := by
  cases writtenAs with
  | comma => exact ⟨',', rfl, rfl⟩
  | closeArray => exact ⟨']', rfl, rfl⟩
  | closeObject => exact ⟨'}', rfl, rfl⟩
  | _ => simp [readSeparator?] at step

private theorem continuesNumeral_of_isSpace {c : Char} (space : isSpace c = true) :
    continuesNumeral c = false := by
  simp only [isSpace, Bool.or_eq_true, decide_eq_true_eq] at space
  rcases space with ((rfl | rfl) | rfl) | rfl <;> rfl

theorem endsNumeral_of_written {symbols : List Symbol} {text : List Char}
    (written : Written symbols text) {value : Json} {frames : List Frame} {final : Reader}
    (steps : symbols.foldlM step? ⟨frames, .separator value⟩ = some final) :
    EndsNumeral text := by
  have afterSpace {space rest : List Char} (blank : ∀ c ∈ space, isSpace c = true)
      (ends : EndsNumeral rest) : EndsNumeral (space ++ rest) := by
    cases space with
    | nil => exact ends
    | cons c space =>
        exact .cons _ (continuesNumeral_of_isSpace (blank c List.mem_cons_self))
  cases written with
  | nil blank =>
      rw [← List.append_nil text]
      exact afterSpace blank .nil
  | cons blank written later =>
      rw [List.foldlM_cons, Option.bind_eq_bind, Option.bind_eq_some_iff] at steps
      obtain ⟨next, step, -⟩ := steps
      obtain ⟨mark, rfl, apart⟩ := exists_mark_of_readSeparator? step written
      exact afterSpace blank (.cons _ apart)

private theorem exists_separator_of_number {reader next : Reader} {numeral : String}
    (step : reader.step? (.number numeral) = some next) :
    ∃ frames value, next = ⟨frames, .separator value⟩ := by
  obtain ⟨frames, expectation⟩ := reader
  cases expectation with
  | value => exact ⟨_, _, (Option.some.inj step).symm⟩
  | firstItem => exact ⟨_, _, (Option.some.inj step).symm⟩
  | firstKey => cases step
  | key members => cases step
  | colon members key => cases step
  | separator value => simp [step?, readSeparator?] at step

theorem run?_of_written {symbols : List Symbol} {text : List Char}
    (written : Written symbols text) {reader final : Reader}
    (steps : symbols.foldlM step? reader = some final) :
    reader.run? text = some final := by
  induction written generalizing reader with
  | nil blank =>
      cases steps
      rw [run?_eq, List.dropWhile_eq_nil_iff.mpr blank]
  | @cons space first rest symbol symbols blank written later induction =>
      rw [List.foldlM_cons, Option.bind_eq_bind, Option.bind_eq_some_iff] at steps
      obtain ⟨next, step, steps⟩ := steps
      have ends : ∀ numeral, symbol = .number numeral → EndsNumeral rest := by
        rintro numeral rfl
        obtain ⟨frames, value, rfl⟩ := exists_separator_of_number step
        exact endsNumeral_of_written later steps
      rw [run?_space _ blank, run?_readFrom _ (written.readFrom ends), step,
        Option.bind_some, induction steps]

end Reader

end LispFront.Json
