import LispFront.Text.Blank
import LispFront.Token.Lexeme
import Mathlib.Data.List.TakeWhile

/-! # Lexemes by rule

What may stand as a lexeme in front of a given text, said without the scan. The scan cuts
off a lexeme that may stand there (`stands_scan`), and there is no other
(`scan_of_stands`). -/

namespace LispFront

/-! ## Character classes

A lexeme is told by its first character: no character belongs to two of the classes that
begin one. -/

theorem le_toNat_of_isAlphabetic {c : Char} (alphabetic : isAlphabetic c = true) :
    0x41 ≤ c.toNat := by
  have ranges : isAlphabetic c =
      (decide (0x41 ≤ c.toNat) &&
        (decide (c.toNat ≤ 0x5A) || liesInRanges c.toNat alphabeticRanges.tail)) := rfl
  rw [ranges, Bool.and_eq_true, decide_eq_true_eq] at alphabetic
  exact alphabetic.1

theorem isDigit_eq_false_of_isAlphabetic {c : Char} (alphabetic : isAlphabetic c = true) :
    c.isDigit = false := by
  have letter := le_toNat_of_isAlphabetic alphabetic
  rw [Bool.eq_false_iff]
  intro digit
  have last : c.toNat ≤ 0x39 := (Char.isDigit_iff_toNat.mp digit).2
  omega

theorem ne_quote_of_isAlphabetic {c : Char} (alphabetic : isAlphabetic c = true) :
    c ≠ '"' := by
  rintro rfl
  exact absurd (le_toNat_of_isAlphabetic alphabetic) (by decide)

/-- A character that is in no run and begins no string. -/
structure IsSolitary (c : Char) : Prop where
  digit : c.isDigit = false
  alphabetic : isAlphabetic c = false
  quote : c ≠ '"'

theorem isSolitary_of_isLayout {c : Char} (layout : isLayout c = true) :
    IsSolitary c := by
  simp only [isLayout, Bool.or_eq_true, decide_eq_true_eq] at layout
  rcases layout with (rfl | rfl) | rfl <;> exact ⟨by decide, by decide, by decide⟩

theorem isLayout_eq_false_of_isDigit {c : Char} (digit : c.isDigit = true) :
    isLayout c = false := by
  rw [Bool.eq_false_iff]
  intro layout
  simp [(isSolitary_of_isLayout layout).digit] at digit

theorem isLayout_eq_false_of_isAlphabetic {c : Char}
    (alphabetic : isAlphabetic c = true) : isLayout c = false := by
  rw [Bool.eq_false_iff]
  intro layout
  simp [(isSolitary_of_isLayout layout).alphabetic] at alphabetic

theorem isSolitary_of_ofSymbol? {c : Char} {kind : TokenKind}
    (symbol : TokenKind.ofSymbol? c = some kind) : IsSolitary c := by
  unfold TokenKind.ofSymbol? at symbol
  split at symbol <;> first | exact ⟨by decide, by decide, by decide⟩ | cases symbol

theorem isLayout_eq_false_of_ofSymbol? {c : Char} {kind : TokenKind}
    (symbol : TokenKind.ofSymbol? c = some kind) : isLayout c = false := by
  unfold TokenKind.ofSymbol? at symbol
  split at symbol <;> first | decide | cases symbol

theorem isSymbol_of_ofSymbol? {c : Char} {kind : TokenKind}
    (symbol : TokenKind.ofSymbol? c = some kind) :
    kind ≠ .number ∧ kind ≠ .identifier ∧ kind ≠ .string ∧ kind ≠ .illegal := by
  unfold TokenKind.ofSymbol? at symbol
  split at symbol <;> cases symbol <;> decide

private theorem ofSymbol?_injective {c c' : Char} {kind : TokenKind}
    (symbol : TokenKind.ofSymbol? c = some kind)
    (symbol' : TokenKind.ofSymbol? c' = some kind) :
    c = c' := by
  unfold TokenKind.ofSymbol? at symbol symbol'
  split at symbol <;> cases symbol <;> split at symbol' <;> first | rfl | cases symbol'

namespace Lexeme

/-! ## Runs -/

/-- A run of characters that `continues` accepts ends before `following`. -/
def Stops (continues : Char → Bool) (following : List Char) : Prop :=
  ∀ c ∈ following.head?, continues c = false

theorem stops_cons {continues : Char → Bool} {c : Char} (rest : List Char)
    (ends : continues c = false) : Stops continues (c :: rest) := by
  simpa [Stops] using ends

theorem stops_dropWhile (continues : Char → Bool) (text : List Char) :
    Stops continues (text.dropWhile continues) := by
  have ends := List.head?_dropWhile_not continues text
  intro c member
  rw [Option.mem_def.mp member] at ends
  exact ends

theorem Stops.takeWhile_eq_nil {continues : Char → Bool} {following : List Char}
    (stops : Stops continues following) : following.takeWhile continues = [] := by
  cases following with
  | nil => rfl
  | cons c rest => exact List.takeWhile_cons_of_neg (by simp [stops c rfl])

theorem Stops.dropWhile_eq_self {continues : Char → Bool} {following : List Char}
    (stops : Stops continues following) : following.dropWhile continues = following := by
  cases following with
  | nil => rfl
  | cons c rest => exact List.dropWhile_cons_of_neg (by simp [stops c rfl])

theorem Stops.takeWhile_append {continues : Char → Bool} {run following : List Char}
    (inside : ∀ c ∈ run, continues c = true) (stops : Stops continues following) :
    (run ++ following).takeWhile continues = run := by
  rw [List.takeWhile_append_of_pos inside, stops.takeWhile_eq_nil, List.append_nil]

theorem Stops.dropWhile_append {continues : Char → Bool} {run following : List Char}
    (inside : ∀ c ∈ run, continues c = true) (stops : Stops continues following) :
    (run ++ following).dropWhile continues = following := by
  rw [List.dropWhile_append_of_pos inside, stops.dropWhile_eq_self]

/-! ## Lexemes before a text -/

/-- `lexeme` may stand right before `following`: its characters are those its kind asks
for, and none of `following` could still belong to it. -/
inductive Stands : Lexeme → List Char → Prop
  | number {first : Char} {run following : List Char} (digit : first.isDigit = true)
      (inside : ∀ c ∈ run, continuesNumber c = true)
      (stops : Stops continuesNumber following) :
      Stands ⟨.number, first :: run, first :: run⟩ following
  | identifier {first : Char} {run following : List Char}
      (alphabetic : isAlphabetic first = true)
      (inside : ∀ c ∈ run, isAlphabetic c = true) (stops : Stops isAlphabetic following) :
      Stands ⟨.identifier, first :: run, first :: run⟩ following
  | closedString {text following : List Char} (unquoted : '"' ∉ text) :
      Stands ⟨.string, text, '"' :: (text ++ ['"'])⟩ following
  | openString {text : List Char} (unquoted : '"' ∉ text) :
      Stands ⟨.string, text, '"' :: text⟩ []
  | symbol {c : Char} {kind : TokenKind} {following : List Char}
      (symbol : TokenKind.ofSymbol? c = some kind) : Stands ⟨kind, [c], [c]⟩ following
  | illegal {c : Char} {following : List Char} (solitary : IsSolitary c)
      (layout : isLayout c = false) (symbol : TokenKind.ofSymbol? c = none) :
      Stands ⟨.illegal, [c], [c]⟩ following

theorem forall_continuesString {text : List Char} (unquoted : '"' ∉ text) :
    ∀ c ∈ text, continuesString c = true := by
  intro c member
  simp only [continuesString, decide_eq_true_eq]
  rintro rfl
  exact unquoted member

private theorem unquoted_takeWhile (text : List Char) :
    '"' ∉ text.takeWhile continuesString := by
  intro member
  have continues := List.mem_takeWhile_imp member
  simp [continuesString] at continues

private theorem stops_quote (rest : List Char) : Stops continuesString ('"' :: rest) :=
  stops_cons rest (by simp [continuesString])

private theorem stands_scanString (rest : List Char) :
    (scanString rest).1.Stands (scanString rest).2 := by
  have stops := stops_dropWhile continuesString rest
  unfold scanString
  split
  · exact .openString (unquoted_takeWhile rest)
  · rename_i closing following equal
    have quote : closing = '"' := by
      rw [equal] at stops
      simpa [continuesString] using stops closing rfl
    subst quote
    exact .closedString (unquoted_takeWhile rest)

private theorem scanString_closed {text : List Char} (following : List Char)
    (unquoted : '"' ∉ text) :
    scanString (text ++ '"' :: following) =
      (⟨.string, text, '"' :: (text ++ ['"'])⟩, following) := by
  have inside := forall_continuesString unquoted
  have stops := stops_quote following
  unfold scanString
  simp only [stops.takeWhile_append inside, stops.dropWhile_append inside]

private theorem scanString_open {text : List Char} (unquoted : '"' ∉ text) :
    scanString text = (⟨.string, text, '"' :: text⟩, []) := by
  have inside := forall_continuesString unquoted
  unfold scanString
  simp only [List.takeWhile_eq_self_iff.mpr inside, List.dropWhile_eq_nil_iff.mpr inside]

private theorem scanRun_append (kind : TokenKind) {continues : Char → Bool} (first : Char)
    {run following : List Char} (inside : ∀ c ∈ run, continues c = true)
    (stops : Stops continues following) :
    scanRun kind continues first (run ++ following) =
      (⟨kind, first :: run, first :: run⟩, following) := by
  simp only [scanRun, stops.takeWhile_append inside, stops.dropWhile_append inside]

private theorem scan_quote (rest : List Char) : scan '"' rest = scanString rest := by
  have alphabetic : isAlphabetic '"' = false := by decide
  simp [scan, alphabetic]

private theorem scan_of_isSolitary {c : Char} (solitary : IsSolitary c)
    (rest : List Char) :
    scan c rest = (⟨(TokenKind.ofSymbol? c).getD .illegal, [c], [c]⟩, rest) := by
  simp [scan, solitary.digit, solitary.alphabetic, solitary.quote]

/-- What the scan cuts off may stand where it stood. -/
theorem stands_scan {first : Char} (rest : List Char) (layout : isLayout first = false) :
    (scan first rest).1.Stands (scan first rest).2 := by
  unfold scan
  split
  case isTrue digit =>
    exact .number digit (fun _ => List.mem_takeWhile_imp) (stops_dropWhile _ _)
  case isFalse digit =>
    split
    case isTrue alphabetic =>
      exact .identifier alphabetic (fun _ => List.mem_takeWhile_imp) (stops_dropWhile _ _)
    case isFalse alphabetic =>
      split
      case isTrue quote => exact stands_scanString rest
      case isFalse quote =>
        cases symbol : TokenKind.ofSymbol? first with
        | some kind => exact .symbol symbol
        | none =>
            exact .illegal
              ⟨by simpa using digit, by simpa using alphabetic, quote⟩ layout symbol

theorem scan_of_stands {lexeme : Lexeme} {first : Char} {rest following : List Char}
    (stands : lexeme.Stands following)
    (begins : lexeme.written ++ following = first :: rest) :
    scan first rest = (lexeme, following) := by
  cases stands with
  | number digit inside stops =>
      rcases List.cons.inj begins with ⟨rfl, rfl⟩
      rw [scan, if_pos digit]
      exact scanRun_append .number _ inside stops
  | identifier alphabetic inside stops =>
      rcases List.cons.inj begins with ⟨rfl, rfl⟩
      rw [scan, if_neg (by simp [isDigit_eq_false_of_isAlphabetic alphabetic]),
        if_pos alphabetic]
      exact scanRun_append .identifier _ inside stops
  | closedString unquoted =>
      rcases List.cons.inj begins with ⟨rfl, rfl⟩
      rw [scan_quote, List.append_eq, List.append_assoc]
      exact scanString_closed following unquoted
  | openString unquoted =>
      rcases List.cons.inj begins with ⟨rfl, rfl⟩
      rw [scan_quote, List.append_eq, List.append_nil]
      exact scanString_open unquoted
  | symbol symbol =>
      rcases List.cons.inj begins with ⟨rfl, rfl⟩
      rw [scan_of_isSolitary (isSolitary_of_ofSymbol? symbol), symbol]
      rfl
  | illegal solitary layout symbol =>
      rcases List.cons.inj begins with ⟨rfl, rfl⟩
      rw [scan_of_isSolitary solitary, symbol]
      rfl

theorem Stands.exists_written_eq_cons {lexeme : Lexeme} {following : List Char}
    (stands : lexeme.Stands following) :
    ∃ first run, lexeme.written = first :: run ∧ isLayout first = false := by
  cases stands with
  | number digit inside stops => exact ⟨_, _, rfl, isLayout_eq_false_of_isDigit digit⟩
  | identifier alphabetic inside stops =>
      exact ⟨_, _, rfl, isLayout_eq_false_of_isAlphabetic alphabetic⟩
  | closedString unquoted => exact ⟨_, _, rfl, by decide⟩
  | openString unquoted => exact ⟨_, _, rfl, by decide⟩
  | symbol symbol => exact ⟨_, _, rfl, isLayout_eq_false_of_ofSymbol? symbol⟩
  | illegal solitary layout symbol => exact ⟨_, _, rfl, layout⟩

theorem Stands.kind_ne_endOfInput {lexeme : Lexeme} {following : List Char}
    (stands : lexeme.Stands following) : lexeme.kind ≠ .endOfInput := by
  rcases stands.exists_written_eq_cons with ⟨first, run, written, -⟩
  have scanned := scan_of_stands stands (by rw [written, List.cons_append])
  have kind := kind_scan_ne_endOfInput first (run ++ following)
  rwa [scanned] at kind

theorem Stands.text_eq_of_ofSymbol? {lexeme : Lexeme} {following : List Char} {c : Char}
    (stands : lexeme.Stands following)
    (symbol : TokenKind.ofSymbol? c = some lexeme.kind) :
    lexeme.text = [c] := by
  cases stands with
  | number => exact absurd rfl (isSymbol_of_ofSymbol? symbol).1
  | identifier => exact absurd rfl (isSymbol_of_ofSymbol? symbol).2.1
  | closedString => exact absurd rfl (isSymbol_of_ofSymbol? symbol).2.2.1
  | openString => exact absurd rfl (isSymbol_of_ofSymbol? symbol).2.2.1
  | symbol symbol' => rw [ofSymbol?_injective symbol' symbol]
  | illegal => exact absurd rfl (isSymbol_of_ofSymbol? symbol).2.2.2

end Lexeme

end LispFront
