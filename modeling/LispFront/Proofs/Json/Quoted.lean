import Mathlib.Data.List.Basic
import LispFront.Proofs.Json.Grammar

/-! # Strings in quotes

The units read up to a closing quote are those that are inscribed there
(`units?_eq_some_iff`), and their surrogates are joined when each has its partner
(`joinSurrogates?_eq_some_iff`). The escapes of characters, one behind the other, are an
inscription of them. -/

namespace LispFront.Json

/-! ## Numbered escapes -/

instance (c : Char) (value : Nat) : Decidable (IsHexDigit c value) :=
  inferInstanceAs (Decidable (_ ∧ _))

theorem hexValue?_eq_some_iff {c : Char} {value : Nat} :
    hexValue? c = some value ↔ IsHexDigit c value := by
  constructor
  · intro read
    have codes : ∀ code < 103, ∀ value ∈ hexValue? (Char.ofNat code),
        IsHexDigit (Char.ofNat code) value := by decide
    have bound : c.toNat < 103 := by
      by_contra beyond
      have above (last : Char) (small : last.toNat < 103) : ¬ c ≤ last := by
        intro below
        have least : c.toNat ≤ last.toNat :=
          UInt32.le_iff_toNat_le.mp (Char.le_def.mp below)
        omega
      simp [hexValue?, above '9' (by decide), above 'f' (by decide),
        above 'F' (by decide)] at read
    have known := codes c.toNat bound value
    rw [Char.ofNat_toNat] at known
    exact known read
  · rintro ⟨bound, rfl | rfl⟩
    · have digits : ∀ value < 16, hexValue? value.digitChar = some value := by decide
      exact digits value bound
    · have digits : ∀ value < 16, hexValue? value.digitChar.toUpper = some value := by
        decide
      exact digits value bound

namespace StringUnit

private theorem ofCode_cases {code : Nat} (bound : code < 0x10000) :
    (IsSurrogate code ∧ ofCode code = .surrogate code) ∨
      ∃ c : Char, c.toNat = code ∧ ofCode code = .character c := by
  by_cases isSurrogate : IsSurrogate code
  · exact .inl ⟨isSurrogate, if_pos isSurrogate⟩
  · right
    have valid : code.isValidChar := by
      unfold IsSurrogate at isSurrogate
      unfold Nat.isValidChar
      omega
    have character : Char.ofNat code = Char.ofNatAux code valid := dif_pos valid
    exact ⟨Char.ofNatAux code valid, rfl,
      (if_neg isSurrogate).trans (congrArg _ character)⟩

private theorem ofCode_toNat (c : Char) : ofCode c.toNat = .character c := by
  have valid : c.toNat.isValidChar := c.valid
  have apart : ¬ IsSurrogate c.toNat := by
    unfold Nat.isValidChar at valid
    unfold IsSurrogate
    omega
  exact (if_neg apart).trans (congrArg _ (Char.ofNat_toNat c))

end StringUnit

theorem Hexadecimal.lt {digits : List Char} {code : Nat}
    (hexadecimal : Hexadecimal digits code) : code < 0x10000 := by
  cases hexadecimal with
  | digits first second third fourth =>
      have bounds := And.intro (And.intro first.1 second.1) (And.intro third.1 fourth.1)
      omega

theorem Hexadecimal.numberedEscape?_eq {c₁ c₂ c₃ c₄ : Char} {code : Nat}
    (hexadecimal : Hexadecimal [c₁, c₂, c₃, c₄] code) :
    numberedEscape? c₁ c₂ c₃ c₄ = some (.ofCode code) := by
  cases hexadecimal with
  | digits first second third fourth =>
      simp only [numberedEscape?, hexValue?_eq_some_iff.mpr first,
        hexValue?_eq_some_iff.mpr second, hexValue?_eq_some_iff.mpr third,
        hexValue?_eq_some_iff.mpr fourth, Option.bind_eq_bind,
        Option.bind_some]

theorem numberedEscape?_eq_some_iff {c₁ c₂ c₃ c₄ : Char} {unit : StringUnit} :
    numberedEscape? c₁ c₂ c₃ c₄ = some unit ↔
      unit.WrittenAs ['\\', 'u', c₁, c₂, c₃, c₄] := by
  constructor
  · intro read
    simp only [numberedEscape?, Option.bind_eq_bind, Option.bind_eq_some_iff,
      hexValue?_eq_some_iff, Option.some.injEq] at read
    obtain ⟨d₁, first, d₂, second, d₃, third, d₄, fourth, rfl⟩ := read
    have hexadecimal := Hexadecimal.digits first second third fourth
    rcases StringUnit.ofCode_cases hexadecimal.lt with
      ⟨isSurrogate, unit⟩ | ⟨c, code, unit⟩
    · rw [unit]
      exact .surrogate hexadecimal isSurrogate
    · rw [unit]
      exact .numbered (code ▸ hexadecimal)
  · intro written
    cases written with
    | numbered code => rw [code.numberedEscape?_eq, StringUnit.ofCode_toNat]
    | surrogate hexadecimal isSurrogate =>
        exact hexadecimal.numberedEscape?_eq.trans (congrArg some (if_pos isSurrogate))

/-! ## Units -/

theorem letterEscape?_eq_some_iff {letter : Char} {unit : StringUnit} :
    letterEscape? letter = some unit ↔
      ∃ c, (letter, c) ∈ letterEscapes ∧ unit = .character c := by
  constructor
  · intro read
    unfold letterEscape? at read
    split at read
    all_goals first | exact ⟨_, by decide, (Option.some.inj read).symm⟩ | cases read
  · rintro ⟨c, escape, rfl⟩
    simp only [letterEscapes, List.mem_cons, Prod.mk.injEq, List.not_mem_nil,
      or_false] at escape
    rcases escape with
      ⟨rfl, rfl⟩ | ⟨rfl, rfl⟩ | ⟨rfl, rfl⟩ | ⟨rfl, rfl⟩ | ⟨rfl, rfl⟩ | ⟨rfl, rfl⟩ |
        ⟨rfl, rfl⟩ | ⟨rfl, rfl⟩
    all_goals rfl

theorem Hexadecimal.exists_eq {digits : List Char} {code : Nat}
    (hexadecimal : Hexadecimal digits code) :
    ∃ c₁ c₂ c₃ c₄, digits = [c₁, c₂, c₃, c₄] := by
  cases hexadecimal
  exact ⟨_, _, _, _, rfl⟩

theorem units?_numbered {digits : List Char} {unit : StringUnit} {code : Nat}
    (hexadecimal : Hexadecimal digits code)
    (written : unit.WrittenAs ('\\' :: 'u' :: digits)) (rest : List Char) :
    units? ('\\' :: 'u' :: digits ++ rest) =
      (units? rest).map fun (units, following) => (unit :: units, following) := by
  obtain ⟨c₁, c₂, c₃, c₄, rfl⟩ := hexadecimal.exists_eq
  simp only [List.cons_append, List.nil_append, units?,
    numberedEscape?_eq_some_iff.mpr written]
  cases units? rest <;> rfl

theorem StringUnit.WrittenAs.units?_append {unit : StringUnit} {first : List Char}
    (written : unit.WrittenAs first) (rest : List Char) :
    units? (first ++ rest) =
      (units? rest).map fun (units, following) => (unit :: units, following) := by
  cases written with
  | @plain c quote backslash printable =>
      have visible : ¬ c.toNat < 0x20 := Nat.not_lt.mpr printable
      rw [List.cons_append, List.nil_append, units?]
      · simp only [visible, backslash, or_self, if_false]
        cases units? rest <;> rfl
      · exact quote
      · intro _ _ _ _ _ same
        exact absurd same backslash
      · intro _ _ same
        exact absurd same backslash
  | @letter letter c escape =>
      rw [List.cons_append, List.cons_append, List.nil_append, units?,
        letterEscape?_eq_some_iff.mpr ⟨c, escape, rfl⟩]
      · cases units? rest <;> rfl
      · rintro _ _ _ _ _ rfl
        exact absurd (List.mem_map_of_mem escape)
          (by decide : 'u' ∉ letterEscapes.map Prod.fst)
  | numbered code => exact units?_numbered code (.numbered code) rest
  | surrogate hexadecimal isSurrogate =>
      exact units?_numbered hexadecimal (.surrogate hexadecimal isSurrogate) rest

private theorem units?_of_inscribed {units : List StringUnit} {written : List Char}
    (inscribed : Inscribed units written) (following : List Char) :
    units? (written ++ '"' :: following) = some (units, following) := by
  induction inscribed with
  | nil => rw [List.nil_append, units?]
  | cons written later induction =>
      rw [List.append_assoc, written.units?_append, induction]
      rfl

private theorem exists_inscribed_of_units? {text following : List Char}
    {units : List StringUnit} (read : units? text = some (units, following)) :
    ∃ written, text = written ++ '"' :: following ∧ Inscribed units written := by
  fun_induction units? text generalizing units with
  | case1 => cases read
  | case2 rest =>
      cases read
      exact ⟨[], rfl, .nil⟩
  | case3 c₁ c₂ c₃ c₄ rest induction =>
      simp only [Option.bind_eq_bind, Option.bind_eq_some_iff, Prod.exists] at read
      obtain ⟨unit, first, units, tail, reads, same⟩ := read
      cases same
      obtain ⟨written, rfl, later⟩ := induction reads
      exact ⟨_, rfl, .cons (numberedEscape?_eq_some_iff.mp first) later⟩
  | case4 letter rest _ induction =>
      simp only [Option.bind_eq_bind, Option.bind_eq_some_iff, Prod.exists] at read
      obtain ⟨unit, first, units, tail, reads, same⟩ := read
      cases same
      obtain ⟨c, escape, rfl⟩ := letterEscape?_eq_some_iff.mp first
      obtain ⟨written, rfl, later⟩ := induction reads
      exact ⟨_, rfl, .cons (.letter escape) later⟩
  | case5 => cases read
  | case6 c rest quote _ _ plain induction =>
      simp only [Option.bind_eq_bind, Option.bind_eq_some_iff, Prod.exists] at read
      obtain ⟨units, tail, reads, same⟩ := read
      cases same
      obtain ⟨written, rfl, later⟩ := induction reads
      have apart := not_or.mp plain
      exact ⟨_, rfl, .cons (.plain quote apart.2 (Nat.not_lt.mp apart.1)) later⟩

theorem units?_eq_some_iff {text following : List Char} {units : List StringUnit} :
    units? text = some (units, following) ↔
      ∃ written, text = written ++ '"' :: following ∧ Inscribed units written := by
  constructor
  · exact exists_inscribed_of_units?
  · rintro ⟨written, rfl, inscribed⟩
    exact units?_of_inscribed inscribed following

/-! ## Surrogates -/

theorem Inscribed.isSurrogate {units : List StringUnit} {written : List Char}
    (inscribed : Inscribed units written) {code : Nat}
    (member : .surrogate code ∈ units) :
    IsSurrogate code := by
  induction inscribed with
  | nil => cases member
  | cons written later induction =>
      rcases List.mem_cons.mp member with rfl | member
      · cases written with
        | surrogate hexadecimal isSurrogate => exact isSurrogate
      · exact induction member

theorem pair?_eq_some_iff {leading trailing : Nat} {c : Char}
    (leadingSurrogate : IsSurrogate leading) (trailingSurrogate : IsSurrogate trailing) :
    pair? leading trailing = some c ↔
      (leading < 0xDC00 ∧ 0xDC00 ≤ trailing) ∧
        c.toNat = 0x10000 + (leading - 0xD800) * 0x400 + (trailing - 0xDC00) := by
  unfold IsSurrogate at leadingSurrogate trailingSurrogate
  rw [pair?, Option.ite_none_right_eq_some, Option.some.injEq]
  refine and_congr_right fun ordered => ?_
  generalize joined : 0x10000 + (leading - 0xD800) * 0x400 + (trailing - 0xDC00) = code
  have valid : code.isValidChar := by
    unfold Nat.isValidChar
    omega
  have character : Char.ofNat code = Char.ofNatAux code valid := dif_pos valid
  constructor
  · rintro rfl
    rw [character]
    rfl
  · rintro rfl
    exact Char.ofNat_toNat c

theorem joinSurrogates?_eq_some_iff {units : List StringUnit} {characters : List Char}
    (surrogates : ∀ code, .surrogate code ∈ units → IsSurrogate code) :
    joinSurrogates? units = some characters ↔ Joins units characters := by
  constructor
  · intro join
    fun_induction joinSurrogates? units generalizing characters with
    | case1 =>
        cases join
        exact .nil
    | case2 c rest induction =>
        obtain ⟨later, joined, rfl⟩ := Option.map_eq_some_iff.mp join
        exact .character
          (induction (fun code member => surrogates code (by simp [member])) joined)
    | case3 leading trailing rest induction =>
        simp only [Option.bind_eq_bind, Option.bind_eq_some_iff] at join
        obtain ⟨c, pair, join⟩ := join
        obtain ⟨later, joined, rfl⟩ := Option.map_eq_some_iff.mp join
        have known :=
          (pair?_eq_some_iff (surrogates _ (by simp)) (surrogates _ (by simp))).mp pair
        exact .pair known.1.1 known.1.2 known.2
          (induction (fun code member => surrogates code (by simp [member])) joined)
    | case4 => cases join
  · intro joins
    induction joins with
    | nil => rfl
    | character later induction =>
        rw [joinSurrogates?,
          induction fun code member => surrogates code (by simp [member])]
        rfl
    | pair leads trails code later induction =>
        have pair :=
          (pair?_eq_some_iff (surrogates _ (by simp)) (surrogates _ (by simp))).mpr
          ⟨⟨leads, trails⟩, code⟩
        rw [joinSurrogates?, pair,
          induction fun code member => surrogates code (by simp [member])]
        rfl

/-! ## Characters as they are escaped -/

private theorem isHexDigit_hexDigit (value : Nat) (bound : value < 16) :
    IsHexDigit (hexDigit value) value := by
  have digits : ∀ value < 16, IsHexDigit (hexDigit value) value := by decide
  exact digits value bound

private theorem writtenAs_escape (c : Char) :
    (StringUnit.character c).WrittenAs (escape c) := by
  unfold escape
  split
  case h_8 quote backslash _ _ _ _ _ =>
    split
    · rename_i control
      have zero : IsHexDigit '0' 0 := by decide
      have digits :=
        Hexadecimal.digits zero zero (isHexDigit_hexDigit (c.toNat / 16) (by omega))
        (isHexDigit_hexDigit (c.toNat % 16) (by omega))
      have code : ((0 * 16 + 0) * 16 + c.toNat / 16) * 16 + c.toNat % 16 = c.toNat := by
        omega
      rw [code] at digits
      exact .numbered digits
    · rename_i printable
      exact .plain quote backslash (Nat.not_lt.mp printable)
  -- The seven characters whose escape is a letter.
  all_goals exact .letter (by decide)

theorem inscribed_flatMap_escape (text : List Char) :
    Inscribed (text.map .character) (text.flatMap escape) := by
  induction text with
  | nil => exact .nil
  | cons c text induction => exact .cons (writtenAs_escape c) induction

theorem joins_map_character (text : List Char) : Joins (text.map .character) text := by
  induction text with
  | nil => exact .nil
  | cons c text induction => exact .character induction

end LispFront.Json
