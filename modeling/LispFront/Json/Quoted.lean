import LispFront.Json.Basic

/-! Strings in quotes. A character is written as itself or as an escape; characters beyond
the first 65536 may also be escaped as a pair of surrogates. -/

namespace LispFront.Json

/-! ## Writing -/

def hexDigit (value : Nat) : Char :=
  if value < 10 then Char.ofNat ('0'.toNat + value)
  else Char.ofNat ('a'.toNat + (value - 10))

/-- The character as it stands between quotes. Only the quote, the backslash and the
control characters below the space are escaped. -/
def escape (c : Char) : List Char :=
  match c with
  | '"' => ['\\', '"']
  | '\\' => ['\\', '\\']
  | '\x08' => ['\\', 'b']
  | '\x0c' => ['\\', 'f']
  | '\n' => ['\\', 'n']
  | '\r' => ['\\', 'r']
  | '\t' => ['\\', 't']
  | c =>
      if c.toNat < 0x20 then
        ['\\', 'u', '0', '0', hexDigit (c.toNat / 16), hexDigit (c.toNat % 16)]
      else
        [c]

/-- The string in quotes. What stands for no characters is written as a surrogate by
itself. -/
def quote : JsonText → String
  | some text => String.ofList ('"' :: (text.toList.flatMap escape ++ ['"']))
  | none => "\"\\ud800\""

/-! ## Reading -/

inductive StringUnit where
  | character (c : Char)
  | surrogate (code : Nat)
deriving DecidableEq, Repr

def hexValue? (c : Char) : Option Nat :=
  if '0' ≤ c ∧ c ≤ '9' then some (c.toNat - '0'.toNat)
  else if 'a' ≤ c ∧ c ≤ 'f' then some (c.toNat - 'a'.toNat + 10)
  else if 'A' ≤ c ∧ c ≤ 'F' then some (c.toNat - 'A'.toNat + 10)
  else none

def StringUnit.ofCode (code : Nat) : StringUnit :=
  if 0xD800 ≤ code ∧ code ≤ 0xDFFF then .surrogate code else .character (Char.ofNat code)

def numberedEscape? (first second third fourth : Char) : Option StringUnit := do
  let first ← hexValue? first
  let second ← hexValue? second
  let third ← hexValue? third
  let fourth ← hexValue? fourth
  some (.ofCode (((first * 16 + second) * 16 + third) * 16 + fourth))

def letterEscape? : Char → Option StringUnit
  | '"' => some (.character '"')
  | '\\' => some (.character '\\')
  | '/' => some (.character '/')
  | 'b' => some (.character '\x08')
  | 'f' => some (.character '\x0c')
  | 'n' => some (.character '\n')
  | 'r' => some (.character '\r')
  | 't' => some (.character '\t')
  | _ => none

/-- Reads units up to the closing quote, and gives what follows it. -/
def units? : List Char → Option (List StringUnit × List Char)
  | [] => none
  | '"' :: rest => some ([], rest)
  | '\\' :: 'u' :: first :: second :: third :: fourth :: rest => do
      let unit ← numberedEscape? first second third fourth
      let (units, following) ← units? rest
      some (unit :: units, following)
  | '\\' :: letter :: rest => do
      let unit ← letterEscape? letter
      let (units, following) ← units? rest
      some (unit :: units, following)
  | c :: rest =>
      if c.toNat < 0x20 ∨ c = '\\' then
        none
      else do
        let (units, following) ← units? rest
        some (.character c :: units, following)

def pair? (leading trailing : Nat) : Option Char :=
  if leading < 0xDC00 ∧ 0xDC00 ≤ trailing then
    some (Char.ofNat (0x10000 + (leading - 0xD800) * 0x400 + (trailing - 0xDC00)))
  else
    none

/-- Joins surrogates in pairs. One that is left over spoils the whole string. -/
def joinSurrogates? : List StringUnit → Option (List Char)
  | [] => some []
  | .character c :: rest => (joinSurrogates? rest).map (c :: ·)
  | .surrogate leading :: .surrogate trailing :: rest => do
      let c ← pair? leading trailing
      (joinSurrogates? rest).map (c :: ·)
  | .surrogate _ :: _ => none

theorem length_lt_of_units? {text following : List Char} {units : List StringUnit}
    (read : units? text = some (units, following)) : following.length < text.length := by
  fun_induction units? text generalizing units with
  | case1 => cases read
  | case2 rest =>
      cases read
      exact Nat.lt_succ_self _
  | case3 first second third fourth rest induction =>
      simp only [Option.bind_eq_bind, Option.bind_eq_some_iff, Prod.exists] at read
      obtain ⟨_, _, units, tail, reads, same⟩ := read
      cases same
      have shorter := induction reads
      simp only [List.length_cons]
      omega
  | case4 letter rest _ induction =>
      simp only [Option.bind_eq_bind, Option.bind_eq_some_iff, Prod.exists] at read
      obtain ⟨_, _, units, tail, reads, same⟩ := read
      cases same
      have shorter := induction reads
      simp only [List.length_cons]
      omega
  | case5 => cases read
  | case6 c rest _ _ _ _ induction =>
      simp only [Option.bind_eq_bind, Option.bind_eq_some_iff, Prod.exists] at read
      obtain ⟨units, tail, reads, same⟩ := read
      cases same
      have shorter := induction reads
      simp only [List.length_cons]
      omega

end LispFront.Json
