import Mathlib.Data.List.Forall2
import LispFront.Json.Pretty
import LispFront.Proofs.Json.Reading

/-! # Values laid out

The lines that a value is laid out on are a written form of it, however deep it nests, if
its numerals are numerals (`WellFormed.written`). -/

namespace LispFront.Json

/-! ## Written forms put together -/

namespace Written

variable {first second : List Symbol} {text following space : List Char}

theorem afterSpace (blank : ∀ c ∈ space, isSpace c = true)
    (written : Written first text) : Written first (space ++ text) := by
  cases written with
  | nil later =>
      exact .nil fun c member => (List.mem_append.mp member).elim (blank c) (later c)
  | cons later written rest =>
      rw [← List.append_assoc]
      exact .cons (fun c member => (List.mem_append.mp member).elim (blank c) (later c))
        written rest

theorem append (written : Written first text) (later : Written second following) :
    Written (first ++ second) (text ++ following) := by
  induction written with
  | nil blank => exact later.afterSpace blank
  | cons blank written rest induction =>
      rw [List.append_assoc, List.append_assoc]
      exact .cons blank written induction

end Written

theorem Symbol.WrittenAs.single {symbol : Symbol} {text : List Char}
    (written : symbol.WrittenAs text) : Written [symbol] text := by
  have single : Written [symbol] ([] ++ (text ++ [])) := .cons nofun written (.nil nofun)
  rwa [List.nil_append, List.append_nil] at single

theorem isSpace_newLine (depth : Nat) :
    ∀ c ∈ (newLine depth).toList, isSpace c = true := by
  intro c member
  rw [newLine, String.toList_ofList, List.mem_cons, List.mem_replicate] at member
  rcases member with rfl | ⟨-, rfl⟩ <;> rfl

/-! ## Layout -/

def LaidOut (parts : List (List Symbol)) (texts : List String) : Prop :=
  List.Forall₂ (fun symbols text => Written symbols text.toList) parts texts

private theorem written_separated {parts : List (List Symbol)} {texts : List String}
    (laidOut : LaidOut parts texts) (depth : Nat) :
    Written (commaSeparated parts) (("," ++ newLine depth).intercalate texts).toList := by
  induction laidOut with
  | nil => exact .nil (by simp)
  | @cons part text parts texts written later induction =>
      cases later with
      | nil => simpa [commaSeparated_singleton] using written
      | cons next later =>
          have comma := (Symbol.WrittenAs.comma.single).append
            (induction.afterSpace (isSpace_newLine depth))
          have whole := written.append comma
          rw [commaSeparated_cons_cons, String.intercalate_cons_cons]
          simpa using whole

private theorem written_bracketed {opens closes : Symbol} {opening closing : String}
    (openingWritten : opens.WrittenAs opening.toList)
    (closingWritten : closes.WrittenAs closing.toList)
    {parts : List (List Symbol)} {texts : List String} (laidOut : LaidOut parts texts)
    (depth : Nat) :
    Written (opens :: (commaSeparated parts ++ [closes]))
      (bracketed opening closing depth texts).toList := by
  cases laidOut with
  | nil =>
      simpa [bracketed,
        commaSeparated_nil] using openingWritten.single.append closingWritten.single
  | cons written later =>
      have inner :=
        (written_separated (.cons written later) (depth + 1)).afterSpace
          (isSpace_newLine (depth + 1))
      have ending := closingWritten.single.afterSpace (isSpace_newLine depth)
      have whole := openingWritten.single.append (inner.append ending)
      simpa [bracketed] using whole

theorem writtenAs_quote (text : JsonText) :
    (Symbol.string text).WrittenAs (quote text).toList := by
  cases text with
  | some text =>
      have quoted := Symbol.WrittenAs.string (inscribed_flatMap_escape text.toList)
        (joins_map_character text.toList)
      rwa [quote, String.toList_ofList]
  | none =>
      have digits :
          Hexadecimal ['d', '8', '0', '0'] (((13 * 16 + 8) * 16 + 0) * 16 + 0) :=
        .digits (by decide) (by decide) (by decide) (by decide)
      have alone :
          Inscribed [.surrogate 0xD800] (['\\', 'u', 'd', '8', '0', '0'] ++ []) :=
        .cons (.surrogate digits ⟨by decide, by decide⟩) .nil
      exact .unpaired alone fun characters joins => nomatch joins

/-! ## Values -/

/-- Every numeral in the value is one. -/
inductive WellFormed : Json → Prop where
  | null : WellFormed .null
  | bool (value : Bool) : WellFormed (.bool value)
  | number {numeral : String}
      (whole : numeral? numeral.toList = some (numeral.toList, [])) :
      WellFormed (.number numeral)
  | string (text : JsonText) : WellFormed (.string text)
  | array {items : List Json} (each : ∀ item ∈ items, WellFormed item) :
      WellFormed (.array items)
  | object {members : List (JsonText × Json)}
      (each : ∀ member ∈ members, WellFormed member.2) :
      WellFormed (.object members)

private theorem laidOut_items {items : List Json} {depth : Nat}
    (each : ∀ item ∈ items, Written item.symbols (prettyAt depth item).toList) :
    LaidOut (itemSymbols items) (prettyItems depth items) := by
  induction items with
  | nil => exact .nil
  | cons item items induction =>
      rcases List.forall_mem_cons.mp each with ⟨first, later⟩
      exact .cons first (induction later)

private theorem laidOut_members {members : List (JsonText × Json)} {depth : Nat}
    (each : ∀ member ∈ members,
      Written member.2.symbols (prettyAt depth member.2).toList) :
    LaidOut (memberSymbols members) (prettyMembers depth members) := by
  induction members with
  | nil => exact .nil
  | cons member members induction =>
      obtain ⟨key, value⟩ := member
      rcases List.forall_mem_cons.mp each with ⟨first, later⟩
      refine .cons ?_ (induction later)
      have space : ∀ c ∈ [' '], isSpace c = true := List.forall_mem_singleton.mpr rfl
      have named := (writtenAs_quote key).single.append
        (Symbol.WrittenAs.colon.single.append (first.afterSpace space))
      simpa using named

theorem WellFormed.written {value : Json} (wellFormed : value.WellFormed) (depth : Nat) :
    Written value.symbols (prettyAt depth value).toList := by
  induction wellFormed generalizing depth with
  | null =>
      rw [symbols, prettyAt]
      exact Symbol.WrittenAs.null.single
  | bool value =>
      cases value with
      | false =>
          rw [symbols, prettyAt]
          exact Symbol.WrittenAs.false.single
      | true =>
          rw [symbols, prettyAt]
          exact Symbol.WrittenAs.true.single
  | number whole =>
      rw [symbols, prettyAt]
      exact (Symbol.WrittenAs.number (isNumeral_of_numeral? whole)).single
  | string text =>
      rw [symbols, prettyAt]
      exact (writtenAs_quote text).single
  | array each induction =>
      rw [symbols, prettyAt]
      exact written_bracketed .openArray .closeArray
        (laidOut_items fun item member => induction item member (depth + 1)) depth
  | object each induction =>
      rw [symbols, prettyAt]
      exact written_bracketed .openObject .closeObject
        (laidOut_members fun member known => induction member known (depth + 1)) depth

end LispFront.Json
