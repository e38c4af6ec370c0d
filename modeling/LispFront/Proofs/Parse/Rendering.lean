import LispFront.Proofs.Agreement
import LispFront.Proofs.Parse.Recovery
import LispFront.Proofs.Token.Unquoted

/-! # Renderings told apart

A rendering leaves out the kinds and the places of tokens, and quotes nothing. As long as
no text has a quote, it is still the rendering of one tree only, but for places
(`Reading.render_ofText_eq_iff`): a tree can be cut off the front of its rendering,
whatever follows. -/

namespace LispFront

/-! ## Separated parts -/

/-- `item` can be told from `other` in front of any text. -/
def Cancels {α : Type} (render : α → String) (same : α → α → Bool) (item other : α) :
    Prop :=
  ∀ {rest rest' : List Char},
    (render item).toList ++ rest = (render other).toList ++ rest' →
      same item other = true ∧ rest = rest'

section

variable {α : Type} {render : α → String} {same : α → α → Bool} {left right : List α}
  {rest rest' : List Char}

private theorem toList_separated_nil : (separated []).toList = [] :=
  rfl

private theorem toList_separated_cons (part : String) (parts : List String) :
    (separated (part :: parts)).toList =
      part.toList ++ parts.flatMap fun later => ',' :: ' ' :: later.toList := by
  induction parts generalizing part with
  | nil => simp [separated]
  | cons later parts induction =>
      have inner := induction later
      rw [separated] at inner ⊢
      rw [String.intercalate_cons_cons, String.toList_append, inner]
      simp

theorem isEqv_of_flatMap {stop : Char} (ends : stop ≠ ',')
    (cancels : ∀ item ∈ left, ∀ other ∈ right, Cancels render same item other)
    (equal :
      (left.flatMap fun item => ',' :: ' ' :: (render item).toList) ++ stop :: rest =
        (right.flatMap fun item => ',' :: ' ' :: (render item).toList) ++ stop :: rest') :
    left.isEqv right same = true ∧ rest = rest' := by
  induction left generalizing right with
  | nil =>
      cases right with
      | nil => exact ⟨rfl, (List.cons.inj equal).2⟩
      | cons other right => exact absurd (List.cons.inj equal).1 ends
  | cons item left induction =>
      cases right with
      | nil => exact absurd (List.cons.inj equal).1.symm ends
      | cons other right =>
          simp only [List.flatMap_cons, List.cons_append, List.append_assoc,
            List.cons.injEq, true_and] at equal
          rcases List.forall_mem_cons.mp cancels with ⟨first, later⟩
          obtain ⟨agree, behind⟩ := first other List.mem_cons_self equal
          obtain ⟨agreeLater, rest_eq⟩ := induction
            (fun item member other known =>
              later item member other (List.mem_cons_of_mem _ known)) behind
          exact ⟨by simp [List.isEqv, agree, agreeLater], rest_eq⟩

theorem isEqv_of_separated {stop : Char} (ends : stop ≠ ',')
    (stops : stop.isUpper = false)
    (begins : ∀ item, ∃ first, (render item).toList.head? = some first ∧
      first.isUpper = true)
    (cancels : ∀ item ∈ left, ∀ other ∈ right, Cancels render same item other)
    (equal : (separated (left.map render)).toList ++ stop :: rest =
      (separated (right.map render)).toList ++ stop :: rest') :
    left.isEqv right same = true ∧ rest = rest' := by
  have apart (item : α) {before after : List Char} :
      stop :: before ≠ (render item).toList ++ after := by
    obtain ⟨first, head, upper⟩ := begins item
    obtain ⟨later, written⟩ := List.head?_eq_some_iff.mp head
    rw [written]
    intro equal
    rw [← (List.cons.inj equal).1, stops] at upper
    cases upper
  cases left with
  | nil =>
      cases right with
      | nil => exact ⟨rfl, (List.cons.inj equal).2⟩
      | cons other right =>
          rw [List.map_nil, List.map_cons, toList_separated_nil, toList_separated_cons,
            List.append_assoc] at equal
          exact absurd equal (apart other)
  | cons item left =>
      cases right with
      | nil =>
          rw [List.map_nil, List.map_cons, toList_separated_nil, toList_separated_cons,
            List.append_assoc] at equal
          exact absurd equal.symm (apart item)
      | cons other right =>
          rw [List.map_cons, List.map_cons, toList_separated_cons, toList_separated_cons,
            List.flatMap_map, List.flatMap_map, List.append_assoc,
            List.append_assoc] at equal
          obtain ⟨agree, behind⟩ :=
            cancels item List.mem_cons_self other List.mem_cons_self equal
          obtain ⟨agreeLater, rest_eq⟩ := isEqv_of_flatMap ends
            (fun item member other known =>
              cancels item (List.mem_cons_of_mem _ member) other
                (List.mem_cons_of_mem _ known)) behind
          exact ⟨by simp [List.isEqv, agree, agreeLater], rest_eq⟩

end

/-! ## Trees of unquoted words -/

/-- A word as a text without quotes has it. -/
structure Token.Plain (word : Token) : Prop where
  unquoted : word.Unquoted
  spelled : word.IsSpelled

theorem Token.Plain.agrees_of_kind {left right : Token} (plain : left.Plain)
    (plain' : right.Plain) (c : Char) {kind : TokenKind}
    (symbol : TokenKind.ofSymbol? c = some kind) (leftKind : left.kind = kind)
    (rightKind : right.kind = kind) : left.agrees right = true := by
  rw [agrees_iff, plain.spelled c (leftKind ▸ symbol),
    plain'.spelled c (rightKind ▸ symbol), leftKind, rightKind]
  exact ⟨rfl, rfl⟩

/-- A tree of the language without strings. -/
structure Expression.Plain (expression : Expression) : Prop where
  valid : expression.Valid
  words : ∀ token ∈ expression.tokens, token.Plain

theorem Expression.Plain.children {expression : Expression} (plain : expression.Plain) :
    ∀ child ∈ expression.children, child.Plain := fun child member =>
  ⟨plain.valid.children child member,
    fun _ known => plain.words _ (mem_tokens_of_children member known)⟩

private theorem Identifier.cancels {left right : Identifier} (valid : left.Valid)
    (valid' : right.Valid) (plain : left.token.Plain) (plain' : right.token.Plain) :
    Cancels Identifier.render Identifier.agrees left right := by
  intro rest rest' equal
  have behind : left.token.text.toList ++ ')' :: rest =
      right.token.text.toList ++ ')' :: rest' := by
    simpa [render, valid.2, valid'.2] using equal
  obtain ⟨agree, rest_eq⟩ := plain.unquoted.append_inj plain'.unquoted (by decide) behind
  refine ⟨?_, rest_eq⟩
  rw [agrees, agree, valid.2, valid'.2, (Token.agrees_iff.mp agree).2]
  simp

private theorem Identifier.head?_render (identifier : Identifier) :
    ∃ first, identifier.render.toList.head? = some first ∧ first.isUpper = true :=
  ⟨'I', by simp [render], by decide⟩

namespace Expression

private theorem head?_render (expression : Expression) :
    ∃ first, expression.render.toList.head? = some first ∧ first.isUpper = true := by
  cases expression with
  | number token value => exact ⟨'N', by simp [render], by decide⟩
  | string token value => exact ⟨'S', by simp [render], by decide⟩
  | identifier name => exact name.head?_render
  | array opening elements => exact ⟨'A', by simp [render], by decide⟩
  | call opening function arguments => exact ⟨'C', by simp [render], by decide⟩
  | function opening name parameters body => exact ⟨'F', by simp [render], by decide⟩

end Expression

private theorem agreeAll_eq_isEqv (left right : List Expression) :
    agreeAll left right = left.isEqv right Expression.agrees := by
  induction left generalizing right with
  | nil => cases right <;> rfl
  | cons first rest induction =>
      cases right with
      | nil => rfl
      | cons first' rest' => rw [agreeAll, induction, List.isEqv]

theorem agreeAll_of_separated {left right : List Expression} {rest rest' : List Char}
    {stop : Char} (ends : stop ≠ ',') (stops : stop.isUpper = false)
    (cancels : ∀ item ∈ left, ∀ other ∈ right,
      Cancels Expression.render Expression.agrees item other)
    (equal : (separated (renderAll left)).toList ++ stop :: rest =
      (separated (renderAll right)).toList ++ stop :: rest') :
    agreeAll left right = true ∧ rest = rest' := by
  rw [renderAll_eq_map, renderAll_eq_map] at equal
  rw [agreeAll_eq_isEqv]
  exact isEqv_of_separated ends stops Expression.head?_render cancels equal

namespace Expression

variable {opening opening' : Token}

private theorem cancels_number {token token' : Token} {value value' : String}
    (plain : (number token value).Plain) (plain' : (number token' value').Plain) :
    Cancels render agrees (number token value) (number token' value') := by
  intro rest rest' equal
  have behind : token.text.toList ++ ')' :: rest =
      token'.text.toList ++ ')' :: rest' := by
    simpa [render, plain.valid.2, plain'.valid.2] using equal
  obtain ⟨agree, rest_eq⟩ := (plain.words token List.mem_cons_self).unquoted.append_inj
    (plain'.words token' List.mem_cons_self).unquoted (by decide) behind
  refine ⟨?_, rest_eq⟩
  rw [agrees, agree, plain.valid.2, plain'.valid.2, (Token.agrees_iff.mp agree).2]
  simp

private theorem cancels_identifier {name name' : Identifier}
    (plain : (identifier name).Plain) (plain' : (identifier name').Plain) :
    Cancels render agrees (identifier name) (identifier name') := by
  intro rest rest' equal
  rw [agrees]
  exact Identifier.cancels plain.valid plain'.valid (plain.words _ List.mem_cons_self)
    (plain'.words _ List.mem_cons_self) (by simpa [render] using equal)

private theorem cancels_array {elements elements' : List Expression}
    (plain : (array opening elements).Plain) (plain' : (array opening' elements').Plain)
    (each : ∀ item ∈ elements, ∀ other ∈ elements', Cancels render agrees item other) :
    Cancels render agrees (array opening elements) (array opening' elements') := by
  intro rest rest' equal
  have behind : (separated (renderAll elements)).toList ++ ']' :: rest =
      (separated (renderAll elements')).toList ++ ']' :: rest' := by
    simpa [render] using equal
  obtain ⟨inner, rest_eq⟩ := agreeAll_of_separated (by decide) (by decide) each behind
  have own := (plain.words opening List.mem_cons_self).agrees_of_kind
    (plain'.words opening' List.mem_cons_self) '[' rfl plain.valid.1 plain'.valid.1
  exact ⟨by simp [agrees, own, inner], rest_eq⟩

private theorem cancels_call {function function' : Token}
    {arguments arguments' : List Expression}
    (plain : (call opening function arguments).Plain)
    (plain' : (call opening' function' arguments').Plain)
    (each : ∀ item ∈ arguments, ∀ other ∈ arguments', Cancels render agrees item other) :
    Cancels render agrees (call opening function arguments)
      (call opening' function' arguments') := by
  intro rest rest' equal
  have front : function.text.toList ++ ';' :: ' ' ::
        ((separated (renderAll arguments)).toList ++ ')' :: rest) =
      function'.text.toList ++ ';' :: ' ' ::
        ((separated (renderAll arguments')).toList ++ ')' :: rest') := by
    simpa [render] using equal
  obtain ⟨head, behind⟩ := (plain.words function (by simp [tokens])).unquoted.append_inj
    (plain'.words function' (by simp [tokens])).unquoted (by decide) front
  obtain ⟨inner, rest_eq⟩ :=
    agreeAll_of_separated (by decide) (by decide) each (List.cons.inj behind).2
  have own := (plain.words opening List.mem_cons_self).agrees_of_kind
    (plain'.words opening' List.mem_cons_self) '(' rfl plain.valid.1 plain'.valid.1
  exact ⟨by simp [agrees, own, head, inner], rest_eq⟩

private theorem cancels_function {name name' : Token}
    {parameters parameters' : List Identifier} {body body' : List Expression}
    (plain : (function opening name parameters body).Plain)
    (plain' : (function opening' name' parameters' body').Plain)
    (each : ∀ item ∈ body, ∀ other ∈ body', Cancels render agrees item other) :
    Cancels render agrees (function opening name parameters body)
      (function opening' name' parameters' body') := by
  intro rest rest' equal
  have front : name.text.toList ++ ';' :: ' ' :: '[' ::
        ((separated (parameters.map Identifier.render)).toList ++ ']' :: ';' :: ' ' ::
          ((separated (renderAll body)).toList ++ ')' :: rest)) =
      name'.text.toList ++ ';' :: ' ' :: '[' ::
        ((separated (parameters'.map Identifier.render)).toList ++ ']' :: ';' :: ' ' ::
          ((separated (renderAll body')).toList ++ ')' :: rest')) := by
    simpa [render] using equal
  obtain ⟨called, list⟩ := (plain.words name (by simp [tokens])).unquoted.append_inj
    (plain'.words name' (by simp [tokens])).unquoted (by decide) front
  have names : ∀ parameter ∈ parameters, ∀ parameter' ∈ parameters',
      Cancels Identifier.render Identifier.agrees parameter parameter' :=
    fun parameter member parameter' member' => Identifier.cancels
      (plain.valid.2.2.1 parameter member) (plain'.valid.2.2.1 parameter' member')
      (plain.words _ (by simp [tokens, List.mem_map_of_mem member]))
      (plain'.words _ (by simp [tokens, List.mem_map_of_mem member']))
  obtain ⟨parametersAgree, behind⟩ := isEqv_of_separated (by decide) (by decide)
    Identifier.head?_render names (List.cons.inj (List.cons.inj list).2).2
  obtain ⟨inner, rest_eq⟩ := agreeAll_of_separated (by decide) (by decide) each
    (List.cons.inj (List.cons.inj behind).2).2
  have own := (plain.words opening List.mem_cons_self).agrees_of_kind
    (plain'.words opening' List.mem_cons_self) '(' rfl plain.valid.1 plain'.valid.1
  exact ⟨by simp [agrees, own, called, parametersAgree, inner], rest_eq⟩

theorem cancels_of_apart {left right : Expression}
    (apart : ∀ rest rest', left.render.toList ++ rest ≠ right.render.toList ++ rest') :
    Cancels render agrees left right := fun equal => absurd equal (apart _ _)

mutual

/-- A tree can be cut off the front of a text that begins with its rendering. -/
theorem cancels (left right : Expression) (plain : left.Plain) (plain' : right.Plain) :
    Cancels render agrees left right := by
  cases left with
  | number token value =>
      cases right with
      | number token' value' => exact cancels_number plain plain'
      | _ => exact cancels_of_apart (by simp [render, Identifier.render])
  | string token value =>
      exact absurd plain.valid.1
        (plain.words token List.mem_cons_self).unquoted.kind_ne_string
  | identifier name =>
      cases right with
      | identifier name' => exact cancels_identifier plain plain'
      | _ => exact cancels_of_apart (by simp [render, Identifier.render])
  | array opening elements =>
      cases right with
      | array opening' elements' =>
          exact cancels_array plain plain'
            (cancelsAll elements elements' plain.children plain'.children)
      | _ => exact cancels_of_apart (by simp [render, Identifier.render])
  | call opening function arguments =>
      cases right with
      | call opening' function' arguments' =>
          exact cancels_call plain plain'
            (cancelsAll arguments arguments' plain.children plain'.children)
      | _ => exact cancels_of_apart (by simp [render, Identifier.render])
  | function opening name parameters body =>
      cases right with
      | function opening' name' parameters' body' =>
          exact cancels_function plain plain'
            (cancelsAll body body' plain.children plain'.children)
      | _ => exact cancels_of_apart (by simp [render, Identifier.render])

theorem cancelsAll (left right : List Expression) (plain : ∀ item ∈ left, item.Plain)
    (plain' : ∀ other ∈ right, other.Plain) :
    ∀ item ∈ left, ∀ other ∈ right, Cancels render agrees item other := by
  cases left with
  | nil => exact nofun
  | cons first later =>
      rcases List.forall_mem_cons.mp plain with ⟨firstPlain, laterPlain⟩
      exact List.forall_mem_cons.mpr ⟨fun other member =>
        first.cancels other firstPlain (plain' other member),
        cancelsAll later right laterPlain plain'⟩

end

end Expression

/-! ## Lines -/

private theorem lineFeed_notMem_separated {parts : List String}
    (each : ∀ part ∈ parts, '\n' ∉ part.toList) : '\n' ∉ (separated parts).toList := by
  cases parts with
  | nil => simp [toList_separated_nil]
  | cons part parts =>
      rcases List.forall_mem_cons.mp each with ⟨first, later⟩
      simpa [toList_separated_cons, first] using later

theorem Identifier.lineFeed_notMem_render {identifier : Identifier}
    (valid : identifier.Valid) (plain : identifier.token.Plain) :
    '\n' ∉ identifier.render.toList := by
  have name := plain.unquoted.lineFeed_notMem
  rw [← valid.2] at name
  simp [render, name]

mutual

theorem Expression.lineFeed_notMem_render (expression : Expression)
    (plain : expression.Plain) : '\n' ∉ expression.render.toList := by
  cases expression with
  | number token value | string token value =>
      have own := (plain.words token List.mem_cons_self).unquoted.lineFeed_notMem
      rw [← plain.valid.2] at own
      simp [Expression.render, own]
  | identifier name =>
      rw [Expression.render]
      exact Identifier.lineFeed_notMem_render plain.valid
        (plain.words _ List.mem_cons_self)
  | array opening elements =>
      have inner :=
        lineFeed_notMem_separated (lineFeed_notMem_renderAll elements plain.children)
      simp [Expression.render, inner]
  | call opening function arguments =>
      have head :=
        (plain.words function (by simp [Expression.tokens])).unquoted.lineFeed_notMem
      have inner :=
        lineFeed_notMem_separated (lineFeed_notMem_renderAll arguments plain.children)
      simp [Expression.render, head, inner]
  | function opening name parameters body =>
      have called :=
        (plain.words name (by simp [Expression.tokens])).unquoted.lineFeed_notMem
      have names : ∀ part ∈ parameters.map Identifier.render, '\n' ∉ part.toList :=
        List.forall_mem_map.mpr fun parameter member => Identifier.lineFeed_notMem_render
          (plain.valid.2.2.1 parameter member)
          (plain.words _ (by simp [Expression.tokens, List.mem_map_of_mem member]))
      have list := lineFeed_notMem_separated names
      have inner :=
        lineFeed_notMem_separated (lineFeed_notMem_renderAll body plain.children)
      simp [Expression.render, called, list, inner]

theorem lineFeed_notMem_renderAll (expressions : List Expression)
    (plain : ∀ expression ∈ expressions, expression.Plain) :
    ∀ line ∈ renderAll expressions, '\n' ∉ line.toList := by
  cases expressions with
  | nil => exact nofun
  | cons expression rest =>
      rcases List.forall_mem_cons.mp plain with ⟨first, later⟩
      exact List.forall_mem_cons.mpr
        ⟨expression.lineFeed_notMem_render first, lineFeed_notMem_renderAll rest later⟩

end

/-! ## Programs -/

namespace Program

private theorem toList_render (program : Program) :
    program.render.toList = program.expressions.flatMap fun expression =>
      expression.render.toList ++ ['\n'] := by
  simp [render, String.toList_join, List.flatMap_map]

theorem agrees_of_render_eq {left right : Program}
    (plain : ∀ item ∈ left.expressions, item.Plain)
    (plain' : ∀ other ∈ right.expressions, other.Plain)
    (same : left.render = right.render) :
    left.agrees right = true := by
  have equal := congrArg String.toList same
  rw [toList_render, toList_render] at equal
  rw [agrees]
  generalize left.expressions = items at plain equal ⊢
  generalize right.expressions = others at plain' equal ⊢
  clear same
  induction items generalizing others with
  | nil =>
      cases others with
      | nil => rfl
      | cons other others => simp at equal
  | cons item items induction =>
      cases others with
      | nil => simp at equal
      | cons other others =>
          rcases List.forall_mem_cons.mp plain with ⟨first, later⟩
          rcases List.forall_mem_cons.mp plain' with ⟨first', later'⟩
          rw [List.flatMap_cons, List.flatMap_cons, List.append_assoc,
            List.append_assoc] at equal
          obtain ⟨agree, behind⟩ := item.cancels other first first' equal
          rw [agreeAll, agree, induction later others later' (List.cons.inj behind).2]
          rfl

end Program

namespace Reading

theorem plain_ofText {source : String} (unquoted : '"' ∉ source.toList) :
    ∀ expression ∈ (ofText source).program.expressions, expression.Plain := by
  intro expression member
  have made := madeOf_ofText source expression member
  exact ⟨made.valid, fun token known => ⟨Cursor.unquoted_of_mem_words unquoted
    (made.tokens token known), Cursor.isSpelled_of_mem_words (made.tokens token known)⟩⟩

/-- Texts without quotes, however malformed, have one rendering only if their programs
agree, and it has one line for each expression. -/
theorem render_ofText_eq_iff {source other : String} (unquoted : '"' ∉ source.toList)
    (unquoted' : '"' ∉ other.toList) :
    ((ofText source).program.render = (ofText other).program.render ↔
      (ofText source).program.agrees (ofText other).program = true) ∧
    ∃ lines : List String, lines.length = (ofText source).program.expressions.length ∧
      (∀ line ∈ lines, '\n' ∉ line.toList) ∧
      (ofText source).program.render = String.join (lines.map (· ++ "\n")) := by
  have plain := plain_ofText unquoted
  refine ⟨⟨Program.agrees_of_render_eq plain (plain_ofText unquoted'),
    Program.render_eq_of_agrees⟩, renderAll (ofText source).program.expressions, ?_,
    lineFeed_notMem_renderAll _ plain, ?_⟩
  · rw [renderAll_eq_map, List.length_map]
  · rw [renderAll_eq_map, List.map_map]
    rfl

/-- A function named by a comma, among names that are none and brackets without their
partners. -/
theorem agrees_ofText_of_malformed :
    let source := ") (fn , [a 1 b] (; x) (+ 1.2. []))\n(f"
    let other := "(fn ,[a\nb](+ 1.2. [ ]))]"
    '"' ∉ source.toList ∧ '"' ∉ other.toList ∧
      (ofText source).program.agrees (ofText other).program = true := by
  intro source other
  have unquoted : '"' ∉ source.toList := by decide
  have unquoted' : '"' ∉ other.toList := by decide
  have same : (ofText source).program.render = (ofText other).program.render := by
    decide +kernel
  exact ⟨unquoted, unquoted', (render_ofText_eq_iff unquoted unquoted').1.mp same⟩

end Reading

end LispFront
