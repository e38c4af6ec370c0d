import LispFront.Interchange.Program
import LispFront.Proofs.Interchange.Shape
import LispFront.Proofs.Syntax.Tokens

/-! # Programs as data

A program is put together from the datum that it is taken apart into, and from no other.
That datum is of the declared shape, and it nests three brackets deeper for each level of
nodes. -/

namespace LispFront

/-! ## Taking apart and putting together -/

theorem TokenKind.ofSpelling?_eq_some_iff {text : String} {kind : TokenKind} :
    ofSpelling? text = some kind ↔ text = kind.spelling := by
  constructor
  · intro found
    have first : all.find? (fun kind => kind.spelling == text) = some kind := found
    have same := List.find?_some first
    exact (beq_iff_eq.mp same).symm
  · rintro rfl
    exact ofSpelling?_spelling kind

@[simp] theorem Token.ofDatum?_toDatum (token : Token) :
    ofDatum? token.toDatum = some token := by
  simp [toDatum, ofDatum?]

theorem Token.eq_toDatum_of_ofDatum? {datum : Datum} {token : Token}
    (read : ofDatum? datum = some token) : datum = token.toDatum := by
  unfold ofDatum? at read
  split at read
  · obtain ⟨kind, spelled, rfl⟩ := Option.map_eq_some_iff.mp read
    obtain rfl := TokenKind.ofSpelling?_eq_some_iff.mp spelled
    rfl
  · cases read

@[simp] theorem Identifier.ofDatum?_toDatum (identifier : Identifier) :
    ofDatum? identifier.toDatum = some identifier := by
  simp [toDatum, ofDatum?]

theorem Identifier.eq_toDatum_of_ofDatum? {datum : Datum} {identifier : Identifier}
    (read : ofDatum? datum = some identifier) : datum = identifier.toDatum := by
  unfold ofDatum? at read
  split at read
  · obtain ⟨token, own, rfl⟩ := Option.map_eq_some_iff.mp read
    rw [Token.eq_toDatum_of_ofDatum? own]
    rfl
  · cases read

private theorem mapM_ofDatum?_toDatum (identifiers : List Identifier) :
    (identifiers.map Identifier.toDatum).mapM Identifier.ofDatum? = some identifiers := by
  rw [mapM_eq_some_iff, List.forall₂_map_left_iff, List.forall₂_same]
  exact fun identifier _ => identifier.ofDatum?_toDatum

private theorem eq_map_toDatum_of_mapM {data : List Datum} {identifiers : List Identifier}
    (read : data.mapM Identifier.ofDatum? = some identifiers) :
    data = identifiers.map Identifier.toDatum := by
  rw [mapM_eq_some_iff] at read
  induction read with
  | nil => rfl
  | cons own later induction =>
      rw [Identifier.eq_toDatum_of_ofDatum? own, induction, List.map_cons]

mutual

theorem Expression.ofDatum?_toDatum (expression : Expression) :
    Expression.ofDatum? expression.toDatum = some expression := by
  cases expression with
  | number token value | string token value | identifier name =>
      simp [Expression.toDatum, Expression.ofDatum?]
  | array opening elements =>
      simp [Expression.toDatum, Expression.ofDatum?,
        expressionsOfData?_expressionsToData elements]
  | call opening function arguments =>
      simp [Expression.toDatum, Expression.ofDatum?,
        expressionsOfData?_expressionsToData arguments]
  | function opening name parameters body =>
      simp [Expression.toDatum, Expression.ofDatum?, mapM_ofDatum?_toDatum parameters,
        expressionsOfData?_expressionsToData body]

theorem expressionsOfData?_expressionsToData (expressions : List Expression) :
    expressionsOfData? (expressionsToData expressions) = some expressions := by
  cases expressions with
  | nil => rfl
  | cons expression rest =>
      simp [expressionsToData, expressionsOfData?, expression.ofDatum?_toDatum,
        expressionsOfData?_expressionsToData rest]

end

theorem Expression.eq_toDatum_of_ofDatum? :
    (∀ (datum : Datum) (expression : Expression),
      ofDatum? datum = some expression → datum = expression.toDatum) ∧
    ∀ (data : List Datum) (expressions : List Expression),
      expressionsOfData? data = some expressions →
        data = expressionsToData expressions := by
  apply Expression.ofDatum?.mutual_induct
  case case1 | case2 =>
    intro token value expression read
    simp only [ofDatum?, Option.bind_eq_bind, Option.bind_eq_some_iff,
      Option.some.injEq] at read
    obtain ⟨token, own, rfl⟩ := read
    rw [Token.eq_toDatum_of_ofDatum? own]
    rfl
  case case3 =>
    intro name expression read
    simp only [ofDatum?, Option.bind_eq_bind, Option.bind_eq_some_iff,
      Option.some.injEq] at read
    obtain ⟨name, own, rfl⟩ := read
    rw [Identifier.eq_toDatum_of_ofDatum? own]
    rfl
  case case4 =>
    intro opening elements induction expression read
    simp only [ofDatum?, Option.bind_eq_bind, Option.bind_eq_some_iff,
      Option.some.injEq] at read
    obtain ⟨opening, own, elements, inside, rfl⟩ := read
    rw [Token.eq_toDatum_of_ofDatum? own, induction _ inside]
    rfl
  case case5 =>
    intro opening function arguments induction expression read
    simp only [ofDatum?, Option.bind_eq_bind, Option.bind_eq_some_iff,
      Option.some.injEq] at read
    obtain ⟨opening, own, function, called, arguments, inside, rfl⟩ := read
    rw [Token.eq_toDatum_of_ofDatum? own, Token.eq_toDatum_of_ofDatum? called,
      induction _ inside]
    rfl
  case case6 =>
    intro opening name parameters body induction expression read
    simp only [ofDatum?, Option.bind_eq_bind, Option.bind_eq_some_iff,
      Option.some.injEq] at read
    obtain ⟨opening, own, name, called, parameters, names, body, inside, rfl⟩ := read
    rw [Token.eq_toDatum_of_ofDatum? own, Token.eq_toDatum_of_ofDatum? called,
      eq_map_toDatum_of_mapM names, induction _ inside]
    rfl
  case case7 =>
    intro datum number string identifier array call function expression read
    rw [ofDatum?] at read
    · cases read
    all_goals assumption
  case case8 =>
    intro expressions read
    cases read
    rfl
  case case9 =>
    intro datum data first later expressions read
    simp only [expressionsOfData?, Option.bind_eq_bind, Option.bind_eq_some_iff,
      Option.some.injEq] at read
    obtain ⟨expression, own, expressions, inside, rfl⟩ := read
    rw [first _ own, later _ inside]
    rfl

theorem Program.ofDatum?_eq_some_iff {datum : Datum} {program : Program} :
    ofDatum? datum = some program ↔ datum = program.toDatum := by
  constructor
  · intro read
    unfold ofDatum? at read
    split at read
    · obtain ⟨expressions, own, rfl⟩ := Option.map_eq_some_iff.mp read
      rw [Expression.eq_toDatum_of_ofDatum?.2 _ _ own]
      rfl
    · cases read
  · rintro rfl
    simp [toDatum, ofDatum?, expressionsOfData?_expressionsToData]

/-! ## The shape of a program -/

def Token.PlacedIn (numbers : Set Nat) (token : Token) : Prop :=
  token.position.line ∈ numbers ∧ token.position.column ∈ numbers

open Datum

section

variable {numbers : Set Nat}

theorem Token.hasShape {token : Token} (placed : token.PlacedIn numbers) :
    token.toDatum.HasShape declarations numbers (.named .token) := by
  have kind : HasShape declarations numbers (.named .kind) (.unit token.kind.spelling) :=
    .unit rfl (List.mem_map_of_mem token.kind.mem_all)
  apply hasShape_record rfl rfl
  exact .cons kind (.cons (.text token.text)
    (.cons (.natural placed.1) (.cons (.natural placed.2) .nil)))

theorem Identifier.hasShape {identifier : Identifier}
    (placed : identifier.token.PlacedIn numbers) :
    identifier.toDatum.HasShape declarations numbers (.named .identifier) := by
  apply hasShape_record rfl rfl
  exact .cons (Token.hasShape placed) (.cons (.text identifier.name) .nil)

private theorem hasShape_literal {token : Token} (placed : token.PlacedIn numbers)
    (value : String) : HasShape declarations numbers (.named .literal)
      (.record [("token", token.toDatum), ("value", .text value)]) := by
  apply hasShape_record rfl rfl
  exact .cons (Token.hasShape placed) (.cons (.text value) .nil)

mutual

theorem Expression.hasShape (expression : Expression)
    (placed : ∀ token ∈ expression.tokens, token.PlacedIn numbers) :
    expression.toDatum.HasShape declarations numbers (.named .expression) := by
  cases expression with
  | number token value =>
      have own := hasShape_literal (placed token List.mem_cons_self) value
      exact .variant rfl "Number" (.named .literal) (by simp) own
  | string token value =>
      have own := hasShape_literal (placed token List.mem_cons_self) value
      exact .variant rfl "String" (.named .literal) (by simp) own
  | identifier name =>
      have own := Identifier.hasShape (placed name.token List.mem_cons_self)
      exact .variant rfl "Identifier" (.named .identifier) (by simp) own
  | array opening elements =>
      rw [Expression.tokens, List.forall_mem_cons] at placed
      have own := Token.hasShape placed.1
      have inside := HasShape.list (hasShapeAll elements placed.2)
      apply HasShape.variant rfl "Array" (.named .array) (by simp)
      apply hasShape_record rfl rfl
      exact .cons own (.cons inside .nil)
  | call opening function arguments =>
      simp only [Expression.tokens, List.forall_mem_cons] at placed
      obtain ⟨first, called, later⟩ := placed
      have inside := HasShape.list (hasShapeAll arguments later)
      apply HasShape.variant rfl "Call" (.named .call) (by simp)
      apply hasShape_record rfl rfl
      exact .cons (Token.hasShape first)
        (.cons (Token.hasShape called) (.cons inside .nil))
  | function opening name parameters body =>
      simp only [Expression.tokens, List.forall_mem_cons, List.forall_mem_append,
        List.forall_mem_map] at placed
      obtain ⟨first, called, names, later⟩ := placed
      have parameterShapes : HasShape declarations numbers (.list (.named .identifier))
          (.list (parameters.map Identifier.toDatum)) :=
        .list (List.forall_mem_map.mpr fun parameter member =>
          Identifier.hasShape (names parameter member))
      have inside := HasShape.list (hasShapeAll body later)
      apply HasShape.variant rfl "Function" (.named .function) (by simp)
      apply hasShape_record rfl rfl
      exact .cons (Token.hasShape first) (.cons (Token.hasShape called)
        (.cons parameterShapes (.cons inside .nil)))

theorem hasShapeAll (expressions : List Expression)
    (placed : ∀ token ∈ tokensAll expressions, token.PlacedIn numbers) :
    ∀ datum ∈ expressionsToData expressions,
      HasShape declarations numbers (.named .expression) datum := by
  cases expressions with
  | nil => simp [expressionsToData]
  | cons expression rest =>
      rw [tokensAll, List.forall_mem_append] at placed
      rw [expressionsToData, List.forall_mem_cons]
      exact ⟨expression.hasShape placed.1, hasShapeAll rest placed.2⟩

end

theorem Program.hasShape (program : Program)
    (placed : ∀ token ∈ program.tokens, token.PlacedIn numbers) :
    program.toDatum.HasShape declarations numbers (.named .program) := by
  apply hasShape_record rfl rfl
  exact .cons (.list (hasShapeAll program.expressions placed)) .nil

end

/-! ## The height of a program -/

theorem expressionsToData_eq_map (expressions : List Expression) :
    expressionsToData expressions = expressions.map Expression.toDatum := by
  induction expressions with
  | nil => rfl
  | cons expression rest induction => rw [expressionsToData, induction, List.map_cons]

theorem Token.height_toDatum (token : Token) : token.toDatum.height = 1 := rfl

theorem Identifier.height_toDatum (identifier : Identifier) :
    identifier.toDatum.height = 2 := rfl

theorem height_expressionsToData_le_iff {expressions : List Expression} {levels : Nat} :
    heightOfItems (expressionsToData expressions) ≤ levels ↔
      ∀ expression ∈ expressions, expression.toDatum.height ≤ levels := by
  rw [heightOfItems_le_iff, expressionsToData_eq_map, List.forall_mem_map]

namespace Expression

theorem height_le_iff_children {expression : Expression} {levels : Nat} :
    expression.toDatum.height ≤ levels + 5 ↔
      ∀ child ∈ expression.children, child.toDatum.height ≤ levels + 2 := by
  rw [← height_expressionsToData_le_iff]
  cases expression with
  | number token value | string token value =>
      simp only [toDatum, children, expressionsToData, height,
        heightOfFields, heightOfItems, Token.height_toDatum]
      omega
  | identifier name =>
      simp only [toDatum, children, expressionsToData, height, heightOfItems,
        Identifier.height_toDatum]
      omega
  | array opening elements =>
      simp only [toDatum, children, height, heightOfFields, Token.height_toDatum]
      omega
  | call opening function arguments =>
      simp only [toDatum, children, height, heightOfFields, Token.height_toDatum]
      omega
  | function opening name parameters body =>
      have names : heightOfItems (parameters.map Identifier.toDatum) ≤ 2 := by
        rw [heightOfItems_le_iff, List.forall_mem_map]
        exact fun parameter _ => (Identifier.height_toDatum parameter).le
      simp only [toDatum, children, height, heightOfFields, Token.height_toDatum]
      omega

private theorem two_lt_height (expression : Expression) :
    2 < expression.toDatum.height := by
  cases expression <;>
    simp only [toDatum, height, heightOfFields, Token.height_toDatum,
      Identifier.height_toDatum] <;> omega

theorem height_le_iff {levels depth : Nat} {expression : Expression} :
    expression.toDatum.height ≤ 3 * levels + 2 ↔
      ∀ node ∈ expression.nodes depth, node.depth < depth + levels := by
  induction levels generalizing depth expression with
  | zero =>
      have deep := expression.two_lt_height
      rw [nodes_eq_cons, List.forall_mem_cons]
      exact ⟨fun low => absurd low (by omega),
        fun below => absurd below.1 (Nat.lt_irrefl _)⟩
  | succ levels induction =>
      have root : depth < depth + (levels + 1) := by omega
      rw [show 3 * (levels + 1) + 2 = 3 * levels + 5 by omega, height_le_iff_children,
        nodes_eq_cons, List.forall_mem_cons, and_iff_right root, forall_mem_nodesBelow]
      refine forall₂_congr fun child member => ?_
      rw [show depth + (levels + 1) = depth + 1 + levels by omega]
      exact induction

end Expression

/-- There is room for a program if no node of it has more than forty nodes around it. -/
theorem Program.height_le_iff {program : Program} :
    program.toDatum.height ≤ 127 ↔ ∀ node ∈ program.nodes, node.depth ≤ 40 := by
  have brackets : program.toDatum.height ≤ 127 ↔
      heightOfItems (expressionsToData program.expressions) ≤ 3 * 41 + 2 := by
    simp only [toDatum, height, heightOfFields]
    omega
  have within {node : Node} : node.depth ≤ 40 ↔ node.depth < 0 + 41 := by omega
  rw [brackets, height_expressionsToData_le_iff, nodes, forall_mem_nodesBelow]
  simp only [within]
  exact forall₂_congr fun expression _ => Expression.height_le_iff

end LispFront
