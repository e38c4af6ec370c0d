import LispFront.Proofs.Syntax.Grammar

/-! # The nodes and tokens of a tree

The tokens that a tree keeps, each node's own before those of the nodes below it, and
which nodes and tokens are below a node. -/

namespace LispFront

mutual

def Expression.tokens : Expression → List Token
  | .number token _ | .string token _ => [token]
  | .identifier name => [name.token]
  | .array opening elements => opening :: tokensAll elements
  | .call opening function arguments => opening :: function :: tokensAll arguments
  | .function opening name parameters body =>
      opening :: name :: (parameters.map Identifier.token ++ tokensAll body)

def tokensAll : List Expression → List Token
  | [] => []
  | expression :: rest => expression.tokens ++ tokensAll rest

end

def Program.tokens (program : Program) : List Token :=
  tokensAll program.expressions

/-! ## Membership -/

theorem mem_nodesBelow {depth : Nat} {expressions : List Expression} {node : Node} :
    node ∈ nodesBelow depth expressions ↔
      ∃ expression ∈ expressions, node ∈ expression.nodes depth := by
  induction expressions with
  | nil => simp [nodesBelow]
  | cons expression rest induction => simp [nodesBelow, induction]

theorem forall_mem_nodesBelow {Property : Node → Prop} {depth : Nat}
    {expressions : List Expression} :
    (∀ node ∈ nodesBelow depth expressions, Property node) ↔
      ∀ expression ∈ expressions, ∀ node ∈ expression.nodes depth, Property node := by
  simp only [mem_nodesBelow]
  constructor
  · intro all expression member node known
    exact all node ⟨expression, member, known⟩
  · rintro all node ⟨expression, member, known⟩
    exact all expression member node known

theorem mem_tokensAll {expressions : List Expression} {token : Token} :
    token ∈ tokensAll expressions ↔
      ∃ expression ∈ expressions, token ∈ expression.tokens := by
  induction expressions with
  | nil => simp [tokensAll]
  | cons expression rest induction => simp [tokensAll, induction]

namespace Expression

theorem nodes_eq_cons (depth : Nat) (expression : Expression) :
    expression.nodes depth =
      ⟨depth, expression⟩ :: nodesBelow (depth + 1) expression.children := by
  cases expression with
  | number token value => rfl
  | string token value => rfl
  | identifier name => rfl
  | array opening elements => rw [nodes]; rfl
  | call opening function arguments => rw [nodes]; rfl
  | function opening name parameters body => rw [nodes]; rfl

theorem mem_tokens_of_children {expression child : Expression}
    (member : child ∈ expression.children) {token : Token}
    (known : token ∈ child.tokens) :
    token ∈ expression.tokens := by
  have inner := mem_tokensAll.mpr ⟨child, member, known⟩
  cases expression with
  | number token value => cases member
  | string token value => cases member
  | identifier name => cases member
  | array opening elements => exact List.mem_cons_of_mem _ inner
  | call opening function arguments =>
      exact List.mem_cons_of_mem _ (List.mem_cons_of_mem _ inner)
  | function opening name parameters body =>
      exact List.mem_cons_of_mem _
        (List.mem_cons_of_mem _ (List.mem_append_right _ inner))

end Expression

mutual

theorem Expression.forall_nodes {Property : Expression → Prop}
    (inward : ∀ expression, Property expression → ∀ child ∈ expression.children,
      Property child) (depth : Nat)
    (expression : Expression) (root : Property expression) :
    ∀ node ∈ expression.nodes depth, Property node.expression := by
  rw [Expression.nodes_eq_cons]
  refine List.forall_mem_cons.mpr ⟨root, ?_⟩
  have below := inward expression root
  cases expression with
  | number token value => exact nofun
  | string token value => exact nofun
  | identifier name => exact nofun
  | array opening elements => exact forall_nodesBelow inward (depth + 1) elements below
  | call opening function arguments =>
      exact forall_nodesBelow inward (depth + 1) arguments below
  | function opening name parameters body =>
      exact forall_nodesBelow inward (depth + 1) body below

theorem forall_nodesBelow {Property : Expression → Prop}
    (inward : ∀ expression, Property expression → ∀ child ∈ expression.children,
      Property child) (depth : Nat)
    (expressions : List Expression)
    (roots : ∀ expression ∈ expressions, Property expression) :
    ∀ node ∈ nodesBelow depth expressions, Property node.expression := by
  cases expressions with
  | nil => exact nofun
  | cons expression rest =>
      rcases List.forall_mem_cons.mp roots with ⟨first, later⟩
      exact List.forall_mem_append.mpr
        ⟨expression.forall_nodes inward depth first,
          forall_nodesBelow inward depth rest later⟩

end

/-! ## Trees of given words -/

namespace Expression

/-- A tree of the language that keeps none but some of `words`. -/
structure MadeOf (words : List Token) (expression : Expression) : Prop where
  valid : expression.Valid
  tokens : ∀ token ∈ expression.tokens, token ∈ words

theorem MadeOf.children {words : List Token} {expression : Expression}
    (made : expression.MadeOf words) :
    ∀ child ∈ expression.children, child.MadeOf words := fun child member =>
  ⟨made.valid.children child member,
    fun _ known => made.tokens _ (mem_tokens_of_children member known)⟩

end Expression

/-! ## Tokens in the written form -/

namespace Mark

def token? : Mark → Option Token
  | kept token => some token
  | symbol .. => none

@[simp] theorem filterMap_token?_kept (token : Token) (marks : List Mark) :
    (kept token :: marks).filterMap token? = token :: marks.filterMap token? := rfl

@[simp] theorem filterMap_token?_symbol (kind : TokenKind) (text : String)
    (marks : List Mark) :
    (symbol kind text :: marks).filterMap token? = marks.filterMap token? := rfl

theorem sublist_of_fits {marks : List Mark} {words : List Token}
    (fits : List.Forall₂ Fits marks words) : (marks.filterMap token?).Sublist words := by
  induction fits with
  | nil => exact .slnil
  | @cons mark word marks words first rest induction =>
      cases mark with
      | kept token =>
          rw [show token = word from first]
          exact induction.cons_cons word
      | symbol kind text => exact induction.cons word

private theorem filterMap_token?_parameters (parameters : List Identifier) :
    (parameters.map Identifier.mark).filterMap token? =
      parameters.map Identifier.token := by
  rw [List.filterMap_map, ← List.filterMap_eq_map]
  rfl

end Mark

mutual

theorem Expression.filterMap_token?_marks (expression : Expression) :
    expression.marks.filterMap Mark.token? = expression.tokens := by
  cases expression with
  | number token value => rfl
  | string token value => rfl
  | identifier name => rfl
  | array opening elements =>
      have inner := filterMap_token?_marksAll elements
      simp [Expression.marks, Expression.tokens, inner, Mark.rightSquare]
  | call opening function arguments =>
      have inner := filterMap_token?_marksAll arguments
      simp [Expression.marks, Expression.tokens, inner, Mark.rightRound]
  | function opening name parameters body =>
      have inner := filterMap_token?_marksAll body
      have names := Mark.filterMap_token?_parameters parameters
      simp [Expression.marks, Expression.tokens, inner, names, Mark.keyword,
        Mark.leftSquare, Mark.rightSquare, Mark.rightRound]

theorem filterMap_token?_marksAll (expressions : List Expression) :
    (marksAll expressions).filterMap Mark.token? = tokensAll expressions := by
  cases expressions with
  | nil => rfl
  | cons expression rest =>
      rw [marksAll, tokensAll, List.filterMap_append, expression.filterMap_token?_marks,
        filterMap_token?_marksAll rest]

end

theorem Program.WrittenAs.sublist_tokens {program : Program} {words : List Token}
    (written : program.WrittenAs words) : program.tokens.Sublist words := by
  rw [Program.tokens, ← filterMap_token?_marksAll]
  exact Mark.sublist_of_fits written

end LispFront
