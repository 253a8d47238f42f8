import Mathlib.Computability.RegularExpressions
import JackToVm.Proofs.Trace

/-!
# Forests and the grammar

A forest is a row of trees; a tree is a terminal, or a node over a forest. The grammar says of each
node which rows of children it has, by a regular expression over nodes and kinds of terminals.
Types, blocks and calls are no nodes: their parts stand in the row of the node that they belong to.

A forest is a derivation if every node of it has a row of children that its rule has
(`Forest.Derived`).
-/

namespace JackToVm

/-! ## Forests -/

/-- A row of trees. -/
inductive Forest
  | nil
  | leaf (terminal : Terminal) (rest : Forest)
  | node (node : Node) (inner rest : Forest)
deriving DecidableEq, Repr

namespace Forest

def append : Forest → Forest → Forest
  | nil, g => g
  | leaf t rest, g => leaf t (append rest g)
  | node n inner rest, g => node n inner (append rest g)

instance : Append Forest := ⟨append⟩

/-- The terminals of a forest, from left to right. -/
def leaves : Forest → List Terminal
  | nil => []
  | leaf t rest => t :: rest.leaves
  | node _ inner rest => inner.leaves ++ rest.leaves

/-- The events of reading a forest from left to right. -/
def events : Forest → List Event
  | nil => []
  | leaf t rest => .consumed t :: rest.events
  | node n inner rest => nodeEvents n inner.events ++ rest.events

@[simp]
theorem nil_append (g : Forest) : nil ++ g = g := rfl

@[simp]
theorem leaf_append (t : Terminal) (f g : Forest) : leaf t f ++ g = leaf t (f ++ g) := rfl

@[simp]
theorem node_append (n : Node) (inner f g : Forest) :
    node n inner f ++ g = node n inner (f ++ g) := rfl

@[simp]
theorem events_append (f g : Forest) : (f ++ g).events = f.events ++ g.events := by
  induction f with
  | nil => rfl
  | leaf t rest ih => simp [events, ih]
  | node n inner rest _ ih => simp [events, ih]

@[simp]
theorem leaves_append (f g : Forest) : (f ++ g).leaves = f.leaves ++ g.leaves := by
  induction f with
  | nil => rfl
  | leaf t rest ih => simp [leaves, ih]
  | node n inner rest _ ih => simp [leaves, ih]

end Forest

/-! ## The grammar -/

/-- What a rule says of a child: its node, or the kind of terminal that it is. -/
inductive Child
  | node (node : Node)
  | keyword (word : Keyword)
  | symbol (symbol : Symbol)
  | identifier
  | integer
  | string
deriving DecidableEq, Repr

def Terminal.child : Terminal → Child
  | keyword word => .keyword word
  | symbol s => .symbol s
  | identifier _ => .identifier
  | integer _ => .integer
  | string _ => .string

namespace Grammar

/-- The rows of children that a part of the grammar has. -/
abbrev Rule := RegularExpression Child

abbrev word (w : Keyword) : Rule := .char (.keyword w)

abbrev symbol (s : Symbol) : Rule := .char (.symbol s)

abbrev name : Rule := .char .identifier

abbrev integer : Rule := .char .integer

abbrev text : Rule := .char .string

abbrev node (n : Node) : Rule := .char (.node n)

/-- One rule after the other. -/
def series (rules : List Rule) : Rule :=
  rules.foldr (· * ·) 1

/-- One of some rules. -/
def choice (rules : List Rule) : Rule :=
  rules.foldr (· + ·) 0

/-- A rule or nothing. -/
def optional (rules : List Rule) : Rule :=
  choice [1, series rules]

/-- A rule any number of times. -/
def many (rules : List Rule) : Rule :=
  (series rules).star

/-! Parts that are no nodes. -/

def type : Rule :=
  choice [word .kwInt, word .kwChar, word .kwBoolean, name]

/-- `'void' | type` -/
def result : Rule :=
  choice [word .kwVoid, type]

def subroutineWord : Rule :=
  choice [word .kwConstructor, word .kwFunction, word .kwMethod]

/-- `type name (',' name)*` -/
def names : List Rule :=
  [type, name, many [symbol .comma, name]]

/-- `'(' expression ')'` -/
def condition : List Rule :=
  [symbol .leftParen, node .expression, symbol .rightParen]

/-- `'{' statements '}'` -/
def block : List Rule :=
  [symbol .leftBrace, node .statements, symbol .rightBrace]

/-- `'(' expressionList ')'` -/
def arguments : List Rule :=
  [symbol .leftParen, node .expressionList, symbol .rightParen]

/-- `name '(' expressionList ')' | name '.' name '(' expressionList ')'` -/
def call : Rule :=
  choice [series (name :: arguments), series ([name, symbol .dot, name] ++ arguments)]

def operator : Rule :=
  choice (([.plus, .minus, .star, .slash, .ampersand, .bar, .less, .greater, .equals] :
    List Symbol).map symbol)

def statementNodes : List Node :=
  [.letStatement, .ifStatement, .whileStatement, .doStatement, .returnStatement]

def statement : Rule :=
  choice (statementNodes.map node)

/-- The children of a node. -/
def rule : Node → Rule
  | .classDec =>
    series [word .kwClass, name, symbol .leftBrace, many [node .classVarDec],
      many [node .subroutineDec], symbol .rightBrace]
  | .classVarDec =>
    series ([choice [word .kwStatic, word .kwField]] ++ names ++ [symbol .semicolon])
  | .subroutineDec =>
    series [subroutineWord, result, name, symbol .leftParen, node .parameterList,
      symbol .rightParen, node .subroutineBody]
  | .parameterList => optional [type, name, many [symbol .comma, type, name]]
  | .subroutineBody =>
    series [symbol .leftBrace, many [node .varDec], node .statements, symbol .rightBrace]
  | .varDec => series ([word .kwVar] ++ names ++ [symbol .semicolon])
  | .statements => many [statement]
  | .letStatement =>
    series [word .kwLet, name,
      optional [symbol .leftBracket, node .expression, symbol .rightBracket], symbol .equals,
      node .expression, symbol .semicolon]
  | .ifStatement =>
    series ([word .kwIf] ++ condition ++ block ++ [optional (word .kwElse :: block)])
  | .whileStatement => series ([word .kwWhile] ++ condition ++ block)
  | .doStatement => series [word .kwDo, call, symbol .semicolon]
  | .returnStatement =>
    series [word .kwReturn, optional [node .expression], symbol .semicolon]
  | .expression => series [node .term, many [operator, node .term]]
  | .term =>
    choice [integer, text, word .kwTrue, word .kwFalse, word .kwNull, word .kwThis, name,
      series [name, symbol .leftBracket, node .expression, symbol .rightBracket], call,
      series condition, series [choice [symbol .minus, symbol .tilde], node .term]]
  | .expressionList => optional [node .expression, many [symbol .comma, node .expression]]

end Grammar

namespace Forest

/-- The children that stand in a row. -/
def row : Forest → List Child
  | nil => []
  | leaf t rest => t.child :: rest.row
  | node n _ rest => .node n :: rest.row

/-- Every node has the children that its rule says. -/
def Derived : Forest → Prop
  | nil => True
  | leaf _ rest => rest.Derived
  | node n inner rest => inner.row ∈ (Grammar.rule n).matches' ∧ inner.Derived ∧ rest.Derived

/-- The forest stands below a node as the grammar says. -/
def Below (n : Node) (f : Forest) : Prop :=
  f.row ∈ (Grammar.rule n).matches' ∧ f.Derived

@[simp]
theorem derived_nil : nil.Derived := trivial

@[simp]
theorem derived_leaf {t : Terminal} {rest : Forest} : (leaf t rest).Derived ↔ rest.Derived :=
  Iff.rfl

@[simp]
theorem derived_node {n : Node} {inner rest : Forest} :
    (node n inner rest).Derived ↔ inner.Below n ∧ rest.Derived :=
  and_assoc.symm

@[simp]
theorem row_append (f g : Forest) : (f ++ g).row = f.row ++ g.row := by
  induction f with
  | nil => rfl
  | leaf t rest ih => simp [row, ih]
  | node n inner rest _ ih => simp [row, ih]

@[simp]
theorem derived_append {f g : Forest} : (f ++ g).Derived ↔ f.Derived ∧ g.Derived := by
  induction f with
  | nil => simp
  | leaf t rest ih => simp [ih]
  | node n inner rest _ ih => simp [ih, and_assoc]

end Forest

/-! ## Rows of rules -/

namespace Grammar

variable {r : Rule} {rules more : List Rule} {c : Child} {row rest : List Child}

@[simp]
theorem mem_singleton : row ∈ ({rest} : Language Child) ↔ row = rest := Iff.rfl

@[simp]
theorem mem_series_nil : row ∈ (series []).matches' ↔ row = [] := Iff.rfl

@[simp]
theorem mem_series_char : row ∈ (series (.char c :: rules)).matches' ↔
    ∃ rest ∈ (series rules).matches', row = c :: rest := by
  constructor
  · rintro ⟨first, rfl, rest, others, rfl⟩
    exact ⟨rest, others, rfl⟩
  · rintro ⟨rest, others, rfl⟩
    exact ⟨[c], rfl, rest, others, rfl⟩

theorem append_mem_series (first : row ∈ r.matches') (others : rest ∈ (series rules).matches') :
    row ++ rest ∈ (series (r :: rules)).matches' :=
  ⟨row, first, rest, others, rfl⟩

theorem matches'_series_append (rules more : List Rule) :
    (series (rules ++ more)).matches' = (series rules).matches' * (series more).matches' := by
  induction rules with
  | nil => exact (one_mul _).symm
  | cons r rules ih =>
    have behind (rules : List Rule) :
        (series (r :: rules)).matches' = r.matches' * (series rules).matches' := rfl
    rw [List.cons_append, behind, behind, ih, mul_assoc]

theorem mem_series_singleton (mem : row ∈ r.matches') : row ∈ (series [r]).matches' := by
  have alone := append_mem_series mem (mem_series_nil.2 rfl)
  rwa [List.append_nil] at alone

theorem append_mem_series_append (first : row ∈ (series rules).matches')
    (others : rest ∈ (series more).matches') :
    row ++ rest ∈ (series (rules ++ more)).matches' := by
  rw [matches'_series_append]
  exact Language.append_mem_mul first others

@[simp]
theorem mem_choice : row ∈ (choice rules).matches' ↔ ∃ r ∈ rules, row ∈ r.matches' := by
  induction rules with
  | nil => simp [choice]
  | cons r rules ih =>
    rw [choice, List.foldr_cons, RegularExpression.matches'_add, Language.mem_add, ← choice, ih]
    simp

@[simp]
theorem mem_optional :
    row ∈ (optional rules).matches' ↔ row = [] ∨ row ∈ (series rules).matches' := by
  simp [optional, Language.mem_one]

@[simp]
theorem mem_series_optional : row ∈ (series (optional rules :: more)).matches' ↔
    row ∈ (series more).matches' ∨ row ∈ (series (rules ++ more)).matches' := by
  have behind : (series (optional rules :: more)).matches' =
      (optional rules).matches' * (series more).matches' := rfl
  have both : (optional rules).matches' = 1 + (series rules).matches' := by
    simp [optional, choice]
  rw [behind, both, add_mul, one_mul, Language.mem_add, matches'_series_append]

theorem nil_mem_many (rules : List Rule) : [] ∈ (many rules).matches' :=
  Language.nil_mem_kstar _

theorem append_mem_many (first : row ∈ (series rules).matches')
    (others : rest ∈ (many rules).matches') : row ++ rest ∈ (many rules).matches' := by
  rw [many, RegularExpression.matches'_star, Language.mem_kstar] at others ⊢
  obtain ⟨rows, rfl, all⟩ := others
  refine ⟨row :: rows, rfl, fun a mem => ?_⟩
  cases mem with
  | head => exact first
  | tail _ mem => exact all a mem

end Grammar

end JackToVm
