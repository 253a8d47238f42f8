import JackToVm.Proofs.ParseTree
import JackToVm.Proofs.Unambiguity

/-!
# Derivations are parse trees of classes

A rule of the grammar is read off the row of a forest from left to right: each child in the rule is
a tree at the front of the forest (`Forest.row_mem_series_word` and its kin), and a part that
stands any number of times is a list of forests (`Forest.exists_parts`).

Results.
1. A forest that stands where an expression, a statement or any other part stands is that of such a
   part, by induction on its size (`Forest.parsed`).
2. So every derivation of a class is the parse tree of a class (`Forest.exists_classDec`), and its
   terminals determine it (`Forest.derivation_unique`).
-/

namespace JackToVm

open Grammar

/-! ## Reading rows -/

namespace Grammar

variable {rules more : List Rule} {row : List Child}

@[simp]
theorem mem_series_choice : row ∈ (series (choice rules :: more)).matches' ↔
    ∃ r ∈ rules, row ∈ (series (r :: more)).matches' := by
  constructor
  · rintro ⟨first, chosen, rest, others, rfl⟩
    obtain ⟨r, mem, here⟩ := mem_choice.1 chosen
    exact ⟨r, mem, append_mem_series here others⟩
  · rintro ⟨r, mem, first, here, rest, others, rfl⟩
    exact append_mem_series (mem_choice.2 ⟨r, mem, here⟩) others

@[simp]
theorem mem_series_series : row ∈ (series (series rules :: more)).matches' ↔
    row ∈ (series (rules ++ more)).matches' := by
  rw [matches'_series_append]
  exact Iff.rfl

theorem mem_series_singleton_iff {r : Rule} :
    row ∈ (series [r]).matches' ↔ row ∈ r.matches' := by
  have alone : (series [r]).matches' = r.matches' := mul_one _
  rw [alone]

theorem mem_many_iff : row ∈ (many rules).matches' ↔
    row = [] ∨ row ∈ (series (rules ++ [many rules])).matches' := by
  have alone : (series [many rules]).matches' = (many rules).matches' := mul_one _
  rw [matches'_series_append, alone, many, RegularExpression.matches'_star]
  nth_rewrite 1 [← Language.one_add_self_mul_kstar_eq_kstar]
  rw [Language.mem_add, Language.mem_one]

theorem mem_series_many : row ∈ (series (many rules :: more)).matches' ↔
    ∃ rows : List (List Child), (∀ a ∈ rows, a ∈ (series rules).matches') ∧
      ∃ rest ∈ (series more).matches', row = rows.flatten ++ rest := by
  constructor
  · rintro ⟨first, here, rest, others, rfl⟩
    rw [many, RegularExpression.matches'_star] at here
    obtain ⟨rows, rfl, all⟩ := Language.mem_kstar.1 here
    exact ⟨rows, all, rest, others, rfl⟩
  · rintro ⟨rows, all, rest, others, rfl⟩
    refine append_mem_series ?_ others
    rw [many, RegularExpression.matches'_star]
    exact Language.mem_kstar.2 ⟨rows, rfl, all⟩

end Grammar

namespace Terminal

variable {t : Terminal}

@[simp]
theorem child_ne_node (n : Node) : t.child ≠ .node n := by
  cases t <;> simp [child]

@[simp]
theorem child_eq_keyword {w : Keyword} : t.child = .keyword w ↔ t = .keyword w := by
  cases t <;> simp [child]

@[simp]
theorem child_eq_symbol {s : Symbol} : t.child = .symbol s ↔ t = .symbol s := by
  cases t <;> simp [child]

@[simp]
theorem child_eq_identifier : t.child = .identifier ↔ ∃ x, t = .identifier x := by
  cases t <;> simp [child]

@[simp]
theorem child_eq_integer : t.child = .integer ↔ ∃ n, t = .integer n := by
  cases t <;> simp [child]

@[simp]
theorem child_eq_string : t.child = .string ↔ ∃ s, t = .string s := by
  cases t <;> simp [child]

end Terminal

namespace Forest

variable {f : Forest} {r : List Child}

@[simp]
theorem row_eq_nil : f.row = [] ↔ f = nil := by
  cases f <;> simp [row]

section

variable {rules : List Rule}

/-- A row that starts with a terminal is that of a forest that starts with it. -/
theorem row_mem_series_terminal {c : Child} (terminal : ∀ n, c ≠ .node n) :
    f.row ∈ (series (.char c :: rules)).matches' ↔
      ∃ t, t.child = c ∧ ∃ rest, f = leaf t rest ∧ rest.row ∈ (series rules).matches' := by
  cases f with
  | nil => simp [row]
  | leaf t rest => simp [row, and_comm]
  | node n inner rest =>
    have apart : Child.node n ≠ c := (terminal n).symm
    simp [row, apart]

@[simp high]
theorem row_mem_series_word {w : Keyword} :
    f.row ∈ (series (word w :: rules)).matches' ↔
      ∃ rest, f = leaf (.keyword w) rest ∧ rest.row ∈ (series rules).matches' := by
  rw [row_mem_series_terminal (by simp)]
  simp

@[simp high]
theorem row_mem_series_symbol {s : Symbol} :
    f.row ∈ (series (symbol s :: rules)).matches' ↔
      ∃ rest, f = leaf (.symbol s) rest ∧ rest.row ∈ (series rules).matches' := by
  rw [row_mem_series_terminal (by simp)]
  simp

@[simp high]
theorem row_mem_series_name :
    f.row ∈ (series (name :: rules)).matches' ↔
      ∃ x rest, f = leaf (.identifier x) rest ∧ rest.row ∈ (series rules).matches' := by
  rw [row_mem_series_terminal (by simp)]
  simp

@[simp high]
theorem row_mem_series_integer :
    f.row ∈ (series (integer :: rules)).matches' ↔
      ∃ n rest, f = leaf (.integer n) rest ∧ rest.row ∈ (series rules).matches' := by
  rw [row_mem_series_terminal (by simp)]
  simp

@[simp high]
theorem row_mem_series_text :
    f.row ∈ (series (text :: rules)).matches' ↔
      ∃ s rest, f = leaf (.string s) rest ∧ rest.row ∈ (series rules).matches' := by
  rw [row_mem_series_terminal (by simp)]
  simp

@[simp high]
theorem row_mem_series_node {n : Node} :
    f.row ∈ (series (Grammar.node n :: rules)).matches' ↔
      ∃ inner rest, f = node n inner rest ∧ rest.row ∈ (series rules).matches' := by
  cases f with
  | nil => simp [row]
  | leaf t rest => simp [row]
  | node m inner rest => simp [row, and_comm]

@[simp high]
theorem row_mem_series_statement :
    f.row ∈ (series (statement :: rules)).matches' ↔
      ∃ n ∈ statementNodes, ∃ inner rest, f = node n inner rest ∧
        rest.row ∈ (series rules).matches' := by
  simp [statement]

@[simp high]
theorem row_mem_series_type :
    f.row ∈ (series (type :: rules)).matches' ↔
      ∃ (t : TypeName) (rest : Forest), f = leaf t.terminal rest ∧
        rest.row ∈ (series rules).matches' := by
  constructor
  · intro mem
    simp only [type, mem_series_choice, List.mem_cons, List.not_mem_nil, or_false,
      exists_eq_or_imp, exists_eq_left, row_mem_series_word, row_mem_series_name] at mem
    rcases mem with mem | mem | mem | ⟨x, mem⟩
    exacts [⟨.int, mem⟩, ⟨.char, mem⟩, ⟨.boolean, mem⟩, ⟨.named x, mem⟩]
  · rintro ⟨t, rest, rfl, more⟩
    exact append_mem_series t.mem_type more

@[simp high]
theorem row_mem_series_result :
    f.row ∈ (series (result :: rules)).matches' ↔
      ∃ (t : Option TypeName) (rest : Forest), f = leaf (TypeName.resultTerminal t) rest ∧
        rest.row ∈ (series rules).matches' := by
  constructor
  · intro mem
    simp only [result, mem_series_choice, List.mem_cons, List.not_mem_nil, or_false,
      exists_eq_or_imp, exists_eq_left, row_mem_series_word, row_mem_series_type] at mem
    rcases mem with mem | ⟨t, mem⟩
    exacts [⟨none, mem⟩, ⟨some t, mem⟩]
  · rintro ⟨t, rest, rfl, more⟩
    exact append_mem_series (TypeName.mem_result t) more

@[simp high]
theorem row_mem_series_subroutineWord :
    f.row ∈ (series (subroutineWord :: rules)).matches' ↔
      ∃ (kind : SubroutineKind) (rest : Forest), f = leaf (.keyword kind.keyword) rest ∧
        rest.row ∈ (series rules).matches' := by
  constructor
  · intro mem
    simp only [subroutineWord, mem_series_choice, List.mem_cons, List.not_mem_nil, or_false,
      exists_eq_or_imp, exists_eq_left, row_mem_series_word] at mem
    rcases mem with mem | mem | mem
    exacts [⟨.constructor, mem⟩, ⟨.function, mem⟩, ⟨.method, mem⟩]
  · rintro ⟨kind, rest, rfl, more⟩
    exact append_mem_series kind.mem_subroutineWord more

@[simp high]
theorem row_mem_series_operator :
    f.row ∈ (series (operator :: rules)).matches' ↔
      ∃ (o : BinaryOperator) (rest : Forest), f = leaf (.symbol o.symbol) rest ∧
        rest.row ∈ (series rules).matches' := by
  constructor
  · intro mem
    simp only [operator, mem_series_choice, List.map_cons, List.map_nil, List.mem_cons,
      List.not_mem_nil, or_false, exists_eq_or_imp, exists_eq_left,
      row_mem_series_symbol] at mem
    rcases mem with mem | mem | mem | mem | mem | mem | mem | mem | mem
    exacts [⟨.plus, mem⟩, ⟨.minus, mem⟩, ⟨.times, mem⟩, ⟨.divide, mem⟩, ⟨.and, mem⟩, ⟨.or, mem⟩,
      ⟨.less, mem⟩, ⟨.greater, mem⟩, ⟨.equals, mem⟩]
  · rintro ⟨o, rest, rfl, more⟩
    exact append_mem_series o.mem_operator more

end

@[simp]
theorem append_nil (f : Forest) : f ++ nil = f := by
  induction f with
  | nil => rfl
  | leaf t rest ih => simp [ih]
  | node n inner rest _ ih => simp [ih]

/-- A row in two parts is that of two forests. -/
theorem exists_append {a b : List Child} (row : f.row = a ++ b) :
    ∃ g h : Forest, f = g ++ h ∧ g.row = a ∧ h.row = b := by
  induction a generalizing f with
  | nil => exact ⟨nil, f, rfl, rfl, row⟩
  | cons c a ih =>
    cases f with
    | nil => cases row
    | leaf t rest =>
      obtain ⟨rfl, behind⟩ := List.cons.inj row
      obtain ⟨g, h, rfl, rfl, rfl⟩ := ih behind
      exact ⟨leaf t g, h, rfl, rfl, rfl⟩
    | node n inner rest =>
      obtain ⟨rfl, behind⟩ := List.cons.inj row
      obtain ⟨g, h, rfl, rfl, rfl⟩ := ih behind
      exact ⟨node n inner g, h, rfl, rfl, rfl⟩

/-- A part that stands any number of times. -/
theorem exists_parts {rules more : List Rule}
    (mem : f.row ∈ (series (many rules :: more)).matches') (derived : f.Derived) :
    ∃ (gs : List Forest) (rest : Forest), f = gs.foldr (· ++ ·) rest ∧
      (∀ g ∈ gs, g.row ∈ (series rules).matches' ∧ g.Derived) ∧
        rest.row ∈ (series more).matches' ∧ rest.Derived := by
  obtain ⟨rows, all, last, others, row⟩ := mem_series_many.1 mem
  clear mem
  induction rows generalizing f with
  | nil =>
    obtain rfl : f.row = last := row
    exact ⟨[], f, rfl, nofun, others, derived⟩
  | cons a rows ih =>
    rw [List.flatten_cons, List.append_assoc] at row
    obtain ⟨g, h, rfl, rfl, behind⟩ := exists_append row
    rw [derived_append] at derived
    obtain ⟨first, all⟩ := List.forall_mem_cons.1 all
    obtain ⟨gs, rest, rfl, each, others⟩ := ih derived.2 all behind
    exact ⟨g :: gs, rest, rfl, List.forall_mem_cons.2 ⟨⟨first, derived.1⟩, each⟩, others⟩

/-- Where a forest stands as the grammar says, it is that of a part of a class. -/
structure Parsed (f : Forest) : Prop where
  expression : f.Below .expression → ∃ e : Expression, e.forest = f
  operations : f.row ∈ (many [operator, Grammar.node .term]).matches' → f.Derived →
    ∃ ops : Operations, ops.forest = f
  term : f.Below .term → ∃ t : Term, t.forest = f
  arguments : f.Below .expressionList → ∃ as : Arguments, as.forest = f
  moreArguments : f.row ∈ (many [symbol .comma, Grammar.node .expression]).matches' →
    f.Derived → ∃ as : Arguments, as.moreForest = f
  statement : ∀ n ∈ statementNodes, f.Below n → ∃ s : Statement, s.node = n ∧ s.forest = f
  statements : f.Below .statements → ∃ ss : Statements, ss.forest = f

/-- All smaller forests are parsed. -/
def SmallerParsed (f : Forest) : Prop :=
  ∀ g : Forest, sizeOf g < sizeOf f → g.Parsed

namespace SmallerParsed

variable {t : Terminal} {n : Node} {g h : Forest}

theorem of_le (smaller : f.SmallerParsed) (le : sizeOf g ≤ sizeOf f) : g.SmallerParsed :=
  fun h lt => smaller h (Nat.lt_of_lt_of_le lt le)

theorem leaf (smaller : SmallerParsed (.leaf t g)) : g.SmallerParsed :=
  smaller.of_le (by rw [leaf.sizeOf_spec]; omega)

theorem rest (smaller : SmallerParsed (.node n g h)) : h.SmallerParsed :=
  smaller.of_le (by rw [node.sizeOf_spec]; omega)

theorem inner (smaller : SmallerParsed (.node n g h)) : g.Parsed :=
  smaller g (by rw [node.sizeOf_spec]; omega)

theorem behind (smaller : SmallerParsed (.node n g h)) : h.Parsed :=
  smaller h (by rw [node.sizeOf_spec]; omega)

end SmallerParsed

section

variable (smaller : f.SmallerParsed)
include smaller

theorem exists_expression (below : f.Below .expression) : ∃ e : Expression, e.forest = f := by
  obtain ⟨row, derived⟩ := below
  obtain ⟨inner, rest, rfl, more⟩ : ∃ inner rest, f = node .term inner rest ∧
      rest.row ∈ (many [operator, Grammar.node .term]).matches' := by
    simpa [rule, mem_series_singleton_iff] using row
  rw [derived_node] at derived
  obtain ⟨t, rfl⟩ := smaller.inner.term derived.1
  obtain ⟨ops, rfl⟩ := smaller.behind.operations more derived.2
  exact ⟨.of t ops, rfl⟩

theorem exists_operations (row : f.row ∈ (many [operator, Grammar.node .term]).matches')
    (derived : f.Derived) : ∃ ops : Operations, ops.forest = f := by
  rcases mem_many_iff.1 row with none | some
  · exact ⟨.nil, (row_eq_nil.1 none).symm⟩
  · obtain ⟨o, inner, rest, rfl, more⟩ : ∃ (o : BinaryOperator) (inner rest : Forest),
        f = leaf (.symbol o.symbol) (node .term inner rest) ∧
          rest.row ∈ (many [operator, Grammar.node .term]).matches' := by
      simpa [mem_series_singleton_iff] using some
    rw [derived_leaf, derived_node] at derived
    obtain ⟨t, rfl⟩ := smaller.leaf.inner.term derived.1
    obtain ⟨ops, rfl⟩ := smaller.leaf.behind.operations more derived.2
    exact ⟨.cons o t ops, rfl⟩

theorem exists_term (below : f.Below .term) : ∃ t : Term, t.forest = f := by
  obtain ⟨row, derived⟩ := below
  rw [← mem_series_singleton_iff] at row
  simp only [rule, call, arguments, condition, List.cons_append, List.nil_append,
    mem_series_choice, mem_series_series, List.mem_cons, List.not_mem_nil, or_false,
    exists_eq_or_imp, row_mem_series_integer, row_mem_series_text, row_mem_series_word,
    row_mem_series_name, row_mem_series_symbol, row_mem_series_node, mem_series_nil,
    row_eq_nil, exists_eq_right, ↓existsAndEq, and_true, true_and] at row
  rcases row with ⟨n, rfl⟩ | ⟨s, rfl⟩ | rfl | rfl | rfl | rfl | ⟨x, rfl⟩ | ⟨x, inner, rfl⟩ |
    (⟨m, inner, rfl⟩ | ⟨x, m, inner, rfl⟩) | ⟨inner, rfl⟩ | ⟨inner, rfl⟩ | ⟨inner, rfl⟩
  · exact ⟨.integer n, rfl⟩
  · exact ⟨.text s, rfl⟩
  · exact ⟨.word .trueWord, rfl⟩
  · exact ⟨.word .falseWord, rfl⟩
  · exact ⟨.word .nullWord, rfl⟩
  · exact ⟨.word .thisWord, rfl⟩
  · exact ⟨.var x, rfl⟩
  · obtain ⟨e, rfl⟩ := smaller.leaf.leaf.inner.expression (by simpa using derived)
    exact ⟨.element x e, rfl⟩
  · obtain ⟨as, rfl⟩ := smaller.leaf.leaf.inner.arguments (by simpa using derived)
    exact ⟨.call (.own m as), rfl⟩
  · obtain ⟨as, rfl⟩ := smaller.leaf.leaf.leaf.leaf.inner.arguments (by simpa using derived)
    exact ⟨.call (.dotted x m as), rfl⟩
  · obtain ⟨e, rfl⟩ := smaller.leaf.inner.expression (by simpa using derived)
    exact ⟨.group e, rfl⟩
  · obtain ⟨t, rfl⟩ := smaller.leaf.inner.term (by simpa using derived)
    exact ⟨.unary .negate t, rfl⟩
  · obtain ⟨t, rfl⟩ := smaller.leaf.inner.term (by simpa using derived)
    exact ⟨.unary .complement t, rfl⟩

theorem exists_moreArguments
    (row : f.row ∈ (many [symbol .comma, Grammar.node .expression]).matches')
    (derived : f.Derived) : ∃ as : Arguments, as.moreForest = f := by
  rcases mem_many_iff.1 row with none | some
  · exact ⟨.nil, (row_eq_nil.1 none).symm⟩
  · obtain ⟨inner, rest, rfl, more⟩ : ∃ inner rest,
        f = leaf (.symbol .comma) (node .expression inner rest) ∧
          rest.row ∈ (many [symbol .comma, Grammar.node .expression]).matches' := by
      simpa [mem_series_singleton_iff] using some
    rw [derived_leaf, derived_node] at derived
    obtain ⟨e, rfl⟩ := smaller.leaf.inner.expression derived.1
    obtain ⟨as, rfl⟩ := smaller.leaf.behind.moreArguments more derived.2
    exact ⟨.cons e as, rfl⟩

theorem exists_arguments (below : f.Below .expressionList) : ∃ as : Arguments, as.forest = f := by
  obtain ⟨row, derived⟩ := below
  rcases mem_optional.1 row with none | some
  · exact ⟨.nil, (row_eq_nil.1 none).symm⟩
  · obtain ⟨inner, rest, rfl, more⟩ : ∃ inner rest, f = node .expression inner rest ∧
        rest.row ∈ (many [symbol .comma, Grammar.node .expression]).matches' := by
      simpa [mem_series_singleton_iff] using some
    rw [derived_node] at derived
    obtain ⟨e, rfl⟩ := smaller.inner.expression derived.1
    obtain ⟨as, rfl⟩ := smaller.behind.moreArguments more derived.2
    exact ⟨.cons e as, rfl⟩

theorem exists_let (below : f.Below .letStatement) :
    ∃ s : Statement, s.node = .letStatement ∧ s.forest = f := by
  obtain ⟨row, derived⟩ := below
  obtain ⟨x, rest, rfl, assigned⟩ : ∃ x rest,
      f = leaf (.keyword .kwLet) (leaf (.identifier x) rest) ∧
        ((∃ inner, rest = leaf (.symbol .equals)
          (node .expression inner (leaf (.symbol .semicolon) nil))) ∨
        ∃ index inner, rest = leaf (.symbol .leftBracket) (node .expression index
          (leaf (.symbol .rightBracket) (leaf (.symbol .equals)
            (node .expression inner (leaf (.symbol .semicolon) nil)))))) := by
    simpa [rule] using row
  rcases assigned with ⟨inner, rfl⟩ | ⟨index, inner, rfl⟩
  · obtain ⟨e, rfl⟩ := smaller.leaf.leaf.leaf.inner.expression (by simpa using derived)
    exact ⟨.letVariable x e, rfl, rfl⟩
  · obtain ⟨first, second⟩ : index.Below .expression ∧ inner.Below .expression := by
      simpa using derived
    obtain ⟨i, rfl⟩ := smaller.leaf.leaf.leaf.inner.expression first
    obtain ⟨e, rfl⟩ := smaller.leaf.leaf.leaf.rest.leaf.leaf.inner.expression second
    exact ⟨.letElement x i e, rfl, rfl⟩

/-- `'(' expression ')' '{' statements '}'` -/
theorem exists_guarded {more : List Rule}
    (row : f.row ∈ (series (condition ++ block ++ more)).matches') (derived : f.Derived) :
    ∃ (e : Expression) (ss : Statements) (rest : Forest),
      f = conditionForest e.forest ++ (blockForest ss.forest ++ rest) ∧
        rest.row ∈ (series more).matches' ∧ rest.Derived ∧ rest.SmallerParsed := by
  obtain ⟨inner, body, rest, rfl, others⟩ : ∃ inner body rest,
      f = leaf (.symbol .leftParen) (node .expression inner (leaf (.symbol .rightParen)
        (leaf (.symbol .leftBrace) (node .statements body
          (leaf (.symbol .rightBrace) rest))))) ∧ rest.row ∈ (series more).matches' := by
    simpa [condition, block] using row
  obtain ⟨first, second, behind⟩ : inner.Below .expression ∧ body.Below .statements ∧
      rest.Derived := by
    simpa using derived
  obtain ⟨e, rfl⟩ := smaller.leaf.inner.expression first
  obtain ⟨ss, rfl⟩ := smaller.leaf.rest.leaf.leaf.inner.statements second
  exact ⟨e, ss, rest, rfl, others, behind, smaller.leaf.rest.leaf.leaf.rest.leaf⟩

theorem exists_if (below : f.Below .ifStatement) :
    ∃ s : Statement, s.node = .ifStatement ∧ s.forest = f := by
  obtain ⟨row, derived⟩ := below
  obtain ⟨rest, rfl, guarded⟩ := row_mem_series_word.1 row
  obtain ⟨e, ss, rest, rfl, others, derived, smaller⟩ :=
    exists_guarded smaller.leaf guarded derived
  rcases mem_series_optional.1 others with none | some
  · obtain rfl := row_eq_nil.1 none
    exact ⟨.ifThen e ss, rfl, by simp [Statement.forest]⟩
  · obtain ⟨inner, rfl⟩ : ∃ inner, rest = leaf (.keyword .kwElse) (blockForest inner) := by
      simpa [block, blockForest] using some
    obtain ⟨ts, rfl⟩ := smaller.leaf.leaf.inner.statements (by simpa using derived)
    exact ⟨.ifElse e ss ts, rfl, rfl⟩

theorem exists_while (below : f.Below .whileStatement) :
    ∃ s : Statement, s.node = .whileStatement ∧ s.forest = f := by
  obtain ⟨row, derived⟩ := below
  obtain ⟨rest, rfl, guarded⟩ := row_mem_series_word.1 row
  have guarded : rest.row ∈ (series (condition ++ block ++ [])).matches' := guarded
  obtain ⟨e, ss, rest, rfl, others, -⟩ := exists_guarded smaller.leaf guarded derived
  obtain rfl := row_eq_nil.1 others
  exact ⟨.whileDo e ss, rfl, by simp [Statement.forest]⟩

theorem exists_do (below : f.Below .doStatement) :
    ∃ s : Statement, s.node = .doStatement ∧ s.forest = f := by
  obtain ⟨row, derived⟩ := below
  obtain ⟨rest, rfl, called⟩ : ∃ rest, f = leaf (.keyword .kwDo) rest ∧
      ((∃ m inner, rest = leaf (.identifier m) (leaf (.symbol .leftParen)
        (node .expressionList inner (leaf (.symbol .rightParen)
          (leaf (.symbol .semicolon) nil))))) ∨
      ∃ x m inner, rest = leaf (.identifier x) (leaf (.symbol .dot) (leaf (.identifier m)
        (leaf (.symbol .leftParen) (node .expressionList inner (leaf (.symbol .rightParen)
          (leaf (.symbol .semicolon) nil))))))) := by
    simpa [rule, call, Grammar.arguments] using row
  rcases called with ⟨m, inner, rfl⟩ | ⟨x, m, inner, rfl⟩
  · obtain ⟨as, rfl⟩ := smaller.leaf.leaf.leaf.inner.arguments (by simpa using derived)
    exact ⟨.doCall (.own m as), rfl, rfl⟩
  · obtain ⟨as, rfl⟩ := smaller.leaf.leaf.leaf.leaf.leaf.inner.arguments (by simpa using derived)
    exact ⟨.doCall (.dotted x m as), rfl, rfl⟩

theorem exists_return (below : f.Below .returnStatement) :
    ∃ s : Statement, s.node = .returnStatement ∧ s.forest = f := by
  obtain ⟨row, derived⟩ := below
  obtain ⟨rest, rfl, returned⟩ : ∃ rest, f = leaf (.keyword .kwReturn) rest ∧
      (rest = leaf (.symbol .semicolon) nil ∨
        ∃ inner, rest = node .expression inner (leaf (.symbol .semicolon) nil)) := by
    simpa [rule] using row
  rcases returned with rfl | ⟨inner, rfl⟩
  · exact ⟨.returnNothing, rfl, rfl⟩
  · obtain ⟨e, rfl⟩ := smaller.leaf.inner.expression (by simpa using derived)
    exact ⟨.returnValue e, rfl, rfl⟩

theorem exists_statement {n : Node} (mem : n ∈ statementNodes) (below : f.Below n) :
    ∃ s : Statement, s.node = n ∧ s.forest = f := by
  simp only [statementNodes, List.mem_cons, List.not_mem_nil, or_false] at mem
  rcases mem with rfl | rfl | rfl | rfl | rfl
  · exact exists_let smaller below
  · exact exists_if smaller below
  · exact exists_while smaller below
  · exact exists_do smaller below
  · exact exists_return smaller below

theorem exists_statements (below : f.Below .statements) :
    ∃ ss : Statements, ss.forest = f := by
  obtain ⟨row, derived⟩ := below
  rcases mem_many_iff.1 row with none | some
  · exact ⟨.nil, (row_eq_nil.1 none).symm⟩
  · obtain ⟨n, mem, inner, rest, rfl, others⟩ : ∃ n ∈ statementNodes, ∃ inner rest,
        f = node n inner rest ∧ rest.row ∈ (many [statement]).matches' := by
      simpa [mem_series_singleton_iff] using some
    rw [derived_node] at derived
    obtain ⟨s, rfl, rfl⟩ := smaller.inner.statement n mem derived.1
    obtain ⟨ss, rfl⟩ := smaller.behind.statements ⟨others, derived.2⟩
    exact ⟨.cons s ss, rfl⟩

end

theorem parsed (f : Forest) : f.Parsed := by
  have smaller : f.SmallerParsed := fun g _ => g.parsed
  exact
    { expression := exists_expression smaller
      operations := exists_operations smaller
      term := exists_term smaller
      arguments := exists_arguments smaller
      moreArguments := exists_moreArguments smaller
      statement := fun _ => exists_statement smaller
      statements := exists_statements smaller }
termination_by sizeOf f

/-! ## Declarations -/

variable {gs : List Forest}

theorem exists_moreNames (rest : Forest)
    (all : ∀ g ∈ gs, g.row ∈ (series [symbol .comma, name]).matches' ∧ g.Derived) :
    ∃ names, gs.foldr (· ++ ·) rest = Names.moreForest names ++ rest := by
  induction gs with
  | nil => exact ⟨[], rfl⟩
  | cons g gs ih =>
    obtain ⟨⟨row, -⟩, all⟩ := List.forall_mem_cons.1 all
    obtain ⟨names, same⟩ := ih all
    obtain ⟨x, rfl⟩ : ∃ x, g = leaf (.symbol .comma) (leaf (.identifier x) nil) := by
      simpa using row
    exact ⟨x :: names, congrArg (fun g => leaf (.symbol .comma) (leaf (.identifier x) g)) same⟩

theorem exists_names (row : f.row ∈ (series (names ++ [symbol .semicolon])).matches')
    (derived : f.Derived) : ∃ d : Names, f = d.forest ++ leaf (.symbol .semicolon) nil := by
  obtain ⟨t, x, more, rfl, others⟩ : ∃ (t : TypeName) (x : String) (more : Forest),
      f = leaf t.terminal (leaf (.identifier x) more) ∧
        more.row ∈ (series [many [symbol .comma, name], symbol .semicolon]).matches' := by
    simpa [names] using row
  obtain ⟨gs, rest, rfl, all, last, -⟩ := exists_parts others derived
  obtain ⟨names, same⟩ := exists_moreNames rest all
  obtain rfl : rest = leaf (.symbol .semicolon) nil := by simpa using last
  exact ⟨⟨t, x, names⟩, by rw [same]; rfl⟩

theorem exists_locals (rest : Forest)
    (all : ∀ g ∈ gs, g.row ∈ (series [Grammar.node .varDec]).matches' ∧ g.Derived) :
    ∃ ds, gs.foldr (· ++ ·) rest = Names.localForest ds ++ rest := by
  induction gs with
  | nil => exact ⟨[], rfl⟩
  | cons g gs ih =>
    obtain ⟨⟨row, derived⟩, all⟩ := List.forall_mem_cons.1 all
    obtain ⟨ds, same⟩ := ih all
    obtain ⟨inner, rfl⟩ : ∃ inner, g = node .varDec inner nil := by simpa using row
    obtain ⟨⟨row, derived⟩, -⟩ := derived_node.1 derived
    obtain ⟨inner, rfl, named⟩ := row_mem_series_word.1 row
    obtain ⟨d, rfl⟩ := exists_names named derived
    exact ⟨d :: ds, congrArg (node .varDec _) same⟩

theorem exists_classVars (rest : Forest)
    (all : ∀ g ∈ gs, g.row ∈ (series [Grammar.node .classVarDec]).matches' ∧ g.Derived) :
    ∃ ds, gs.foldr (· ++ ·) rest = ClassVarDec.forest ds ++ rest := by
  induction gs with
  | nil => exact ⟨[], rfl⟩
  | cons g gs ih =>
    obtain ⟨⟨row, derived⟩, all⟩ := List.forall_mem_cons.1 all
    obtain ⟨ds, same⟩ := ih all
    obtain ⟨inner, rfl⟩ : ∃ inner, g = node .classVarDec inner nil := by simpa using row
    obtain ⟨⟨row, derived⟩, -⟩ := derived_node.1 derived
    obtain ⟨word, mem, worded⟩ := mem_series_choice.1 row
    simp only [List.mem_cons, List.not_mem_nil, or_false] at mem
    rcases mem with rfl | rfl
    · obtain ⟨inner, rfl, named⟩ := row_mem_series_word.1 worded
      obtain ⟨d, rfl⟩ := exists_names named derived
      exact ⟨⟨.static, rfl, d⟩ :: ds, congrArg (node .classVarDec _) same⟩
    · obtain ⟨inner, rfl, named⟩ := row_mem_series_word.1 worded
      obtain ⟨d, rfl⟩ := exists_names named derived
      exact ⟨⟨.field, rfl, d⟩ :: ds, congrArg (node .classVarDec _) same⟩

theorem exists_moreParameters (rest : Forest)
    (all : ∀ g ∈ gs, g.row ∈ (series [symbol .comma, type, name]).matches' ∧ g.Derived) :
    ∃ ps, gs.foldr (· ++ ·) rest = Parameter.moreForest ps ++ rest := by
  induction gs with
  | nil => exact ⟨[], rfl⟩
  | cons g gs ih =>
    obtain ⟨⟨row, -⟩, all⟩ := List.forall_mem_cons.1 all
    obtain ⟨ps, same⟩ := ih all
    obtain ⟨t, x, rfl⟩ : ∃ (t : TypeName) (x : String),
        g = leaf (.symbol .comma) (leaf t.terminal (leaf (.identifier x) nil)) := by
      simpa using row
    exact ⟨⟨t, x⟩ :: ps,
      congrArg (fun g => leaf (.symbol .comma) (leaf t.terminal (leaf (.identifier x) g))) same⟩

theorem exists_parameters (below : f.Below .parameterList) : ∃ ps, f = Parameter.forest ps := by
  obtain ⟨row, derived⟩ := below
  rcases mem_optional.1 row with none | some
  · exact ⟨[], row_eq_nil.1 none⟩
  · obtain ⟨t, x, more, rfl, others⟩ : ∃ (t : TypeName) (x : String) (more : Forest),
        f = leaf t.terminal (leaf (.identifier x) more) ∧
          more.row ∈ (series [many [symbol .comma, type, name]]).matches' := by
      simpa using some
    obtain ⟨gs, rest, rfl, all, last, -⟩ := exists_parts others derived
    obtain ⟨ps, same⟩ := exists_moreParameters rest all
    obtain rfl : rest = nil := by simpa using last
    exact ⟨⟨t, x⟩ :: ps, by rw [same, append_nil]; rfl⟩

theorem exists_body (below : f.Below .subroutineBody) :
    ∃ (locals : List Names) (ss : Statements), f = leaf (.symbol .leftBrace)
      (Names.localForest locals ++ node .statements ss.forest
        (leaf (.symbol .rightBrace) nil)) := by
  obtain ⟨row, derived⟩ := below
  obtain ⟨more, rfl, others⟩ := row_mem_series_symbol.1 row
  obtain ⟨gs, rest, rfl, all, last, derived⟩ := exists_parts others derived
  obtain ⟨locals, same⟩ := exists_locals rest all
  obtain ⟨inner, rfl⟩ : ∃ inner, rest = node .statements inner
      (leaf (.symbol .rightBrace) nil) := by
    simpa using last
  obtain ⟨ss, rfl⟩ := inner.parsed.statements (derived_node.1 derived).1
  exact ⟨locals, ss, by rw [same]⟩

theorem exists_subroutine (below : f.Below .subroutineDec) :
    ∃ s : SubroutineDec, f = s.forest := by
  obtain ⟨row, derived⟩ := below
  obtain ⟨kind, t, x, parameters, inner, rfl⟩ : ∃ (kind : SubroutineKind) (t : Option TypeName)
      (x : String) (parameters inner : Forest), f = leaf (.keyword kind.keyword)
        (leaf (TypeName.resultTerminal t) (leaf (.identifier x) (leaf (.symbol .leftParen)
          (node .parameterList parameters (leaf (.symbol .rightParen)
            (node .subroutineBody inner nil)))))) := by
    simpa [rule] using row
  obtain ⟨first, second⟩ : parameters.Below .parameterList ∧ inner.Below .subroutineBody := by
    simpa using derived
  obtain ⟨ps, rfl⟩ := exists_parameters first
  obtain ⟨locals, ss, rfl⟩ := exists_body second
  exact ⟨⟨kind, t, x, ps, locals, ss⟩, rfl⟩

theorem exists_subroutines (rest : Forest)
    (all : ∀ g ∈ gs, g.row ∈ (series [Grammar.node .subroutineDec]).matches' ∧ g.Derived) :
    ∃ ss, gs.foldr (· ++ ·) rest = ClassDec.subroutineForest ss ++ rest := by
  induction gs with
  | nil => exact ⟨[], rfl⟩
  | cons g gs ih =>
    obtain ⟨⟨row, derived⟩, all⟩ := List.forall_mem_cons.1 all
    obtain ⟨ss, same⟩ := ih all
    obtain ⟨inner, rfl⟩ : ∃ inner, g = node .subroutineDec inner nil := by simpa using row
    obtain ⟨s, rfl⟩ := exists_subroutine (derived_node.1 derived).1
    exact ⟨s :: ss, congrArg (node .subroutineDec _) same⟩

/-- A derivation of a class is the parse tree of one. -/
theorem exists_classDec (root : f.row = [.node .classDec]) (derived : f.Derived) :
    ∃ d : ClassDec, f = d.forest := by
  obtain ⟨inner, rfl⟩ : ∃ inner, f = node .classDec inner nil := by
    simpa using mem_series_char.2 ⟨[], mem_series_nil.2 rfl, root⟩
  obtain ⟨⟨row, derived⟩, -⟩ := derived_node.1 derived
  obtain ⟨x, more, rfl, members⟩ : ∃ x more, inner = leaf (.keyword .kwClass)
      (leaf (.identifier x) (leaf (.symbol .leftBrace) more)) ∧
        more.row ∈ (series [many [Grammar.node .classVarDec], many [Grammar.node .subroutineDec],
          symbol .rightBrace]).matches' := by
    simpa [rule] using row
  obtain ⟨gs, rest, rfl, all, others, derived⟩ := exists_parts members derived
  obtain ⟨vars, same⟩ := exists_classVars rest all
  obtain ⟨hs, last, rfl, all, closing, -⟩ := exists_parts others derived
  obtain ⟨ss, same'⟩ := exists_subroutines last all
  obtain rfl : last = leaf (.symbol .rightBrace) nil := by simpa using closing
  exact ⟨⟨x, vars, ss⟩, by rw [same, same']; rfl⟩

/-- The terminals of a class determine its derivation. -/
theorem derivation_unique {g : Forest} (first : f.row = [.node .classDec]) (derived : f.Derived)
    (other : g.row = [.node .classDec]) (derived' : g.Derived) (same : f.leaves = g.leaves) :
    f = g := by
  obtain ⟨d, rfl⟩ := exists_classDec first derived
  obtain ⟨d', rfl⟩ := exists_classDec other derived'
  rw [d.leaves_forest, d'.leaves_forest] at same
  rw [ClassDec.terminals_injective same]

end Forest

end JackToVm
