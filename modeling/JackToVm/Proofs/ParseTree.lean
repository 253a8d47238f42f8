import JackToVm.Proofs.Grammar

/-!
# Parse trees

Results.
1. The parse tree of a class is a derivation (`ClassDec.derived_forest`), and its terminals are
   those that the class is written with (`ClassDec.leaves_forest`).
2. The nodes and terminals among the events of a compilation are the events of the parse tree
   (`ClassDec.treeEvents_events`).
-/

namespace JackToVm

/-! ## The forests of syntax trees

For what is a node these are its children, else the row of its parts. -/

mutual

def Expression.forest : Expression → Forest
  | .of t ops => .node .term t.forest ops.forest

def Operations.forest : Operations → Forest
  | .nil => .nil
  | .cons o t ops => .leaf (.symbol o.symbol) (.node .term t.forest ops.forest)

def Term.forest : Term → Forest
  | .integer n => .leaf (.integer n) .nil
  | .text s => .leaf (.string s) .nil
  | .word w => .leaf (.keyword w.keyword) .nil
  | .var x => .leaf (.identifier x) .nil
  | .element x e =>
    .leaf (.identifier x) (.leaf (.symbol .leftBracket)
      (.node .expression e.forest (.leaf (.symbol .rightBracket) .nil)))
  | .call call => call.forest
  | .group e =>
    .leaf (.symbol .leftParen) (.node .expression e.forest (.leaf (.symbol .rightParen) .nil))
  | .unary o t => .leaf (.symbol o.symbol) (.node .term t.forest .nil)

def Call.forest : Call → Forest
  | .own m as =>
    .leaf (.identifier m) (.leaf (.symbol .leftParen)
      (.node .expressionList as.forest (.leaf (.symbol .rightParen) .nil)))
  | .dotted x m as =>
    .leaf (.identifier x) (.leaf (.symbol .dot) (.leaf (.identifier m)
      (.leaf (.symbol .leftParen)
        (.node .expressionList as.forest (.leaf (.symbol .rightParen) .nil)))))

def Arguments.forest : Arguments → Forest
  | .nil => .nil
  | .cons e as => .node .expression e.forest as.moreForest

/-- The arguments behind another one. -/
def Arguments.moreForest : Arguments → Forest
  | .nil => .nil
  | .cons e as => .leaf (.symbol .comma) (.node .expression e.forest as.moreForest)

end

/-- `'(' expression ')'` -/
def conditionForest (inner : Forest) : Forest :=
  .leaf (.symbol .leftParen) (.node .expression inner (.leaf (.symbol .rightParen) .nil))

/-- `'{' statements '}'` -/
def blockForest (inner : Forest) : Forest :=
  .leaf (.symbol .leftBrace) (.node .statements inner (.leaf (.symbol .rightBrace) .nil))

mutual

def Statement.forest : Statement → Forest
  | .letVariable x e =>
    .leaf (.keyword .kwLet) (.leaf (.identifier x) (.leaf (.symbol .equals)
      (.node .expression e.forest (.leaf (.symbol .semicolon) .nil))))
  | .letElement x i e =>
    .leaf (.keyword .kwLet) (.leaf (.identifier x) (.leaf (.symbol .leftBracket)
      (.node .expression i.forest (.leaf (.symbol .rightBracket) (.leaf (.symbol .equals)
        (.node .expression e.forest (.leaf (.symbol .semicolon) .nil)))))))
  | .ifThen e body =>
    .leaf (.keyword .kwIf) (conditionForest e.forest ++ blockForest body.forest)
  | .ifElse e body other =>
    .leaf (.keyword .kwIf) (conditionForest e.forest ++ blockForest body.forest ++
      .leaf (.keyword .kwElse) (blockForest other.forest))
  | .whileDo e body =>
    .leaf (.keyword .kwWhile) (conditionForest e.forest ++ blockForest body.forest)
  | .doCall call => .leaf (.keyword .kwDo) (call.forest ++ .leaf (.symbol .semicolon) .nil)
  | .returnNothing => .leaf (.keyword .kwReturn) (.leaf (.symbol .semicolon) .nil)
  | .returnValue e =>
    .leaf (.keyword .kwReturn) (.node .expression e.forest (.leaf (.symbol .semicolon) .nil))

def Statements.forest : Statements → Forest
  | .nil => .nil
  | .cons s ss => .node s.node s.forest ss.forest

end

namespace Names

/-- Names behind another one. -/
def moreForest : List String → Forest
  | [] => .nil
  | name :: names => .leaf (.symbol .comma) (.leaf (.identifier name) (moreForest names))

def forest (d : Names) : Forest :=
  .leaf d.type.terminal (.leaf (.identifier d.first) (moreForest d.more))

/-- Some declarations of locals. -/
def localForest : List Names → Forest
  | [] => .nil
  | d :: ds =>
    .node .varDec (.leaf (.keyword .kwVar) (d.forest ++ .leaf (.symbol .semicolon) .nil))
      (localForest ds)

end Names

/-- Some declarations of statics and fields. -/
def ClassVarDec.forest : List ClassVarDec → Forest
  | [] => .nil
  | d :: ds =>
    .node .classVarDec
      (.leaf (.keyword d.kind.keyword) (d.names.forest ++ .leaf (.symbol .semicolon) .nil))
      (forest ds)

namespace Parameter

/-- Parameters behind another one. -/
def moreForest : List Parameter → Forest
  | [] => .nil
  | p :: ps =>
    .leaf (.symbol .comma) (.leaf p.type.terminal (.leaf (.identifier p.name) (moreForest ps)))

def forest : List Parameter → Forest
  | [] => .nil
  | p :: ps => .leaf p.type.terminal (.leaf (.identifier p.name) (moreForest ps))

end Parameter

namespace SubroutineDec

def bodyForest (s : SubroutineDec) : Forest :=
  .leaf (.symbol .leftBrace) (Names.localForest s.locals ++
    .node .statements s.body.forest (.leaf (.symbol .rightBrace) .nil))

def forest (s : SubroutineDec) : Forest :=
  .leaf (.keyword s.kind.keyword) (.leaf (TypeName.resultTerminal s.result)
    (.leaf (.identifier s.name) (.leaf (.symbol .leftParen)
      (.node .parameterList (Parameter.forest s.parameters) (.leaf (.symbol .rightParen)
        (.node .subroutineBody s.bodyForest .nil))))))

end SubroutineDec

namespace ClassDec

def subroutineForest : List SubroutineDec → Forest
  | [] => .nil
  | s :: ss => .node .subroutineDec s.forest (subroutineForest ss)

/-- The parse tree of a class. -/
def forest (d : ClassDec) : Forest :=
  .node .classDec
    (.leaf (.keyword .kwClass) (.leaf (.identifier d.name) (.leaf (.symbol .leftBrace)
      (ClassVarDec.forest d.classVars ++
        (subroutineForest d.subroutines ++ .leaf (.symbol .rightBrace) .nil))))) .nil

end ClassDec

/-! ## The terminals of a parse tree -/

mutual

theorem Expression.leaves_forest (e : Expression) : e.forest.leaves = e.terminals := by
  cases e with
  | of t ops =>
    simp [Expression.forest, Expression.terminals, Forest.leaves, t.leaves_forest,
      ops.leaves_forest]

theorem Operations.leaves_forest (ops : Operations) : ops.forest.leaves = ops.terminals := by
  cases ops with
  | nil => rfl
  | cons o t ops =>
    simp [Operations.forest, Operations.terminals, Forest.leaves, t.leaves_forest,
      ops.leaves_forest]

theorem Term.leaves_forest (t : Term) : t.forest.leaves = t.terminals := by
  cases t with
  | integer _ | text _ | word _ | var _ => rfl
  | element x e => simp [Term.forest, Term.terminals, Forest.leaves, e.leaves_forest]
  | call call => exact call.leaves_forest
  | group e => simp [Term.forest, Term.terminals, Forest.leaves, e.leaves_forest]
  | unary o t => simp [Term.forest, Term.terminals, Forest.leaves, t.leaves_forest]

theorem Call.leaves_forest (call : Call) : call.forest.leaves = call.terminals := by
  cases call with
  | own m as => simp [Call.forest, Call.terminals, Forest.leaves, as.leaves_forest]
  | dotted x m as => simp [Call.forest, Call.terminals, Forest.leaves, as.leaves_forest]

theorem Arguments.leaves_forest (as : Arguments) : as.forest.leaves = as.terminals := by
  cases as with
  | nil => rfl
  | cons e as =>
    simp [Arguments.forest, Arguments.terminals, Forest.leaves, e.leaves_forest,
      as.leaves_moreForest]

theorem Arguments.leaves_moreForest (as : Arguments) :
    as.moreForest.leaves = as.moreTerminals := by
  cases as with
  | nil => rfl
  | cons e as =>
    simp [Arguments.moreForest, Arguments.moreTerminals, Forest.leaves, e.leaves_forest,
      as.leaves_moreForest]

end

@[simp]
theorem leaves_conditionForest (f : Forest) : (conditionForest f).leaves =
    .symbol .leftParen :: (f.leaves ++ [.symbol .rightParen]) := rfl

@[simp]
theorem leaves_blockForest (f : Forest) : (blockForest f).leaves =
    .symbol .leftBrace :: (f.leaves ++ [.symbol .rightBrace]) := rfl

mutual

theorem Statement.leaves_forest (s : Statement) : s.forest.leaves = s.terminals := by
  cases s with
  | letVariable x e =>
    simp [Statement.forest, Statement.terminals, Forest.leaves, e.leaves_forest]
  | letElement x i e =>
    simp [Statement.forest, Statement.terminals, Forest.leaves, i.leaves_forest, e.leaves_forest]
  | ifThen e body =>
    simp [Statement.forest, Statement.terminals, Forest.leaves, e.leaves_forest,
      body.leaves_forest]
  | ifElse e body other =>
    simp [Statement.forest, Statement.terminals, Forest.leaves, e.leaves_forest,
      body.leaves_forest, other.leaves_forest]
  | whileDo e body =>
    simp [Statement.forest, Statement.terminals, Forest.leaves, e.leaves_forest,
      body.leaves_forest]
  | doCall call => simp [Statement.forest, Statement.terminals, Forest.leaves, call.leaves_forest]
  | returnNothing => rfl
  | returnValue e =>
    simp [Statement.forest, Statement.terminals, Forest.leaves, e.leaves_forest]

theorem Statements.leaves_forest (ss : Statements) : ss.forest.leaves = ss.terminals := by
  cases ss with
  | nil => rfl
  | cons s ss =>
    simp [Statements.forest, Statements.terminals, Forest.leaves, s.leaves_forest,
      ss.leaves_forest]

end

theorem Names.leaves_moreForest (names : List String) :
    (moreForest names).leaves = moreTerminals names := by
  induction names with
  | nil => rfl
  | cons x names ih => simpa [moreForest, moreTerminals, Forest.leaves] using ih

theorem Names.leaves_forest (d : Names) : d.forest.leaves = d.terminals := by
  simp [forest, terminals, Forest.leaves, leaves_moreForest]

theorem Names.leaves_localForest (ds : List Names) :
    (localForest ds).leaves = ds.flatMap localTerminals := by
  induction ds with
  | nil => rfl
  | cons d ds ih => simp [localForest, localTerminals, Forest.leaves, leaves_forest, ih]

theorem ClassVarDec.leaves_forest (ds : List ClassVarDec) :
    (forest ds).leaves = ds.flatMap terminals := by
  induction ds with
  | nil => rfl
  | cons d ds ih => simp [forest, terminals, Forest.leaves, Names.leaves_forest, ih]

theorem Parameter.leaves_moreForest (ps : List Parameter) :
    (moreForest ps).leaves = moreTerminals ps := by
  induction ps with
  | nil => rfl
  | cons p ps ih => simpa [moreForest, moreTerminals, Forest.leaves] using ih

theorem Parameter.leaves_forest (ps : List Parameter) :
    (forest ps).leaves = listTerminals ps := by
  cases ps with
  | nil => rfl
  | cons p ps => simp [forest, listTerminals, Forest.leaves, leaves_moreForest]

theorem SubroutineDec.leaves_forest (s : SubroutineDec) : s.forest.leaves = s.terminals := by
  simp [forest, bodyForest, terminals, moreTerminals, Forest.leaves, Parameter.leaves_forest,
    Names.leaves_localForest, Statements.leaves_forest]

theorem ClassDec.leaves_subroutineForest (ss : List SubroutineDec) :
    (subroutineForest ss).leaves = ss.flatMap SubroutineDec.terminals := by
  induction ss with
  | nil => rfl
  | cons s ss ih => simp [subroutineForest, Forest.leaves, SubroutineDec.leaves_forest, ih]

theorem ClassDec.leaves_forest (d : ClassDec) : d.forest.leaves = d.terminals := by
  simp [forest, terminals, Forest.leaves, ClassVarDec.leaves_forest, leaves_subroutineForest]

/-! ## Derivations -/

open Grammar

theorem BinaryOperator.mem_operator (o : BinaryOperator) :
    [.symbol o.symbol] ∈ operator.matches' := by
  cases o <;> simp [operator, BinaryOperator.symbol]

mutual

theorem Expression.forest_below (e : Expression) : e.forest.Below .expression := by
  cases e with
  | of t ops =>
    obtain ⟨row, derived⟩ := ops.derived
    refine ⟨?_, by simpa [Expression.forest] using ⟨t.forest_below, derived⟩⟩
    exact mem_series_char.2 ⟨_, mem_series_singleton row, rfl⟩

theorem Operations.derived (ops : Operations) :
    ops.forest.row ∈ (many [operator, node .term]).matches' ∧ ops.forest.Derived := by
  cases ops with
  | nil => exact ⟨nil_mem_many _, trivial⟩
  | cons o t ops =>
    obtain ⟨row, derived⟩ := ops.derived
    refine ⟨?_, by simpa [Operations.forest] using ⟨t.forest_below, derived⟩⟩
    have first : [.symbol o.symbol] ++ [.node .term] ∈ (series [operator, node .term]).matches' :=
      append_mem_series o.mem_operator (by simp)
    exact append_mem_many first row

theorem Term.forest_below (t : Term) : t.forest.Below .term := by
  cases t with
  | integer n => simp [Forest.Below, Term.forest, Forest.row, rule, Terminal.child]
  | text s => simp [Forest.Below, Term.forest, Forest.row, rule, Terminal.child]
  | word w =>
    cases w <;> simp [Forest.Below, Term.forest, Forest.row, rule, Terminal.child,
      ConstantWord.keyword]
  | var x => simp [Forest.Below, Term.forest, Forest.row, rule, Terminal.child]
  | element x e =>
    exact ⟨by simp [Term.forest, Forest.row, rule, Terminal.child],
      by simpa [Term.forest] using e.forest_below⟩
  | call call =>
    obtain ⟨row, derived⟩ := call.derived
    exact ⟨mem_choice.2 ⟨Grammar.call, by simp, row⟩, derived⟩
  | group e =>
    exact ⟨by simp [Term.forest, Forest.row, rule, Terminal.child, condition],
      by simpa [Term.forest] using e.forest_below⟩
  | unary o t =>
    have sign : [.symbol o.symbol] ∈ (choice [symbol .minus, symbol .tilde]).matches' := by
      cases o <;> simp [UnaryOperator.symbol]
    have row : [.symbol o.symbol] ++ [.node .term] ∈
        (series [choice [symbol .minus, symbol .tilde], node .term]).matches' :=
      append_mem_series sign (by simp)
    exact ⟨mem_choice.2 ⟨_, by simp, row⟩, by simpa [Term.forest] using t.forest_below⟩

theorem Call.derived (call : Call) :
    call.forest.row ∈ Grammar.call.matches' ∧ call.forest.Derived := by
  cases call with
  | own m as =>
    simp [Call.forest, Forest.row, Grammar.call, Grammar.arguments, Terminal.child, as.forest_below]
  | dotted x m as =>
    simp [Call.forest, Forest.row, Grammar.call, Grammar.arguments, Terminal.child, as.forest_below]

theorem Arguments.forest_below (as : Arguments) : as.forest.Below .expressionList := by
  cases as with
  | nil => simp [Forest.Below, Arguments.forest, Forest.row, rule]
  | cons e as =>
    obtain ⟨row, derived⟩ := as.derived_more
    refine ⟨?_, by simpa [Arguments.forest] using ⟨e.forest_below, derived⟩⟩
    simp [Arguments.forest, Forest.row, rule, mem_series_singleton row]

theorem Arguments.derived_more (as : Arguments) :
    as.moreForest.row ∈ (many [symbol .comma, node .expression]).matches' ∧
      as.moreForest.Derived := by
  cases as with
  | nil => exact ⟨nil_mem_many _, trivial⟩
  | cons e as =>
    obtain ⟨row, derived⟩ := as.derived_more
    refine ⟨?_, by simpa [Arguments.moreForest] using ⟨e.forest_below, derived⟩⟩
    have first : [.symbol .comma, .node .expression] ∈
        (series [symbol .comma, node .expression]).matches' := by simp
    exact append_mem_many first row

end

theorem row_conditionForest (f : Forest) :
    (conditionForest f).row ∈ (series condition).matches' := by
  simp [conditionForest, Forest.row, condition, Terminal.child]

theorem row_blockForest (f : Forest) : (blockForest f).row ∈ (series block).matches' := by
  simp [blockForest, Forest.row, block, Terminal.child]

@[simp]
theorem derived_conditionForest {f : Forest} :
    (conditionForest f).Derived ↔ f.Below .expression := by
  simp [conditionForest]

@[simp]
theorem derived_blockForest {f : Forest} : (blockForest f).Derived ↔ f.Below .statements := by
  simp [blockForest]

/-- `'(' expression ')' '{' statements '}'` -/
theorem row_guardedForest (f g : Forest) :
    (conditionForest f ++ blockForest g).row ∈ (series (condition ++ block)).matches' := by
  rw [Forest.row_append]
  exact append_mem_series_append (row_conditionForest f) (row_blockForest g)

theorem Statement.mem_statement (s : Statement) : [.node s.node] ∈ statement.matches' := by
  have mem : s.node ∈ statementNodes := by cases s <;> simp [statementNodes, Statement.node]
  exact mem_choice.2 ⟨_, List.mem_map_of_mem mem, rfl⟩

mutual

theorem Statement.forest_below (s : Statement) : s.forest.Below s.node := by
  cases s with
  | letVariable x e =>
    exact ⟨by simp [Statement.forest, Forest.row, rule, Statement.node, Terminal.child],
      by simpa [Statement.forest] using e.forest_below⟩
  | letElement x i e =>
    exact ⟨by simp [Statement.forest, Forest.row, rule, Statement.node, Terminal.child],
      by simpa [Statement.forest] using ⟨i.forest_below, e.forest_below⟩⟩
  | ifThen e body =>
    refine ⟨?_, by simpa [Statement.forest] using ⟨e.forest_below, body.forest_below⟩⟩
    have nothing : [] ∈ (series [optional (word .kwElse :: block)]).matches' :=
      mem_series_optional.2 (.inl (mem_series_nil.2 rfl))
    have behind := append_mem_series_append (row_guardedForest e.forest body.forest) nothing
    rw [List.append_nil] at behind
    exact mem_series_char.2 ⟨_, behind, rfl⟩
  | ifElse e body other =>
    refine ⟨?_, by simpa [Statement.forest, and_assoc] using
      ⟨e.forest_below, body.forest_below, other.forest_below⟩⟩
    have elsePart : .keyword .kwElse :: (blockForest other.forest).row ∈
        (series [optional (word .kwElse :: block)]).matches' :=
      mem_series_optional.2 (.inr (mem_series_char.2 ⟨_, row_blockForest other.forest, rfl⟩))
    have behind := append_mem_series_append (row_guardedForest e.forest body.forest) elsePart
    rw [Statement.forest, Forest.row, Forest.row_append]
    exact mem_series_char.2 ⟨_, behind, rfl⟩
  | whileDo e body =>
    refine ⟨?_, by simpa [Statement.forest] using ⟨e.forest_below, body.forest_below⟩⟩
    exact mem_series_char.2 ⟨_, row_guardedForest e.forest body.forest, rfl⟩
  | doCall call =>
    obtain ⟨row, derived⟩ := call.derived
    refine ⟨?_, by simpa [Statement.forest] using derived⟩
    have others : call.forest.row ++ [.symbol .semicolon] ∈
        (series [Grammar.call, symbol .semicolon]).matches' :=
      append_mem_series row (by simp)
    simp [Statement.forest, Forest.row, rule, Statement.node, Terminal.child, others]
  | returnNothing =>
    simp [Forest.Below, Statement.forest, Forest.row, rule, Statement.node, Terminal.child]
  | returnValue e =>
    exact ⟨by simp [Statement.forest, Forest.row, rule, Statement.node, Terminal.child],
      by simpa [Statement.forest] using e.forest_below⟩

theorem Statements.forest_below (ss : Statements) : ss.forest.Below .statements := by
  cases ss with
  | nil => exact ⟨nil_mem_many _, trivial⟩
  | cons s ss =>
    obtain ⟨row, derived⟩ := ss.forest_below
    refine ⟨?_, by simpa [Statements.forest] using ⟨s.forest_below, derived⟩⟩
    have first : [.node s.node] ++ [] ∈ (series [statement]).matches' :=
      append_mem_series s.mem_statement (mem_series_nil.2 rfl)
    exact append_mem_many first row

end

theorem TypeName.mem_type (t : TypeName) : [t.terminal.child] ∈ type.matches' := by
  cases t <;> simp [type, terminal, Terminal.child]

theorem TypeName.mem_result (t : Option TypeName) :
    [(resultTerminal t).child] ∈ result.matches' := by
  cases t with
  | none => simp [result, resultTerminal, Terminal.child]
  | some t => exact mem_choice.2 ⟨type, by simp, t.mem_type⟩

theorem SubroutineKind.mem_subroutineWord (kind : SubroutineKind) :
    [.keyword kind.keyword] ∈ subroutineWord.matches' := by
  cases kind <;> simp [subroutineWord, keyword]

namespace Names

theorem row_moreForest (names : List String) :
    (moreForest names).row ∈ (many [symbol .comma, name]).matches' := by
  induction names with
  | nil => exact nil_mem_many _
  | cons x names ih =>
    have first : [.symbol .comma, .identifier] ∈ (series [symbol .comma, name]).matches' := by
      simp
    exact append_mem_many first ih

theorem derived_moreForest (names : List String) : (moreForest names).Derived := by
  induction names with
  | nil => trivial
  | cons x names ih => exact ih

theorem row_forest (d : Names) : d.forest.row ∈ (series names).matches' := by
  have more := mem_series_singleton (row_moreForest d.more)
  exact append_mem_series d.type.mem_type (mem_series_char.2 ⟨_, more, rfl⟩)

/-- Names with their type, between a word and a semicolon. -/
theorem row_declaration (d : Names) :
    d.forest.row ++ [.symbol .semicolon] ∈
      (series (names ++ [symbol .semicolon])).matches' :=
  append_mem_series_append d.row_forest (by simp)

theorem row_localForest (ds : List Names) :
    (localForest ds).row ∈ (many [node .varDec]).matches' := by
  induction ds with
  | nil => exact nil_mem_many _
  | cons d ds ih =>
    have first : [.node .varDec] ∈ (series [node .varDec]).matches' := by simp
    exact append_mem_many first ih

theorem derived_localForest (ds : List Names) : (localForest ds).Derived := by
  induction ds with
  | nil => trivial
  | cons d ds ih =>
    refine Forest.derived_node.2 ⟨⟨?_, ?_⟩, ih⟩
    · rw [Forest.row, Forest.row_append]
      exact mem_series_char.2 ⟨_, d.row_declaration, rfl⟩
    · simpa [forest] using derived_moreForest d.more

end Names

namespace ClassVarDec

theorem row_forest (ds : List ClassVarDec) :
    (forest ds).row ∈ (many [node .classVarDec]).matches' := by
  induction ds with
  | nil => exact nil_mem_many _
  | cons d ds ih =>
    have first : [.node .classVarDec] ∈ (series [node .classVarDec]).matches' := by simp
    exact append_mem_many first ih

theorem derived_forest (ds : List ClassVarDec) : (forest ds).Derived := by
  induction ds with
  | nil => trivial
  | cons d ds ih =>
    refine Forest.derived_node.2 ⟨⟨?_, ?_⟩, ih⟩
    · have word : [.keyword d.kind.keyword] ∈
          (choice [word .kwStatic, word .kwField]).matches' := by
        obtain ⟨kind, ofClass, names⟩ := d
        cases kind <;> simp [Kind.belongsToClass, Kind.keyword] at ofClass ⊢
      rw [Forest.row, Forest.row_append]
      exact append_mem_series word d.names.row_declaration
    · simpa [Names.forest] using Names.derived_moreForest d.names.more

end ClassVarDec

namespace Parameter

theorem row_moreForest (ps : List Parameter) :
    (moreForest ps).row ∈ (many [symbol .comma, Grammar.type, Grammar.name]).matches' := by
  induction ps with
  | nil => exact nil_mem_many _
  | cons p ps ih =>
    have typed : [p.type.terminal.child] ++ [.identifier] ∈
        (series [Grammar.type, Grammar.name]).matches' :=
      append_mem_series p.type.mem_type (by simp)
    exact append_mem_many (mem_series_char.2 ⟨_, typed, rfl⟩) ih

theorem derived_moreForest (ps : List Parameter) : (moreForest ps).Derived := by
  induction ps with
  | nil => trivial
  | cons p ps ih => exact ih

theorem forest_below (ps : List Parameter) : (forest ps).Below .parameterList := by
  cases ps with
  | nil => exact ⟨mem_optional.2 (.inl rfl), trivial⟩
  | cons p ps =>
    have named : .identifier :: (moreForest ps).row ∈ (series
        [Grammar.name, many [symbol .comma, Grammar.type, Grammar.name]]).matches' :=
      mem_series_char.2 ⟨_, mem_series_singleton (row_moreForest ps), rfl⟩
    exact ⟨mem_optional.2 (.inr (append_mem_series p.type.mem_type named)),
      derived_moreForest ps⟩

end Parameter

namespace SubroutineDec

theorem bodyForest_below (s : SubroutineDec) : s.bodyForest.Below .subroutineBody := by
  constructor
  · have rest : [.node .statements, .symbol .rightBrace] ∈
        (series [node .statements, symbol .rightBrace]).matches' := by simp
    rw [bodyForest, Forest.row, Forest.row_append]
    exact mem_series_char.2
      ⟨_, append_mem_series (Names.row_localForest s.locals) rest, rfl⟩
  · simpa [bodyForest] using ⟨Names.derived_localForest s.locals, s.body.forest_below⟩

theorem forest_below (s : SubroutineDec) : s.forest.Below .subroutineDec := by
  constructor
  · exact append_mem_series s.kind.mem_subroutineWord (append_mem_series
      (TypeName.mem_result s.result) (by simp [Forest.row, Terminal.child]))
  · simpa [forest] using ⟨Parameter.forest_below s.parameters, s.bodyForest_below⟩

end SubroutineDec

namespace ClassDec

theorem row_subroutineForest (ss : List SubroutineDec) :
    (subroutineForest ss).row ∈ (many [node .subroutineDec]).matches' := by
  induction ss with
  | nil => exact nil_mem_many _
  | cons s ss ih =>
    have first : [.node .subroutineDec] ∈ (series [node .subroutineDec]).matches' := by simp
    exact append_mem_many first ih

theorem derived_subroutineForest (ss : List SubroutineDec) : (subroutineForest ss).Derived := by
  induction ss with
  | nil => trivial
  | cons s ss ih => exact Forest.derived_node.2 ⟨s.forest_below, ih⟩

/-- The forest of a class is a derivation. -/
theorem derived_forest (d : ClassDec) : d.forest.Derived := by
  refine Forest.derived_node.2 ⟨⟨?_, ?_⟩, trivial⟩
  · have last : [.symbol .rightBrace] ∈ (series [symbol .rightBrace]).matches' := by simp
    have members := append_mem_series (ClassVarDec.row_forest d.classVars)
      (append_mem_series (row_subroutineForest d.subroutines) last)
    simp only [Forest.row, Forest.row_append]
    exact mem_series_char.2 ⟨_, mem_series_char.2 ⟨_, mem_series_char.2 ⟨_, members, rfl⟩,
      rfl⟩, rfl⟩
  · simpa using ⟨ClassVarDec.derived_forest d.classVars, derived_subroutineForest d.subroutines⟩

end ClassDec

/-! ## The nodes and terminals of a trace -/

/-- A node opens or closes, or a terminal is consumed. -/
@[simp]
def Event.ofTree : Event → Bool
  | opened _ | closed _ | consumed _ => true
  | emitted _ | declared _ | startedClass _ | startedSubroutine .. => false

/-- The events that belong to the parse tree. -/
def treeEvents (events : List Event) : List Event :=
  events.filter Event.ofTree

@[simp]
theorem treeEvents_nil : treeEvents [] = [] := rfl

@[simp]
theorem treeEvents_append (es fs : List Event) :
    treeEvents (es ++ fs) = treeEvents es ++ treeEvents fs :=
  List.filter_append es fs

@[simp]
theorem treeEvents_cons (e : Event) (es : List Event) :
    treeEvents (e :: es) = if e.ofTree then e :: treeEvents es else treeEvents es :=
  List.filter_cons

@[simp]
theorem treeEvents_emissions (code : List Instruction) : treeEvents (emissions code) = [] := by
  simp [treeEvents, emissions]

@[simp]
theorem treeEvents_nodeEvents (node : Node) (inner : List Event) :
    treeEvents (nodeEvents node inner) = nodeEvents node (treeEvents inner) := by
  simp [nodeEvents]

mutual

theorem Expression.treeEvents_events (c : Context) (e : Expression) :
    treeEvents (e.events c) = nodeEvents .expression e.forest.events := by
  cases e with
  | of t ops =>
    simp [Expression.events, Expression.forest, Forest.events, t.treeEvents_events c,
      ops.treeEvents_events c]

theorem Operations.treeEvents_events (c : Context) (ops : Operations) :
    treeEvents (ops.events c) = ops.forest.events := by
  cases ops with
  | nil => rfl
  | cons o t ops =>
    simp [Operations.events, Operations.forest, Forest.events, t.treeEvents_events c,
      ops.treeEvents_events c]

theorem Term.treeEvents_events (c : Context) (t : Term) :
    treeEvents (t.events c) = t.forest.events := by
  cases t with
  | integer n => rfl
  | text s => simp [Term.events, Term.forest, Forest.events]
  | word w => simp [Term.events, Term.forest, Forest.events]
  | var x => rfl
  | element x e => simp [Term.events, Term.forest, Forest.events, e.treeEvents_events c]
  | call call => simpa [Term.events, Term.forest] using call.treeEvents_events c
  | group e => simp [Term.events, Term.forest, Forest.events, e.treeEvents_events c]
  | unary o t => simp [Term.events, Term.forest, Forest.events, t.treeEvents_events c]

theorem Call.treeEvents_events (c : Context) (call : Call) :
    .consumed (.identifier call.head) :: treeEvents (call.events c) = call.forest.events := by
  cases call with
  | own m as =>
    simp [Call.events, Call.head, Call.forest, Forest.events, argumentEvents,
      as.treeEvents_events c]
  | dotted x m as =>
    simp [Call.events, Call.head, Call.forest, Forest.events, argumentEvents,
      as.treeEvents_events c]

theorem Arguments.treeEvents_events (c : Context) (as : Arguments) :
    treeEvents (as.events c) = as.forest.events := by
  cases as with
  | nil => rfl
  | cons e as =>
    simp [Arguments.events, Arguments.forest, Forest.events, e.treeEvents_events c,
      as.treeEvents_moreEvents c]

theorem Arguments.treeEvents_moreEvents (c : Context) (as : Arguments) :
    treeEvents (as.moreEvents c) = as.moreForest.events := by
  cases as with
  | nil => rfl
  | cons e as =>
    simp [Arguments.moreEvents, Arguments.moreForest, Forest.events, e.treeEvents_events c,
      as.treeEvents_moreEvents c]

end

theorem treeEvents_conditionEvents (c : Context) (e : Expression) (target : String) :
    treeEvents (conditionEvents (e.events c) target) = (conditionForest e.forest).events := by
  simp [conditionEvents, conditionForest, Forest.events, e.treeEvents_events c]

theorem treeEvents_blockEvents {inner : List Event} {f : Forest}
    (same : treeEvents inner = f.events) :
    treeEvents (blockEvents inner) = (blockForest f).events := by
  simp [blockEvents, blockForest, Forest.events, same]

mutual

theorem Statement.treeEvents_events (c : Context) (n : Nat) (s : Statement) :
    treeEvents (s.events c n) = s.forest.events := by
  cases s with
  | letVariable x e =>
    simp [Statement.events, Statement.forest, Forest.events, e.treeEvents_events c]
  | letElement x i e =>
    simp [Statement.events, Statement.forest, Forest.events, i.treeEvents_events c,
      e.treeEvents_events c]
  | ifThen e body =>
    have inner := body.treeEvents_events c (n + 1)
    simp [Statement.events, Statement.forest, Forest.events, treeEvents_conditionEvents,
      treeEvents_blockEvents inner]
  | ifElse e body other =>
    have inner := body.treeEvents_events c (n + 1)
    have others := other.treeEvents_events c (n + 1 + body.constructs)
    simp [Statement.events, Statement.forest, Forest.events, treeEvents_conditionEvents,
      treeEvents_blockEvents inner, treeEvents_blockEvents others]
  | whileDo e body =>
    have inner := body.treeEvents_events c (n + 1)
    simp [Statement.events, Statement.forest, Forest.events, treeEvents_conditionEvents,
      treeEvents_blockEvents inner]
  | doCall call =>
    simp [Statement.events, Statement.forest, Forest.events, ← call.treeEvents_events c]
  | returnNothing => rfl
  | returnValue e =>
    simp [Statement.events, Statement.forest, Forest.events, e.treeEvents_events c]

theorem Statements.treeEvents_events (c : Context) (n : Nat) (ss : Statements) :
    treeEvents (ss.events c n) = ss.forest.events := by
  cases ss with
  | nil => rfl
  | cons s ss =>
    simp [Statements.events, Statements.forest, Forest.events, s.treeEvents_events c n,
      ss.treeEvents_events c (n + s.constructs)]

end

theorem Names.treeEvents_moreEvents (kind : Kind) (type : String) (before : List Declaration)
    (names : List String) :
    treeEvents (moreEvents kind type before names) = (moreForest names).events := by
  induction names generalizing before with
  | nil => rfl
  | cons name names ih => simp [moreEvents, moreForest, Forest.events, ih]

theorem Names.treeEvents_events (kind : Kind) (before : List Declaration) (d : Names) :
    treeEvents (d.events kind before) = d.forest.events := by
  simp [events, forest, Forest.events, treeEvents_moreEvents]

theorem Names.treeEvents_localEvents (before : List Declaration) (ds : List Names) :
    treeEvents (localEvents before ds) = (localForest ds).events := by
  induction ds generalizing before with
  | nil => rfl
  | cons d ds ih => simp [localEvents, localForest, Forest.events, treeEvents_events, ih]

theorem ClassVarDec.treeEvents_events (before : List Declaration) (ds : List ClassVarDec) :
    treeEvents (events before ds) = (forest ds).events := by
  induction ds generalizing before with
  | nil => rfl
  | cons d ds ih => simp [events, forest, Forest.events, Names.treeEvents_events, ih]

theorem Parameter.treeEvents_moreEvents (before : List Declaration) (ps : List Parameter) :
    treeEvents (moreEvents before ps) = (moreForest ps).events := by
  induction ps generalizing before with
  | nil => rfl
  | cons p ps ih => simp [moreEvents, moreForest, Forest.events, ih]

theorem Parameter.treeEvents_events (before : List Declaration) (ps : List Parameter) :
    treeEvents (events before ps) = (forest ps).events := by
  cases ps with
  | nil => rfl
  | cons p ps => simp [events, forest, Forest.events, treeEvents_moreEvents]

namespace SubroutineDec

theorem treeEvents_receiverEvents (className : String) (s : SubroutineDec) :
    treeEvents (s.receiverEvents className) = [] := by
  unfold receiverEvents receiver
  split <;> rfl

theorem treeEvents_bodyEvents (d : ClassDec) (n : Nat) (s : SubroutineDec) :
    treeEvents (s.bodyEvents d n) = s.bodyForest.events := by
  simp [bodyEvents, bodyForest, Forest.events, Names.treeEvents_localEvents,
    Statements.treeEvents_events]

theorem treeEvents_events (d : ClassDec) (n : Nat) (s : SubroutineDec) :
    treeEvents (s.events d n) = nodeEvents .subroutineDec s.forest.events := by
  simp [events, forest, Forest.events, treeEvents_receiverEvents, Parameter.treeEvents_events,
    treeEvents_bodyEvents]

end SubroutineDec

namespace ClassDec

theorem treeEvents_subroutineEvents (d : ClassDec) (n : Nat) (ss : List SubroutineDec) :
    treeEvents (d.subroutineEvents n ss) = (subroutineForest ss).events := by
  induction ss generalizing n with
  | nil => rfl
  | cons s ss ih =>
    simp [subroutineEvents, subroutineForest, Forest.events, SubroutineDec.treeEvents_events, ih]

/-- The events of a class spell its parse tree. -/
theorem treeEvents_events (d : ClassDec) : treeEvents d.events = d.forest.events := by
  simp [events, forest, Forest.events, ClassVarDec.treeEvents_events, treeEvents_subroutineEvents]

end ClassDec

end JackToVm
