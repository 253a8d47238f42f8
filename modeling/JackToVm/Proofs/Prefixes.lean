import JackToVm.Proofs.Sentences

/-!
# The first terminal that cannot stand where it does

A syntax error is reported as early as it can be: what was read before it is the beginning of a
class, and no class goes on with the terminal that is there. This holds in all parts of a class,
also where an optional part ends and the goal behind it rejects the terminal.

Results.
1. The goals that replace a goal are written with what the goal is written with, if the terminal
   ahead is the first of that and what stands behind ends the goal (`Goal.action_cuts`).
2. A class that starts with the terminals that a pass has consumed and with the one ahead goes on
   with what the goals are written with (`Machine.Reaches.cutAll`).
3. Where a pass rejects a terminal, that is the first impossible one
   (`Lexer.Reading.Reaches.firstImpossible`), and so it is where a compilation reports a syntax
   error (`syntax_error_of_compile_eq_error`).
-/

namespace JackToVm

/-! ## What goals are written with, for the goals that replace them -/

/-- The goals of an action are written with the terminals of its goal, without the one that the
action accepts. It rejects none of them. -/
def Action.Cuts (act : Action) (ts rest : List Terminal) : Prop :=
  match act with
  | emit _ => ts = []
  | expand _ next _ => WriteAll True next ts rest
  | accept _ next _ => ∃ t ts', ts = t :: ts' ∧ WriteAll True next ts' rest
  | reject _ => False
  | refuse .. => True

/-- The action of a goal cuts what the goal is written with. -/
def Goal.Cutting (goal : Goal) : Prop :=
  ∀ (env : Env) (here : Nat) (ts rest : List Terminal), goal.Writes ts → goal.EndedBy rest →
    (goal.action env here (ts ++ rest).head?).Cuts ts rest

theorem Action.ofSlot_cuts {use : Slot → Action} {env : Env} {name : String} {site : Nat}
    {ts rest : List Terminal} (h : ∀ slot, (use slot).Cuts ts rest) :
    (ofSlot env name site use).Cuts ts rest := by
  unfold ofSlot
  split
  · exact h _
  · trivial

namespace Goal

/-! ### Expressions -/

theorem expression_cutting : expression.Cutting := by
  rintro env here _ rest ⟨⟨t, ops⟩, rfl⟩ ends
  refine WriteAll.term.2 ⟨t, ops.terminals, rfl, fun _ => ops.endsTerm ends, ?_⟩
  exact ⟨ops.terminals, [], (List.append_nil _).symm, ⟨ops, rfl⟩, fun _ => ends,
    WriteAll.report.2 rfl⟩

theorem operators_cutting : operators.Cutting := by
  rintro env here _ rest ⟨ops, rfl⟩ ends
  cases ops with
  | nil =>
    obtain ⟨s, ⟨-, none⟩, rest, rfl⟩ := ends
    simp only [Operations.terminals, List.nil_append, List.head?_cons, action, Action.operators,
      none]
    exact rfl
  | cons o t ops =>
    simp only [Operations.terminals, List.cons_append, List.head?_cons, action, Action.operators,
      o.binary?_symbol]
    refine ⟨_, _, rfl, WriteAll.term.2 ⟨t, ops.terminals, rfl, fun _ => ops.endsTerm ends, ?_⟩⟩
    exact WriteAll.emit.2 (WriteAll.singleton.2 ⟨⟨ops, rfl⟩, fun _ => ends⟩)

theorem term_cutting : term.Cutting := by
  rintro env here _ rest ⟨t, rfl⟩ ends
  exact ⟨t.terminals, [], (List.append_nil _).symm, ⟨t, rfl⟩, fun _ => ends, WriteAll.report.2 rfl⟩

theorem operand_cutting : operand.Cutting := by
  rintro env here _ rest ⟨t, rfl⟩ ends
  cases t with
  | integer n => exact ⟨_, [], rfl, WriteAll.emit.2 rfl⟩
  | text text => exact ⟨_, [], rfl, WriteAll.singleton.2 ⟨rfl, fun _ => trivial⟩⟩
  | word w => cases w <;> exact ⟨_, [], rfl, by simp⟩
  | var x => exact ⟨_, [], rfl, WriteAll.singleton.2 ⟨.inl rfl, fun _ => ends⟩⟩
  | element x e =>
    exact ⟨_, _, rfl, WriteAll.singleton.2 ⟨.inr (.inl ⟨e, rfl⟩), fun _ => ends⟩⟩
  | call call =>
    rw [Term.terminals, call.terminals_eq_cons]
    exact ⟨_, _, rfl, WriteAll.singleton.2 ⟨.inr (.inr ⟨call, rfl⟩), fun _ => ends⟩⟩
  | group e =>
    refine ⟨_, _, rfl, WriteAll.expression.2
      ⟨e, _, rfl, fun _ => ?_, WriteAll.symbol.2 ⟨[], rfl, rfl⟩⟩⟩
    exact endsExpression_cons (by decide) _
  | unary o t =>
    cases o <;> exact ⟨_, _, rfl, WriteAll.term.2 ⟨t, [], (List.append_nil _).symm, fun _ => ends,
      WriteAll.emit.2 rfl⟩⟩

theorem stringConstant_cutting (text : String) (site : Nat) :
    (stringConstant text site).Cutting := by
  rintro env here _ rest rfl -
  simp only [action, Action.stringConstant]
  split
  · exact WriteAll.emit.2 (WriteAll.emit.2 (WriteAll.singleton.2 ⟨rfl, fun _ => trivial⟩))
  · trivial

theorem characters_cutting (text : List Char) (site : Nat) : (characters text site).Cutting := by
  rintro env here _ rest rfl -
  cases text with
  | nil => exact rfl
  | cons char text =>
    simp only [action, Action.characters]
    split
    · exact WriteAll.emit.2 (WriteAll.emit.2 (WriteAll.singleton.2 ⟨rfl, fun _ => trivial⟩))
    · trivial

theorem named_cutting (name : String) (site : Nat) : (named name site).Cutting := by
  rintro env here _ rest writes ⟨s, ends, rest, rfl⟩
  rcases writes with rfl | ⟨e, rfl⟩ | ⟨call, rfl⟩
  · have act := Action.named_of_endsTerm ends env name site
    simp only [List.nil_append, List.head?_cons, action, act]
    exact WriteAll.singleton.2 ⟨rfl, fun _ => trivial⟩
  · exact ⟨_, _, rfl, WriteAll.singleton.2 ⟨⟨e, rfl⟩, fun _ => trivial⟩⟩
  · have own : WriteAll True [.call name site] call.moreTerminals (.symbol s :: rest) :=
      WriteAll.singleton.2 ⟨⟨call, rfl⟩, fun _ => trivial⟩
    cases call <;> exact own

theorem load_cutting (name : String) (site : Nat) : (load name site).Cutting := by
  rintro env here _ rest rfl -
  exact Action.ofSlot_cuts fun slot => WriteAll.emit.2 rfl

theorem element_cutting (name : String) (site : Nat) : (element name site).Cutting := by
  rintro env here _ rest ⟨e, rfl⟩ -
  refine Action.ofSlot_cuts fun slot => WriteAll.expression.2 ⟨e, _, rfl, fun _ => ?_, ?_⟩
  · exact endsExpression_cons (by decide) _
  · exact WriteAll.symbol.2 ⟨[], rfl, by simp⟩

/-! ### Calls -/

theorem call_cutting (name : String) (site : Nat) : (call name site).Cutting := by
  rintro env here _ rest ⟨call, rfl⟩ -
  cases call with
  | own m as =>
    exact WriteAll.emit.2 (WriteAll.singleton.2 ⟨⟨as, rfl⟩, fun _ => trivial⟩)
  | dotted x m as =>
    exact ⟨_, _, rfl, WriteAll.singleton.2 ⟨⟨m, as, rfl⟩, fun _ => trivial⟩⟩

theorem member_cutting (receiver : String) (site : Nat) : (member receiver site).Cutting := by
  rintro env here _ rest ⟨name, as, rfl⟩ -
  exact ⟨_, _, rfl, WriteAll.singleton.2 ⟨⟨as, rfl⟩, fun _ => trivial⟩⟩

theorem dispatch_cutting (receiver : String) (site : Nat) (name : String) :
    (dispatch receiver site name).Cutting := by
  rintro env here _ rest ⟨as, rfl⟩ -
  have list (target : String) (count : Nat) : WriteAll True [arguments target count]
      (.symbol .leftParen :: (as.terminals ++ [.symbol .rightParen])) rest :=
    WriteAll.singleton.2 ⟨⟨as, rfl⟩, fun _ => trivial⟩
  simp only [action, Action.dispatch]
  split
  · exact Action.ofSlot_cuts fun slot => WriteAll.emit.2 (list _ _)
  · exact list _ _

theorem arguments_cutting (target : String) (count : Nat) : (arguments target count).Cutting := by
  rintro env here _ rest ⟨as, rfl⟩ -
  exact WriteAll.symbol.2 ⟨_, rfl, WriteAll.singleton.2 ⟨⟨as, rfl⟩, fun _ => trivial⟩⟩

/-- An expression in a list of arguments, and those behind it. -/
theorem writeAll_arguments (e : Expression) (as : Arguments) (target : String) (count : Nat)
    (rest : List Terminal) :
    WriteAll True [.expression, .moreArguments target count]
      (e.terminals ++ (as.moreTerminals ++ [.symbol .rightParen])) rest := by
  refine WriteAll.expression.2 ⟨e, _, rfl, fun _ => ?_, ?_⟩
  · rw [List.append_assoc]
    exact as.endsExpression (startsWith_cons _ _)
  · exact WriteAll.singleton.2 ⟨⟨as, rfl⟩, fun _ => trivial⟩

theorem expressionList_cutting (target : String) (count : Nat) :
    (expressionList target count).Cutting := by
  rintro env here _ rest ⟨as, rfl⟩ -
  cases as with
  | nil => exact writeAll_endOfCall.2 rfl
  | cons e as =>
    have head := e.head?_terminals (s := .rightParen) (.inl rfl)
      (as.moreTerminals ++ .symbol .rightParen :: rest)
    simp only [Arguments.terminals, List.append_assoc, List.cons_append, List.nil_append, action,
      Action.expressionList, if_neg head]
    exact writeAll_arguments e as target (count + 1) rest

theorem moreArguments_cutting (target : String) (count : Nat) :
    (moreArguments target count).Cutting := by
  rintro env here _ rest ⟨as, rfl⟩ -
  cases as with
  | nil => exact writeAll_endOfCall.2 rfl
  | cons e as =>
    refine ⟨.symbol .comma, _, rfl, ?_⟩
    have parts := writeAll_arguments e as target (count + 1) rest
    rw [← List.append_assoc] at parts
    exact parts

/-! ### Statements -/

theorem statements_cutting : statements.Cutting := by
  rintro env here _ rest ⟨ss, rfl⟩ ends
  exact ⟨ss.terminals, [], (List.append_nil _).symm, ⟨ss, rfl⟩, fun _ => ends,
    WriteAll.report.2 rfl⟩

theorem writeAll_moreStatements (node : Node) (ss : Statements) {rest : List Terminal}
    (ends : StartsWith .rightBrace rest) :
    WriteAll True [report (.closed node), moreStatements] ss.terminals rest :=
  WriteAll.report.2 (WriteAll.singleton.2 ⟨⟨ss, rfl⟩, fun _ => ends⟩)

theorem writeAll_condition {target : String} (e : Expression) {gs : List Goal}
    {ts rest : List Terminal} (more : WriteAll True gs ts rest) :
    WriteAll True (condition target ++ gs)
      (.symbol .leftParen :: (e.terminals ++ .symbol .rightParen :: ts)) rest := by
  refine WriteAll.symbol.2 ⟨_, rfl, WriteAll.expression.2 ⟨e, _, rfl, fun _ => ?_, ?_⟩⟩
  · exact endsExpression_cons (by decide) _
  · exact WriteAll.symbol.2 ⟨ts, rfl, WriteAll.emit.2 (WriteAll.emit.2 more)⟩

theorem writeAll_block (body : Statements) {gs : List Goal} {ts rest : List Terminal}
    (more : WriteAll True gs ts rest) :
    WriteAll True (block ++ gs)
      (.symbol .leftBrace :: (body.terminals ++ .symbol .rightBrace :: ts)) rest := by
  refine WriteAll.symbol.2 ⟨_, rfl, WriteAll.statements.2 ⟨body, _, rfl, fun _ => ?_, ?_⟩⟩
  · exact startsWith_cons _ _
  · exact WriteAll.symbol.2 ⟨ts, rfl, more⟩

/-- The end of a statement: an expression and a semicolon. -/
theorem writeAll_value (e : Expression) {gs : List Goal} {ts rest : List Terminal}
    (more : WriteAll True gs ts rest) :
    WriteAll True (.expression :: .symbol .semicolon :: gs)
      (e.terminals ++ .symbol .semicolon :: ts) rest := by
  refine WriteAll.expression.2 ⟨e, _, rfl, fun _ => ?_, WriteAll.symbol.2 ⟨ts, rfl, more⟩⟩
  exact endsExpression_cons (by decide) _

theorem moreStatements_cutting : moreStatements.Cutting := by
  rintro env here _ rest ⟨ss, rfl⟩ ends
  cases ss with
  | nil =>
    obtain ⟨rest, rfl⟩ := ends
    exact rfl
  | cons s ss =>
    have others {node : Node} := writeAll_moreStatements node ss ends
    cases s with
    | letVariable x e =>
      refine ⟨.keyword .kwLet, _, rfl, ?_⟩
      refine ⟨.identifier x :: .symbol .equals :: (e.terminals ++ [.symbol .semicolon]),
        ss.terminals, rfl, ⟨x, _, rfl, .inl ⟨e, rfl⟩⟩, fun _ => trivial, others⟩
    | letElement x i e =>
      refine ⟨.keyword .kwLet, _, rfl, ?_⟩
      refine ⟨.identifier x :: .symbol .leftBracket :: (i.terminals ++ .symbol .rightBracket ::
        .symbol .equals :: (e.terminals ++ [.symbol .semicolon])), ss.terminals, rfl,
        ⟨x, _, rfl, .inr ⟨i, e, rfl⟩⟩, fun _ => trivial, others⟩
    | ifThen e body =>
      have written : (Statements.cons (.ifThen e body) ss).terminals =
          .keyword .kwIf :: .symbol .leftParen :: (e.terminals ++ .symbol .rightParen ::
            .symbol .leftBrace :: (body.terminals ++ .symbol .rightBrace :: ss.terminals)) := by
        simp [Statements.terminals, Statement.terminals]
      rw [written]
      refine ⟨_, _, rfl, writeAll_condition e (writeAll_block body ?_)⟩
      refine WriteAll.emit.2 (WriteAll.emit.2 ⟨[], ss.terminals, rfl, .inl rfl, fun _ => ?_, ?_⟩)
      · exact ss.endsStatement ends
      · exact WriteAll.emit.2 others
    | ifElse e body other =>
      have written : (Statements.cons (.ifElse e body other) ss).terminals =
          .keyword .kwIf :: .symbol .leftParen :: (e.terminals ++ .symbol .rightParen ::
            .symbol .leftBrace :: (body.terminals ++ .symbol .rightBrace ::
              (.keyword .kwElse :: .symbol .leftBrace :: (other.terminals ++
                [.symbol .rightBrace]) ++ ss.terminals))) := by
        simp [Statements.terminals, Statement.terminals]
      rw [written]
      refine ⟨_, _, rfl, writeAll_condition e (writeAll_block body ?_)⟩
      refine WriteAll.emit.2 (WriteAll.emit.2 ⟨_, ss.terminals, rfl, .inr ⟨other, rfl⟩,
        fun _ => ?_, ?_⟩)
      · exact ss.endsStatement ends
      · exact WriteAll.emit.2 others
    | whileDo e body =>
      have written : (Statements.cons (.whileDo e body) ss).terminals =
          .keyword .kwWhile :: .symbol .leftParen :: (e.terminals ++ .symbol .rightParen ::
            .symbol .leftBrace :: (body.terminals ++ .symbol .rightBrace :: ss.terminals)) := by
        simp [Statements.terminals, Statement.terminals]
      rw [written]
      refine ⟨_, _, rfl, WriteAll.emit.2 (writeAll_condition e (writeAll_block body ?_))⟩
      exact WriteAll.emit.2 (WriteAll.emit.2 others)
    | doCall call =>
      have written : (Statements.cons (.doCall call) ss).terminals =
          .keyword .kwDo :: (call.terminals ++ .symbol .semicolon :: ss.terminals) := by
        simp [Statements.terminals, Statement.terminals]
      rw [written]
      refine ⟨_, _, rfl, call.terminals, _, rfl, ⟨call, rfl⟩, fun _ => trivial, ?_⟩
      exact WriteAll.symbol.2 ⟨_, rfl, WriteAll.emit.2 others⟩
    | returnNothing =>
      refine ⟨_, _, rfl, [], _, rfl, .inl rfl, fun _ => startsWith_cons _ _, ?_⟩
      exact WriteAll.symbol.2 ⟨_, rfl, WriteAll.emit.2 others⟩
    | returnValue e =>
      have written : (Statements.cons (.returnValue e) ss).terminals =
          .keyword .kwReturn :: (e.terminals ++ .symbol .semicolon :: ss.terminals) := by
        simp [Statements.terminals, Statement.terminals]
      rw [written]
      refine ⟨_, _, rfl, e.terminals, _, rfl, .inr ⟨e, rfl⟩, fun _ => startsWith_cons _ _, ?_⟩
      exact WriteAll.symbol.2 ⟨_, rfl, WriteAll.emit.2 others⟩

theorem letTarget_cutting : letTarget.Cutting := by
  rintro env here _ rest ⟨name, ts, rfl, assigns⟩ -
  exact ⟨_, ts, rfl, WriteAll.singleton.2 ⟨assigns, fun _ => trivial⟩⟩

theorem assign_cutting (name : String) (site : Nat) : (assign name site).Cutting := by
  intro env here ts rest assigns _
  exact Action.ofSlot_cuts fun slot => WriteAll.singleton.2 ⟨assigns, fun _ => trivial⟩

theorem assignTo_cutting (target : Slot) : (assignTo target).Cutting := by
  rintro env here _ rest (⟨e, rfl⟩ | ⟨i, e, rfl⟩) -
  · exact WriteAll.symbol.2 ⟨_, rfl, writeAll_value e (WriteAll.emit.2 rfl)⟩
  · refine ⟨_, _, rfl, WriteAll.expression.2 ⟨i, _, rfl, fun _ => ?_, ?_⟩⟩
    · exact endsExpression_cons (by decide) _
    · refine WriteAll.symbol.2 ⟨_, rfl, WriteAll.emit.2 (WriteAll.emit.2 ?_)⟩
      exact WriteAll.symbol.2 ⟨_, rfl, writeAll_value e (by simp)⟩

theorem elsePart_cutting : elsePart.Cutting := by
  rintro env here _ rest (rfl | ⟨other, rfl⟩) ends
  · have noElse : rest.head? ≠ some (.keyword .kwElse) := ends
    simp only [List.nil_append, action, Action.elsePart, if_neg noElse]
    exact rfl
  · exact ⟨_, _, rfl, writeAll_block other rfl⟩

theorem returnValue_cutting : returnValue.Cutting := by
  rintro env here _ rest (rfl | ⟨e, rfl⟩) ends
  · obtain ⟨rest, rfl⟩ := ends
    exact WriteAll.emit.2 rfl
  · have head := e.head?_terminals (s := .semicolon) (.inr rfl) rest
    simp only [action, Action.returnValue, if_neg head]
    obtain ⟨rest, rfl⟩ := ends
    exact WriteAll.singleton.2 ⟨⟨e, rfl⟩, fun _ => endsExpression_cons (by decide) _⟩

theorem callee_cutting : callee.Cutting := by
  rintro env here _ rest ⟨call, rfl⟩ -
  rw [call.terminals_eq_cons]
  exact ⟨_, _, rfl, WriteAll.singleton.2 ⟨⟨call, rfl⟩, fun _ => trivial⟩⟩

/-! ### Declarations -/

theorem type_cuts {use : TypeUse} {env : Env} (t : TypeName) (ts : List Terminal)
    {rest : List Terminal}
    (h : WriteAll True (use.goals t.text) ts rest) :
    (Action.type env use ((t.terminal :: ts) ++ rest).head?).Cuts (t.terminal :: ts) rest := by
  cases t <;> exact ⟨_, ts, rfl, h⟩

theorem type_cutting (use : TypeUse) : (type use).Cutting := by
  intro env here ts rest writes ends
  cases use with
  | names kind =>
    obtain ⟨⟨t, first, more⟩, rfl⟩ := writes
    refine type_cuts t (.identifier first :: Names.moreTerminals more) ?_
    refine ⟨[_], _, rfl, ⟨first, rfl⟩, fun _ => trivial, ?_⟩
    exact WriteAll.singleton.2 ⟨⟨more, rfl⟩, fun _ => ends⟩
  | parameter =>
    obtain ⟨⟨t, name⟩, rfl⟩ := writes
    exact type_cuts _ _ (WriteAll.singleton.2 ⟨⟨name, rfl⟩, fun _ => trivial⟩)
  | result =>
    obtain ⟨t, rfl⟩ := writes
    exact type_cuts t [] rfl

theorem newName_cutting (kind : Kind) (ty : String) : (newName kind ty).Cutting := by
  rintro env here _ rest ⟨name, rfl⟩ -
  exact ⟨_, [], rfl, WriteAll.singleton.2 ⟨rfl, fun _ => trivial⟩⟩

theorem declare_cutting (kind : Kind) (ty name : String) (site : Nat) :
    (declare kind ty name site).Cutting := by
  rintro env here _ rest rfl -
  simp only [action, Action.declare]
  split
  · exact rfl
  · trivial

theorem moreNames_cutting (kind : Kind) (ty : String) : (moreNames kind ty).Cutting := by
  rintro env here _ rest ⟨names, rfl⟩ ends
  cases names with
  | nil =>
    obtain ⟨rest, rfl⟩ := ends
    exact rfl
  | cons name names =>
    refine ⟨.symbol .comma, .identifier name :: Names.moreTerminals names, rfl, ?_⟩
    refine ⟨[_], _, rfl, ⟨name, rfl⟩, fun _ => trivial, ?_⟩
    exact WriteAll.singleton.2 ⟨⟨names, rfl⟩, fun _ => ends⟩

theorem classVarDecs_cutting : classVarDecs.Cutting := by
  rintro env here _ rest ⟨vars, rfl⟩ ends
  cases vars with
  | nil =>
    simp only [List.flatMap_nil, List.nil_append, action, Action.classVarDecs]
    split
    · next head => exact absurd (.inl rfl) (ends _ head)
    · next head => exact absurd (.inr rfl) (ends _ head)
    · exact rfl
  | cons d vars =>
    obtain ⟨kind, ofClass, names⟩ := d
    have parts : WriteAll True [.type (.names kind), .symbol .semicolon,
        .report (.closed .classVarDec), classVarDecs]
        (names.terminals ++ .symbol .semicolon :: vars.flatMap ClassVarDec.terminals) rest := by
      refine ⟨_, _, rfl, ⟨names, rfl⟩, fun _ => startsWith_cons _ _, ?_⟩
      refine WriteAll.symbol.2 ⟨_, rfl, WriteAll.report.2 ?_⟩
      exact WriteAll.singleton.2 ⟨⟨vars, rfl⟩, fun _ => ends⟩
    have written : (ClassVarDec.mk kind ofClass names :: vars).flatMap ClassVarDec.terminals =
        .keyword kind.keyword ::
          (names.terminals ++ .symbol .semicolon :: vars.flatMap ClassVarDec.terminals) := by
      simp [ClassVarDec.terminals]
    rw [written]
    cases kind with
    | static => exact ⟨_, _, rfl, parts⟩
    | field => exact ⟨_, _, rfl, parts⟩
    | argument | localVar => cases ofClass

theorem varDecs_cutting : varDecs.Cutting := by
  rintro env here _ rest ⟨locals, rfl⟩ ends
  cases locals with
  | nil =>
    have noVar : rest.head? ≠ some (.keyword .kwVar) := fun head => ends _ head rfl
    simp only [List.flatMap_nil, List.nil_append, action, Action.varDecs, if_neg noVar]
    exact rfl
  | cons names locals =>
    have written : (names :: locals).flatMap Names.localTerminals = .keyword .kwVar ::
        (names.terminals ++ .symbol .semicolon :: locals.flatMap Names.localTerminals) := by
      simp [Names.localTerminals]
    rw [written]
    refine ⟨_, _, rfl, _, _, rfl, ⟨names, rfl⟩, fun _ => startsWith_cons _ _, ?_⟩
    refine WriteAll.symbol.2 ⟨_, rfl, WriteAll.report.2 ?_⟩
    exact WriteAll.singleton.2 ⟨⟨locals, rfl⟩, fun _ => ends⟩

theorem moreParameters_cutting : moreParameters.Cutting := by
  rintro env here _ rest ⟨ps, rfl⟩ ends
  cases ps with
  | nil =>
    obtain ⟨rest, rfl⟩ := ends
    exact rfl
  | cons p ps =>
    refine ⟨.symbol .comma, [p.type.terminal, .identifier p.name] ++ Parameter.moreTerminals ps,
      rfl, ?_⟩
    refine ⟨_, _, rfl, ⟨p, rfl⟩, fun _ => trivial, ?_⟩
    exact WriteAll.singleton.2 ⟨⟨ps, rfl⟩, fun _ => ends⟩

theorem parameterList_cutting : parameterList.Cutting := by
  rintro env here _ rest ⟨ps, rfl⟩ ends
  cases ps with
  | nil =>
    obtain ⟨rest, rfl⟩ := ends
    exact WriteAll.report.2 rfl
  | cons p ps =>
    have parts : WriteAll True [.type .parameter, .moreParameters, .report (.closed .parameterList)]
        (Parameter.listTerminals (p :: ps)) rest := by
      refine ⟨[_, _], Parameter.moreTerminals ps, rfl, ⟨p, rfl⟩, fun _ => trivial, ?_⟩
      refine ⟨_, [], (List.append_nil _).symm, ⟨ps, rfl⟩, fun _ => ends, ?_⟩
      exact WriteAll.report.2 rfl
    obtain ⟨t, name⟩ := p
    cases t <;> exact parts

/-! ### Subroutines and classes -/

theorem returnType_cutting : returnType.Cutting := by
  rintro env here _ rest ⟨result, rfl⟩ -
  cases result with
  | none => exact ⟨_, [], rfl, rfl⟩
  | some t =>
    have parts : WriteAll True [type .result] [t.terminal] rest :=
      WriteAll.singleton.2 ⟨⟨t, rfl⟩, fun _ => trivial⟩
    cases t <;> exact parts

theorem subroutineBody_cutting (name : String) : (subroutineBody name).Cutting := by
  rintro env here _ rest ⟨locals, body, rfl⟩ -
  refine WriteAll.symbol.2 ⟨_, rfl, _, _, rfl, ⟨locals, rfl⟩, fun _ => ?_, ?_⟩
  · rw [List.append_assoc]
    exact body.head?_ne_var rest
  · refine ⟨[], _, rfl, rfl, fun _ => trivial,
      WriteAll.statements.2 ⟨body, _, rfl, fun _ => ?_, ?_⟩⟩
    · exact startsWith_cons _ _
    · exact WriteAll.symbol.2 ⟨[], rfl, WriteAll.report.2 rfl⟩

theorem subroutine_cutting (name : String) (site : Nat) : (subroutine name site).Cutting := by
  rintro env here _ rest ⟨s, rfl⟩ -
  refine writeAll_receiver.2 (WriteAll.symbol.2
    ⟨_, rfl, _, _, rfl, ⟨s.parameters, rfl⟩, fun _ => ?_, ?_⟩)
  · exact startsWith_cons _ _
  · refine WriteAll.symbol.2
      ⟨_, rfl, WriteAll.singleton.2 ⟨⟨s.locals, s.body, rfl⟩, fun _ => trivial⟩⟩

theorem subroutineName_cutting : subroutineName.Cutting := by
  rintro env here _ rest ⟨s, rfl⟩ -
  exact ⟨_, _, rfl, WriteAll.singleton.2 ⟨⟨s, rfl⟩, fun _ => trivial⟩⟩

theorem subroutineDecs_cutting : subroutineDecs.Cutting := by
  rintro env here _ rest ⟨ss, rfl⟩ ends
  cases ss with
  | nil =>
    obtain ⟨rest, rfl⟩ := ends
    exact rfl
  | cons s ss =>
    have parts : WriteAll True [returnType, subroutineName, report (.closed .subroutineDec),
        subroutineDecs] (TypeName.resultTerminal s.result :: .identifier s.name ::
          (s.moreTerminals ++ ss.flatMap SubroutineDec.terminals)) rest := by
      refine ⟨[_], _, rfl, ⟨s.result, rfl⟩, fun _ => trivial, ?_⟩
      refine ⟨_ :: _, _, rfl, ⟨s, rfl⟩, fun _ => trivial, WriteAll.report.2 ?_⟩
      exact WriteAll.singleton.2 ⟨⟨ss, rfl⟩, fun _ => ends⟩
    obtain ⟨kind, result, name, parameters, locals, body⟩ := s
    cases kind <;> exact ⟨_, _, rfl, parts⟩

theorem className_cutting : className.Cutting := by
  rintro env here _ rest ⟨name, rfl⟩ -
  exact ⟨_, [], rfl, WriteAll.report.2 rfl⟩

theorem classWord_cutting : classWord.Cutting := by
  rintro env here _ rest rfl -
  exact ⟨_, [], rfl, rfl⟩

theorem classDec_cutting : classDec.Cutting := by
  rintro env here _ rest ⟨d, rfl⟩ -
  refine ⟨[_], _, rfl, rfl, fun _ => trivial, [_], _, rfl, ⟨d.name, rfl⟩, fun _ => trivial, ?_⟩
  refine WriteAll.symbol.2 ⟨_, rfl, _, _, rfl, ⟨d.classVars, rfl⟩, fun _ => ?_, ?_⟩
  · rw [List.append_assoc]
    exact ClassDec.head?_subroutines_ne d.subroutines rest
  · refine ⟨_, _, rfl, ⟨d.subroutines, rfl⟩, fun _ => startsWith_cons _ _, ?_⟩
    exact WriteAll.symbol.2 ⟨[], rfl, WriteAll.report.2 rfl⟩

/-! ### All goals -/

theorem symbol_cutting (s : Symbol) : (symbol s).Cutting := by
  rintro env here _ rest rfl -
  simp only [action, Action.ofSymbol, List.cons_append, List.head?_cons, if_true]
  exact ⟨_, [], rfl, rfl⟩

theorem endOfText_cutting : endOfText.Cutting := by
  rintro env here _ rest rfl rfl
  exact rfl

/-- What a goal is written with, the goals that replace it are written with. -/
theorem action_cuts (goal : Goal) : goal.Cutting := by
  cases goal with
  | report event => exact fun _ _ _ _ h _ => h
  | emit i => exact fun _ _ _ _ h _ => h
  | symbol s => exact symbol_cutting s
  | endOfText => exact endOfText_cutting
  | classDec => exact classDec_cutting
  | classWord => exact classWord_cutting
  | className => exact className_cutting
  | classVarDecs => exact classVarDecs_cutting
  | type use => exact type_cutting use
  | newName kind ty => exact newName_cutting kind ty
  | declare kind ty name site => exact declare_cutting kind ty name site
  | moreNames kind ty => exact moreNames_cutting kind ty
  | subroutineDecs => exact subroutineDecs_cutting
  | returnType => exact returnType_cutting
  | subroutineName => exact subroutineName_cutting
  | subroutine name site => exact subroutine_cutting name site
  | parameterList => exact parameterList_cutting
  | moreParameters => exact moreParameters_cutting
  | subroutineBody name => exact subroutineBody_cutting name
  | varDecs => exact varDecs_cutting
  | prologue name => exact fun _ _ _ _ h _ => WriteAll.map_emit.2 h
  | statements => exact statements_cutting
  | moreStatements => exact moreStatements_cutting
  | letTarget => exact letTarget_cutting
  | assign name site => exact assign_cutting name site
  | assignTo target => exact assignTo_cutting target
  | elsePart => exact elsePart_cutting
  | returnValue => exact returnValue_cutting
  | callee => exact callee_cutting
  | expression => exact expression_cutting
  | operators => exact operators_cutting
  | term => exact term_cutting
  | operand => exact operand_cutting
  | stringConstant text site => exact stringConstant_cutting text site
  | characters text site => exact characters_cutting text site
  | named name site => exact named_cutting name site
  | load name site => exact load_cutting name site
  | element name site => exact element_cutting name site
  | call name site => exact call_cutting name site
  | member receiver site => exact member_cutting receiver site
  | dispatch receiver site name => exact dispatch_cutting receiver site name
  | arguments target count => exact arguments_cutting target count
  | expressionList target count => exact expressionList_cutting target count
  | moreArguments target count => exact moreArguments_cutting target count

end Goal

/-! ## The end of the text is the last goal -/

/-- The goals that an action puts on the stack. -/
def Action.next : Action → List Goal
  | expand _ next _ | accept _ next _ => next
  | reject _ | refuse .. | emit _ => []

theorem Goal.endOfText_not_mem_next (goal : Goal) (env : Env) (here : Nat)
    (ahead : Option Terminal) : .endOfText ∉ (goal.action env here ahead).next := by
  cases goal
  case prologue name => simp [action, Action.prologue, Action.next]
  case type use =>
    simp only [action, Action.type]
    split <;> cases use <;> simp [Action.next, TypeUse.goals]
  all_goals
    simp only [action, Action.ofSymbol, Action.endOfText, Action.classDec, Action.classWord,
      Action.className, Action.classVarDecs, Action.classVarDecs.declaration,
      Action.newName, Action.declare, Action.moreNames, Action.subroutineDecs,
      Action.subroutineDecs.declaration, Action.returnType, Action.subroutineName,
      Action.subroutine, Action.subroutine.receiver, Action.parameterList, Action.moreParameters,
      Action.subroutineBody, Action.varDecs, Action.statements,
      Action.moreStatements, Action.moreStatements.statement, Action.letTarget, Action.assign,
      Action.assignTo, Action.elsePart, Action.returnValue, Action.callee, Action.expression,
      Action.operators, Action.term, Action.operand, Action.stringConstant, Action.characters,
      Action.named, Action.load, Action.element, Action.call, Action.member, Action.dispatch,
      Action.arguments, Action.expressionList, Action.moreArguments, Action.ofName, Action.ofSlot]
    repeat' split
  all_goals
    simp [Action.next, condition, block, ifStatement, whileStatement, doStatement,
      returnStatement, assignElement, endOfCall]

/-- Nothing is to be done behind the end of the text. -/
def EndsLast (goals : List Goal) : Prop :=
  ∀ before after, goals = before ++ .endOfText :: after → after = []

theorem EndsLast.replace {g : Goal} {k next : List Goal} (last : EndsLast (g :: k))
    (none : .endOfText ∉ next) : EndsLast (next ++ k) := by
  intro before after parts
  rcases List.append_eq_append_iff.1 parts with ⟨rest, rfl, tail⟩ | ⟨rest, rfl, tail⟩
  · exact last (g :: rest) after (congrArg (g :: ·) tail)
  · cases rest with
    | nil => exact last [g] after (congrArg (g :: ·) tail.symm)
    | cons h rest =>
      obtain ⟨rfl, -⟩ := List.cons.inj tail
      exact absurd (List.mem_append_right _ (.head _)) none

/-- The first of some goals cuts what all of them are written with. -/
theorem WriteAll.exists_cut {g : Goal} {k : List Goal} {ts : List Terminal}
    (written : WriteAll True (g :: k) ts []) (env : Env) (here : Nat) :
    ∃ ts₁ ts₂, ts = ts₁ ++ ts₂ ∧ (g.action env here ts.head?).Cuts ts₁ ts₂ ∧
      WriteAll True k ts₂ [] := by
  obtain ⟨ts₁, ts₂, rfl, first, ends, others⟩ := written
  rw [List.append_nil] at ends
  exact ⟨ts₁, ts₂, rfl, g.action_cuts env here ts₁ ts₂ first (ends trivial), others⟩

namespace Machine

variable {ending : Option LexCause} {m z : Machine} {es : List Event} {ts : List Terminal}

theorem Reaches.endsLast (reached : Reaches ending m es z) (last : EndsLast m.goals) :
    EndsLast z.goals := by
  induction reached with
  | refl m => exact last
  | emit _ _ ih => exact ih (last.replace List.not_mem_nil)
  | @expand g k next ahead site env _ _ _ _ act _ ih =>
    have none := g.endOfText_not_mem_next env site ahead.head?
    rw [act] at none
    exact ih (last.replace none)
  | @accept g k next t ahead site env _ _ _ _ act _ _ ih =>
    have none := g.endOfText_not_mem_next env site (some t)
    rw [act] at none
    exact ih (last.replace none)

theorem start_endsLast (terminals : List Terminal) : EndsLast (start terminals).goals := by
  intro before after parts
  cases before with
  | nil => cases parts
  | cons g before =>
    cases before with
    | nil =>
      cases parts
      rfl
    | cons h before =>
      have lengths := congrArg List.length parts
      simp [start] at lengths

/-! ## Whole passes -/

/-- What goes on like the terminals ahead starts like them. -/
theorem Reaches.head?_terminalsOf (reached : Reaches ending m es z)
    (quiet : ∀ g ∈ m.goals, g.Quiet) (same : ts.head? = z.ahead.head?) :
    (terminalsOf es ++ ts).head? = m.ahead.head? := by
  rw [(reached.terminals quiet).1, List.head?_append, List.head?_append, same]

/-- If what goals are written with starts with the terminals that a pass consumes and goes on with
the terminal ahead, the goals then are written with what is left of it. -/
theorem Reaches.cutAll (reached : Reaches ending m es z) (quiet : ∀ g ∈ m.goals, g.Quiet)
    (same : ts.head? = z.ahead.head?) (written : WriteAll True m.goals (terminalsOf es ++ ts) []) :
    WriteAll True z.goals ts [] := by
  induction reached with
  | refl m => exact written
  | @emit g k ahead site env i es z act rest ih =>
    obtain ⟨ts₁, ts₂, all, cuts, others⟩ := written.exists_cut env site
    rw [(Reaches.emit act rest).head?_terminalsOf quiet same, act] at cuts
    obtain rfl : ts₁ = [] := cuts
    rw [List.nil_append] at all
    subst all
    exact ih (List.forall_mem_cons.1 quiet).2 same others
  | @expand g k next ahead site env env' events es z act rest ih =>
    obtain ⟨first, others⟩ := List.forall_mem_cons.1 quiet
    have acted := Goal.action_quiet first env site ahead.head?
    obtain ⟨ts₁, ts₂, all, cuts, behind⟩ := written.exists_cut env site
    rw [(Reaches.expand act rest).head?_terminalsOf quiet same, act] at cuts
    rw [act] at acted
    rw [terminalsOf_append, acted.1, List.nil_append] at all
    refine ih (List.forall_mem_append.2 ⟨acted.2, others⟩) same ?_
    refine WriteAll.append.2 ⟨ts₁, ts₂, all, ?_, behind⟩
    rwa [List.append_nil]
  | @accept g k next t ahead site env env' events es z act more rest ih =>
    obtain ⟨first, others⟩ := List.forall_mem_cons.1 quiet
    have acted := Goal.action_quiet first env site (some t)
    obtain ⟨ts₁, ts₂, all, cuts, behind⟩ := written.exists_cut env site
    rw [(Reaches.accept act more rest).head?_terminalsOf quiet same, List.head?_cons, act] at cuts
    rw [act] at acted
    obtain ⟨u, ts₁, rfl, replaced⟩ := cuts
    rw [terminalsOf_append, acted.1] at all
    obtain ⟨rfl, left⟩ := List.cons.inj all
    refine ih (List.forall_mem_append.2 ⟨acted.2, others⟩) same ?_
    refine WriteAll.append.2 ⟨ts₁, ts₂, left, ?_, behind⟩
    rwa [List.append_nil]

end Machine

/-! ## Terminals that cannot stand where they do -/

/-- A list of terminals that is a class. -/
def Sentence (ts : List Terminal) : Prop :=
  ∃ d : ClassDec, d.terminals = ts

theorem writeAll_start {cut : Prop} {ts : List Terminal} :
    WriteAll cut [.classDec, .endOfText] ts [] ↔ Sentence ts := by
  constructor
  · rintro ⟨_, _, rfl, ⟨d, rfl⟩, -, last⟩
    obtain ⟨rfl, -⟩ := WriteAll.singleton.1 last
    exact ⟨d, (List.append_nil _).symm⟩
  · rintro ⟨d, rfl⟩
    refine ⟨d.terminals, [], (List.append_nil _).symm, ⟨d, rfl⟩, fun _ => trivial, ?_⟩
    exact WriteAll.singleton.2 ⟨rfl, fun _ => rfl⟩

/-- The terminal at index `k`, or the end of all terminals, is the first that cannot stand where it
does, and what should stand there could.
* What stands before is the beginning of a class.
* No class begins like that and goes on with the terminal at `k`, or ends there.
* A terminal of the class that is named can stand there instead, or the class can end. -/
structure FirstImpossible (ts : List Terminal) (k : Nat) (what : Expectation) : Prop where
  begins : ∃ more, (∀ t ∈ more, t.Readable) ∧ Sentence (ts.take k ++ more)
  impossible : ∀ t, ts[k]? = some t → ∀ more, ¬Sentence (ts.take k ++ t :: more)
  unfinished : ts[k]? = none → ¬Sentence ts
  expected : what = .endOfText ∧ Sentence (ts.take k) ∨
    ∃ t more, what.Admits t ∧ (∀ u ∈ t :: more, u.Readable) ∧ Sentence (ts.take k ++ t :: more)

theorem Lexer.Reading.Reaches.firstImpossible {r : Lexer.Reading} {es : List Event} {g : Goal}
    {k : List Goal} {ahead : List Terminal} {site : Nat} {env : Env} {what : Expectation}
    (reaches : r.Reaches es ⟨g :: k, ahead, site, env⟩)
    (act : g.action env site ahead.head? = .reject what) :
    FirstImpossible (r.tokens.map (·.terminal)) site what := by
  have quiet := Machine.start_quiet (r.tokens.map (·.terminal))
  obtain ⟨read, count⟩ := reaches.terminals
  obtain rfl : site = (terminalsOf es).length := count
  -- nothing that the goals are written with starts with the terminal ahead
  have none {ts : List Terminal} (same : ts.head? = ahead.head?) :
      ¬Sentence (terminalsOf es ++ ts) := by
    intro sentence
    have left := reaches.reached.cutAll quiet same (writeAll_start.2 sentence)
    obtain ⟨ts₁, ts₂, -, cuts, -⟩ := left.exists_cut env (terminalsOf es).length
    rw [same, act] at cuts
    exact cuts
  have before : (terminalsOf es ++ ahead).take (terminalsOf es).length = terminalsOf es :=
    List.take_left
  have here : (terminalsOf es ++ ahead)[(terminalsOf es).length]? = ahead.head? := by
    rw [List.getElem?_append_right (Nat.le_refl _), Nat.sub_self, List.head?_eq_getElem?]
  rw [read]
  constructor
  case begins =>
    obtain ⟨more, written, readable⟩ := exists_writeAll (g :: k)
    rw [before]
    exact ⟨more, readable, writeAll_start.1 (reaches.reached.writeAll quiet written)⟩
  case impossible =>
    intro t there more
    rw [before]
    exact none ((here.symm.trans there).symm)
  case unfinished =>
    intro there
    exact none rfl
  case expected =>
    have yields := g.action_yields env (terminalsOf es).length ahead.head?
    rw [act] at yields
    rw [before]
    rcases yields with ⟨rfl, rfl⟩ | ⟨t, ts, admits, readable, writes⟩
    · obtain rfl := reaches.reached.endsLast (Machine.start_endsLast _) [] k rfl
      have written : WriteAll False [.endOfText] [] [] :=
        WriteAll.singleton.2 ⟨rfl, False.elim⟩
      have sentence := writeAll_start.1 (reaches.reached.writeAll quiet written)
      rw [List.append_nil] at sentence
      exact .inl ⟨rfl, sentence⟩
    · obtain ⟨more, others, readable'⟩ := exists_writeAll k
      have written : WriteAll False (g :: k) (t :: ts ++ more) [] :=
        ⟨t :: ts, more, rfl, writes, False.elim, others⟩
      refine .inr ⟨t, ts ++ more, admits, ?_, ?_⟩
      · exact List.forall_mem_append.2 ⟨readable, readable'⟩
      · exact writeAll_start.1 (reaches.reached.writeAll quiet written)

/-- What the source has where an error is, in quotes, or a mark for the end of the text. -/
inductive Found (source : String) : Option Token → String → Prop
  | token {t : Token} : t.Spells source → Found source (some t) ("`" ++ t.lexeme ++ "`")
  | atEnd : Found source none "<eof>"

theorem exists_found {source : String} (token : Option Token)
    (spelled : ∀ t ∈ token, t.Spells source) (what : Expectation) :
    ∃ found, Found source token found ∧
      (Fault.expected what).message token = "expected `" ++ what.text ++ "`, got " ++ found := by
  cases token with
  | none => exact ⟨_, .atEnd, rfl⟩
  | some t => exact ⟨_, .token (spelled t rfl), rfl⟩

/-- A syntax error is reported at the first token that cannot stand where it does, or at the end of
the tokens of a text that has no error; a lexical error is the first of the text. -/
theorem syntax_error_of_compile_eq_error {source : String} {e : CompileError}
    (failed : compile source = .error e) :
    (∀ what, e.fault = .expected what →
      ∃ (tokens : List Token) (rest : List Item) (k : Nat) (found : String),
        (Lexer.ofString source).items.1 = tokens.map .ok ++ rest ∧
        (k < tokens.length ∨ k = tokens.length ∧ rest = []) ∧
        FirstImpossible (tokens.map (·.terminal)) k what ∧
        e.token = tokens[k]? ∧ Found source e.token found ∧
        e.message = "ParseError at line " ++ toString e.line ++ ": " ++
          ("expected `" ++ what.text ++ "`, got " ++ found)) ∧
    ∀ cause, e.fault = .lexical cause →
      ∃ (tokens : List Token) (error : LexError) (rest : List Item),
        (Lexer.ofString source).items.1 = tokens.map .ok ++ .error error :: rest ∧
        error.cause = cause ∧ error.line = e.line := by
  obtain ⟨es, ⟨fault, site⟩, stops, rfl⟩ := exists_stops_of_compile_eq_error failed
  rw [Lexer.Reading.fault_locate, Lexer.Reading.token_locate]
  constructor
  · rintro what rfl
    obtain ⟨g, k, ahead, env, reaches, act⟩ := stops.rejected
    obtain ⟨read, count⟩ := reaches.terminals
    obtain ⟨found, spelled, message⟩ :=
      exists_found (Lexer.ofString source).read.tokens[site]?
        (fun t mem => Lexer.spells_of_mem_read (List.mem_of_getElem? mem)) what
    have texts : ((Lexer.ofString source).read.locate ⟨.expected what, site⟩).message =
        "ParseError at line " ++
          toString ((Lexer.ofString source).read.locate ⟨.expected what, site⟩).line ++ ": " ++
          ("expected `" ++ what.text ++ "`, got " ++ found) := by
      unfold CompileError.message
      rw [Lexer.Reading.fault_locate, Lexer.Reading.token_locate, message]
    -- a lexical error stands behind the tokens, and then one of them is left
    obtain ⟨rest, items, atEnd⟩ : ∃ rest, (Lexer.ofString source).items.1 =
        (Lexer.ofString source).read.tokens.map .ok ++ rest ∧ (ahead = [] → rest = []) := by
      rcases (Lexer.ofString source).exists_items_eq_append with ⟨-, all⟩ | ⟨error, rest, some, all⟩
      · exact ⟨[], all.trans (List.append_nil _).symm, fun _ => rfl⟩
      · refine ⟨_, all, fun empty => ?_⟩
        cases some.symm.trans (reaches.failure_eq_none empty)
    have lengths : (Lexer.ofString source).read.tokens.length = site + ahead.length := by
      have sum := congrArg List.length read
      rwa [List.length_map, List.length_append, ← count] at sum
    refine ⟨_, rest, site, found, items, ?_, reaches.firstImpossible act, rfl, spelled, texts⟩
    cases ahead with
    | nil => exact .inr ⟨lengths.symm, atEnd rfl⟩
    | cons t ahead =>
      left
      rw [lengths, List.length_cons]
      omega
  · rintro cause rfl
    obtain ⟨rfl, failure⟩ := stops.lexical
    rcases (Lexer.ofString source).exists_items_eq_append with ⟨none, -⟩ | ⟨error, rest, some, all⟩
    · rw [none] at failure
      cases failure
    · refine ⟨_, error, rest, all, ?_, ?_⟩
      · rw [some] at failure
        exact Option.some.inj failure
      · unfold Lexer.Reading.locate Lexer.Reading.lastLine
        simp only [List.getElem?_length, some]

def strayLet : String :=
  "class A { let x = 1; }"

theorem syntax_error_of_strayLet :
    ∃ (tokens : List Token) (rest : List Item) (k : Nat) (found : String),
      (Lexer.ofString strayLet).items.1 = tokens.map .ok ++ rest ∧
      (k < tokens.length ∨ k = tokens.length ∧ rest = []) ∧
      FirstImpossible (tokens.map (·.terminal)) k (.symbol .rightBrace) ∧
      some ⟨.keyword .kwLet, "let", ⟨10, 13⟩, 1⟩ = tokens[k]? ∧
      Found strayLet (some ⟨.keyword .kwLet, "let", ⟨10, 13⟩, 1⟩) found ∧
      "ParseError at line 1: expected `\x7d`, got `let`" =
        "ParseError at line " ++ toString 1 ++ ": " ++
          ("expected `" ++ (Expectation.symbol .rightBrace).text ++ "`, got " ++ found) := by
  have failed : compile strayLet =
      .error ⟨.expected (.symbol .rightBrace), some ⟨.keyword .kwLet, "let", ⟨10, 13⟩, 1⟩, 1⟩ := by
    decide +kernel
  exact (syntax_error_of_compile_eq_error failed).1 _ rfl

end JackToVm
