import JackToVm.Proofs.Ending
import JackToVm.Proofs.Unambiguity

/-!
# Sentences of goals

What a stack of goals can be written with, whatever was declared before: the trees of its goals one
behind the other (`WriteAll`). It tells which terminals a pass can still go on with.

Results.
1. What the goals that replace a goal are written with, the goal is written with itself
   (`Goal.action_yields`). So the terminals that a pass has consumed, and what its goals are written
   with, are what it started with (`Machine.Reaches.writeAll`).
2. All goals can be written with something that the lexer reads (`exists_writeAll`).
-/

namespace JackToVm

/-! ## What goals are written with -/

/-- What stands behind the name that a `let` assigns to. -/
def WritesAssignment (ts : List Terminal) : Prop :=
  (∃ e : Expression, ts = .symbol .equals :: (e.terminals ++ [.symbol .semicolon])) ∨
    ∃ i e : Expression, ts = .symbol .leftBracket ::
      (i.terminals ++ .symbol .rightBracket :: .symbol .equals ::
        (e.terminals ++ [.symbol .semicolon]))

/-- The terminals that a goal can be written with. -/
def Goal.Writes (goal : Goal) (ts : List Terminal) : Prop :=
  match goal with
  -- acts
  | report _ | emit _ | prologue _ | endOfText | declare .. | load .. | stringConstant ..
  | characters .. => ts = []
  -- terminals
  | symbol s => ts = [.symbol s]
  -- declarations
  | classDec => ∃ d : ClassDec, ts = d.terminals
  | classWord => ts = [.keyword .kwClass]
  | className | newName .. => ∃ name, ts = [.identifier name]
  | classVarDecs => ∃ vars : List ClassVarDec, ts = vars.flatMap ClassVarDec.terminals
  | type (.names _) => ∃ names : Names, ts = names.terminals
  | type .parameter => ∃ p : Parameter, ts = [p.type.terminal, .identifier p.name]
  | type .result => ∃ t : TypeName, ts = [t.terminal]
  | moreNames .. => ∃ names, ts = Names.moreTerminals names
  | subroutineDecs => ∃ ss : List SubroutineDec, ts = ss.flatMap SubroutineDec.terminals
  | returnType => ∃ result, ts = [TypeName.resultTerminal result]
  | subroutineName => ∃ s : SubroutineDec, ts = .identifier s.name :: s.moreTerminals
  | subroutine .. => ∃ s : SubroutineDec, ts = s.moreTerminals
  | parameterList => ∃ ps, ts = Parameter.listTerminals ps
  | moreParameters => ∃ ps, ts = Parameter.moreTerminals ps
  | subroutineBody _ =>
    ∃ (locals : List Names) (body : Statements),
      ts = .symbol .leftBrace :: (locals.flatMap Names.localTerminals ++
        (body.terminals ++ [.symbol .rightBrace]))
  | varDecs => ∃ locals : List Names, ts = locals.flatMap Names.localTerminals
  -- statements
  | statements | moreStatements => ∃ ss : Statements, ts = ss.terminals
  | letTarget => ∃ name ts', ts = .identifier name :: ts' ∧ WritesAssignment ts'
  | assign .. | assignTo _ => WritesAssignment ts
  | elsePart =>
    ts = [] ∨ ∃ other : Statements,
      ts = .keyword .kwElse :: .symbol .leftBrace :: (other.terminals ++ [.symbol .rightBrace])
  | returnValue => ts = [] ∨ ∃ e : Expression, ts = e.terminals
  | callee => ∃ call : Call, ts = call.terminals
  -- expressions
  | expression => ∃ e : Expression, ts = e.terminals
  | operators => ∃ ops : Operations, ts = ops.terminals
  | term | operand => ∃ t : Term, ts = t.terminals
  | named .. =>
    ts = [] ∨
      (∃ e : Expression, ts = .symbol .leftBracket :: (e.terminals ++ [.symbol .rightBracket])) ∨
      ∃ call : Call, ts = call.moreTerminals
  | element .. => ∃ e : Expression, ts = e.terminals ++ [.symbol .rightBracket]
  | call .. => ∃ call : Call, ts = call.moreTerminals
  | member .. =>
    ∃ (name : String) (as : Arguments),
      ts = .identifier name :: .symbol .leftParen :: (as.terminals ++ [.symbol .rightParen])
  | dispatch .. | arguments .. =>
    ∃ as : Arguments, ts = .symbol .leftParen :: (as.terminals ++ [.symbol .rightParen])
  | expressionList .. => ∃ as : Arguments, ts = as.terminals ++ [.symbol .rightParen]
  | moreArguments .. => ∃ as : Arguments, ts = as.moreTerminals ++ [.symbol .rightParen]

/-- What stands behind a goal does not go on with it. -/
def Goal.EndedBy (goal : Goal) (rest : List Terminal) : Prop :=
  match goal with
  | expression | operators => EndsExpression rest
  | term | operand | named .. => EndsTerm rest
  | statements | moreStatements | subroutineDecs => StartsWith .rightBrace rest
  | elsePart => EndsStatement rest
  | returnValue | moreNames .. | type (.names _) => StartsWith .semicolon rest
  | parameterList | moreParameters => StartsWith .rightParen rest
  | classVarDecs => ∀ t ∈ rest.head?, ¬ (t = .keyword .kwStatic ∨ t = .keyword .kwField)
  | varDecs => ∀ t ∈ rest.head?, t ≠ .keyword .kwVar
  | endOfText => rest = []
  | _ => True

/-- The terminals that goals are written with one behind the other, with `rest` behind all of them.
If they are `cut`, what stands behind a goal ends it. -/
def WriteAll (cut : Prop) : List Goal → List Terminal → List Terminal → Prop
  | [], ts, _ => ts = []
  | g :: gs, ts, rest =>
    ∃ ts₁ ts₂, ts = ts₁ ++ ts₂ ∧ g.Writes ts₁ ∧ (cut → g.EndedBy (ts₂ ++ rest)) ∧
      WriteAll cut gs ts₂ rest

namespace WriteAll

variable {cut : Prop} {gs k : List Goal} {ts rest : List Terminal}

@[simp]
theorem nil : WriteAll cut [] ts rest ↔ ts = [] := Iff.rfl

/-- A goal that is an act is written with nothing. -/
theorem act {g : Goal} (silent : ∀ ts, g.Writes ts ↔ ts = []) (free : ∀ ts, g.EndedBy ts) :
    WriteAll cut (g :: gs) ts rest ↔ WriteAll cut gs ts rest := by
  constructor
  · rintro ⟨ts₁, ts₂, rfl, first, -, others⟩
    obtain rfl := (silent ts₁).1 first
    exact others
  · intro others
    exact ⟨[], ts, rfl, (silent []).2 rfl, fun _ => free _, others⟩

@[simp]
theorem report {e : Event} : WriteAll cut (.report e :: gs) ts rest ↔ WriteAll cut gs ts rest :=
  act (fun _ => .rfl) fun _ => trivial

@[simp]
theorem emit {i : Instruction} : WriteAll cut (.emit i :: gs) ts rest ↔ WriteAll cut gs ts rest :=
  act (fun _ => .rfl) fun _ => trivial

@[simp]
theorem map_emit {code : List Instruction} : WriteAll cut (code.map .emit) ts rest ↔ ts = [] := by
  induction code with
  | nil => exact Iff.rfl
  | cons i code ih => rw [List.map_cons, emit, ih]

@[simp]
theorem symbol {s : Symbol} : WriteAll cut (.symbol s :: gs) ts rest ↔
    ∃ ts', ts = .symbol s :: ts' ∧ WriteAll cut gs ts' rest := by
  constructor
  · rintro ⟨_, ts', rfl, rfl, -, others⟩
    exact ⟨ts', rfl, others⟩
  · rintro ⟨ts', rfl, others⟩
    exact ⟨_, ts', rfl, rfl, fun _ => trivial, others⟩

@[simp]
theorem expression : WriteAll cut (.expression :: gs) ts rest ↔
    ∃ (e : Expression) (ts' : List Terminal), ts = e.terminals ++ ts' ∧
      (cut → EndsExpression (ts' ++ rest)) ∧ WriteAll cut gs ts' rest := by
  constructor
  · rintro ⟨_, ts', rfl, ⟨e, rfl⟩, ends, others⟩
    exact ⟨e, ts', rfl, ends, others⟩
  · rintro ⟨e, ts', rfl, ends, others⟩
    exact ⟨_, ts', rfl, ⟨e, rfl⟩, ends, others⟩

@[simp]
theorem term : WriteAll cut (.term :: gs) ts rest ↔
    ∃ (t : Term) (ts' : List Terminal), ts = t.terminals ++ ts' ∧
      (cut → EndsTerm (ts' ++ rest)) ∧ WriteAll cut gs ts' rest := by
  constructor
  · rintro ⟨_, ts', rfl, ⟨t, rfl⟩, ends, others⟩
    exact ⟨t, ts', rfl, ends, others⟩
  · rintro ⟨t, ts', rfl, ends, others⟩
    exact ⟨_, ts', rfl, ⟨t, rfl⟩, ends, others⟩

@[simp]
theorem statements : WriteAll cut (.statements :: gs) ts rest ↔
    ∃ (ss : Statements) (ts' : List Terminal), ts = ss.terminals ++ ts' ∧
      (cut → StartsWith .rightBrace (ts' ++ rest)) ∧ WriteAll cut gs ts' rest := by
  constructor
  · rintro ⟨_, ts', rfl, ⟨ss, rfl⟩, ends, others⟩
    exact ⟨ss, ts', rfl, ends, others⟩
  · rintro ⟨ss, ts', rfl, ends, others⟩
    exact ⟨_, ts', rfl, ⟨ss, rfl⟩, ends, others⟩

theorem singleton {g : Goal} :
    WriteAll cut [g] ts rest ↔ g.Writes ts ∧ (cut → g.EndedBy rest) := by
  constructor
  · rintro ⟨ts₁, _, rfl, writes, ends, rfl⟩
    rw [List.append_nil]
    exact ⟨writes, ends⟩
  · rintro ⟨writes, ends⟩
    exact ⟨ts, [], (List.append_nil ts).symm, writes, ends, rfl⟩

theorem append : WriteAll cut (gs ++ k) ts rest ↔
    ∃ ts₁ ts₂, ts = ts₁ ++ ts₂ ∧ WriteAll cut gs ts₁ (ts₂ ++ rest) ∧ WriteAll cut k ts₂ rest := by
  induction gs generalizing ts with
  | nil =>
    constructor
    · intro others
      exact ⟨[], ts, rfl, rfl, others⟩
    · rintro ⟨_, _, rfl, rfl, others⟩
      exact others
  | cons g gs ih =>
    constructor
    · rintro ⟨ts₁, _, rfl, first, ends, others⟩
      obtain ⟨ts₂, ts₃, rfl, second, third⟩ := ih.1 others
      rw [List.append_assoc] at ends
      exact ⟨ts₁ ++ ts₂, ts₃, (List.append_assoc ..).symm, ⟨ts₁, ts₂, rfl, first, ends, second⟩,
        third⟩
    · rintro ⟨_, ts₃, rfl, ⟨ts₁, ts₂, rfl, first, ends, second⟩, third⟩
      refine ⟨ts₁, ts₂ ++ ts₃, List.append_assoc .., first, ?_, ih.2 ⟨ts₂, ts₃, rfl, second, third⟩⟩
      rwa [List.append_assoc]

/-- Without cuts it does not matter what stands behind the goals. -/
theorem irrelevant (rest' : List Terminal) (h : WriteAll False gs ts rest) :
    WriteAll False gs ts rest' := by
  induction gs generalizing ts with
  | nil => exact h
  | cons g gs ih =>
    obtain ⟨ts₁, ts₂, rfl, first, -, others⟩ := h
    exact ⟨ts₁, ts₂, rfl, first, False.elim, ih others⟩

end WriteAll

/-! ## What goals are written with, from the goals that replace them -/

/-- A terminal that a term starts with. -/
def Terminal.StartsTerm : Terminal → Prop
  | integer _ | string _ | identifier _ => True
  | keyword word => ∃ w : ConstantWord, w.keyword = word
  | symbol s => s = .leftParen ∨ ∃ o : UnaryOperator, o.symbol = s

/-- The terminals of the class that an expectation names. The end of the text is none. -/
def Expectation.Admits (what : Expectation) (t : Terminal) : Prop :=
  match what with
  | classWord => t = .keyword .kwClass
  | identifier => ∃ name, t = .identifier name
  | type => ∃ ty : TypeName, t = ty.terminal
  | term => t.StartsTerm
  | symbol s => t = .symbol s
  | endOfText | token => False

/-- What the goals of an action are written with, a goal is written with, with the terminal in front
that the action accepts. Where it rejects the terminal ahead, the goal can be written with another
one, unless it is the end of the text. -/
def Action.Yields (act : Action) (ahead : Option Terminal) (goal : Goal) : Prop :=
  match act with
  | emit _ => goal.Writes []
  | expand _ next _ => ∀ ts, WriteAll False next ts [] → goal.Writes ts
  | accept _ next _ => ∀ t ts, ahead = some t → WriteAll False next ts [] → goal.Writes (t :: ts)
  | reject what =>
    what = .endOfText ∧ goal = .endOfText ∨
      ∃ t ts, what.Admits t ∧ (∀ u ∈ t :: ts, u.Readable) ∧ goal.Writes (t :: ts)
  | refuse .. => True

/-- The action of a goal yields what the goal is written with. -/
def Goal.Yielding (goal : Goal) : Prop :=
  ∀ (env : Env) (here : Nat) (ahead : Option Terminal),
    (goal.action env here ahead).Yields ahead goal

theorem Action.ofSlot_yields {ahead : Option Terminal} {use : Slot → Action} {env : Env}
    {name : String} {site : Nat} {goal : Goal} (h : ∀ slot, (use slot).Yields ahead goal) :
    (ofSlot env name site use).Yields ahead goal := by
  unfold ofSlot
  split
  · exact h _
  · trivial

theorem isName_x : IsName "x" := by
  refine ⟨by decide, 'x', [], by decide, by decide, by simp⟩

theorem Action.ofName_yields {ahead : Option Terminal} {use : String → Action}
    {goal : Goal} (ts : List Terminal)
    (h : ∀ name, (use name).Yields (some (.identifier name)) goal)
    (readable : ∀ u ∈ ts, u.Readable) (other : goal.Writes (.identifier "x" :: ts)) :
    (ofName ahead use).Yields ahead goal := by
  unfold ofName
  split
  · exact h _
  · exact .inr ⟨_, ts, ⟨"x", rfl⟩, List.forall_mem_cons.2 ⟨isName_x, readable⟩, other⟩

namespace Goal

/-! ### Expressions -/

theorem expression_yielding : expression.Yielding := by
  intro env here ahead ts h
  rw [WriteAll.term] at h
  obtain ⟨t, _, rfl, -, _, _, rfl, ⟨ops, rfl⟩, -, last⟩ := h
  rw [WriteAll.report, WriteAll.nil] at last
  subst last
  exact ⟨.of t ops, by rw [List.append_nil, Expression.terminals]⟩

theorem operators_yielding : operators.Yielding := by
  intro env here ahead
  have none : ∀ ts, WriteAll False [] ts [] → operators.Writes ts := fun ts h => ⟨.nil, h⟩
  simp only [action, Action.operators]
  split
  · split
    · next s _ found =>
      obtain ⟨o, rfl⟩ := BinaryOperator.exists_of_binary? found
      rintro _ ts ⟨⟩ h
      rw [WriteAll.term] at h
      obtain ⟨t, _, rfl, -, more⟩ := h
      rw [WriteAll.emit, WriteAll.singleton] at more
      obtain ⟨⟨ops, rfl⟩, -⟩ := more
      exact ⟨.cons o t ops, rfl⟩
    · exact none
  · exact none

theorem term_yielding : term.Yielding := by
  intro env here ahead ts h
  obtain ⟨ts, _, rfl, ⟨t, rfl⟩, -, last⟩ := h
  rw [WriteAll.report, WriteAll.nil] at last
  subst last
  exact ⟨t, List.append_nil _⟩

theorem operand_yielding : operand.Yielding := by
  intro env here ahead
  have word (w : ConstantWord) (code : List Instruction) (ts : List Terminal)
      (h : WriteAll False (code.map emit) ts []) : operand.Writes (.keyword w.keyword :: ts) := by
    rw [WriteAll.map_emit] at h
    subst h
    exact ⟨.word w, rfl⟩
  have unary (o : UnaryOperator) (i : Instruction) (ts : List Terminal)
      (h : WriteAll False [.term, .emit i] ts []) : operand.Writes (.symbol o.symbol :: ts) := by
    rw [WriteAll.term] at h
    obtain ⟨t, _, rfl, -, last⟩ := h
    rw [WriteAll.emit, WriteAll.nil] at last
    subst last
    exact ⟨.unary o t, by rw [List.append_nil, Term.terminals]⟩
  simp only [action, Action.operand]
  split
  · next n =>
    rintro _ ts ⟨⟩ h
    rw [WriteAll.emit, WriteAll.nil] at h
    subst h
    exact ⟨.integer n, rfl⟩
  · next text =>
    rintro _ ts ⟨⟩ h
    obtain ⟨rfl, -⟩ := WriteAll.singleton.1 h
    exact ⟨.text text, rfl⟩
  · rintro _ ts ⟨⟩ h
    exact word .trueWord [.push .constant 0, .arithmetic .not] ts h
  · rintro _ ts ⟨⟩ h
    exact word .falseWord [.push .constant 0] ts h
  · rintro _ ts ⟨⟩ h
    exact word .nullWord [.push .constant 0] ts h
  · rintro _ ts ⟨⟩ h
    exact word .thisWord [.push .pointer 0] ts h
  · rintro _ ts ⟨⟩ h
    rw [WriteAll.expression] at h
    obtain ⟨e, _, rfl, -, closing⟩ := h
    rw [WriteAll.symbol] at closing
    obtain ⟨_, rfl, rfl⟩ := closing
    exact ⟨.group e, rfl⟩
  · rintro _ ts ⟨⟩ h
    exact unary .negate _ ts h
  · rintro _ ts ⟨⟩ h
    exact unary .complement _ ts h
  · next name =>
    rintro _ ts ⟨⟩ h
    obtain ⟨writes, -⟩ := WriteAll.singleton.1 h
    rcases writes with rfl | ⟨e, rfl⟩ | ⟨call, rfl⟩
    · exact ⟨.var name, rfl⟩
    · exact ⟨.element name e, rfl⟩
    · cases call with
      | own m as => exact ⟨.call (.own name as), rfl⟩
      | dotted x m as => exact ⟨.call (.dotted name m as), rfl⟩
  · exact .inr ⟨.keyword .kwNull, [], ⟨.nullWord, rfl⟩, by simp, .word .nullWord, rfl⟩

theorem stringConstant_yielding (text : String) (site : Nat) :
    (stringConstant text site).Yielding := by
  intro env here ahead
  simp only [action, Action.stringConstant]
  split
  · intro ts h
    rw [WriteAll.emit, WriteAll.emit, WriteAll.singleton] at h
    exact h.1
  · trivial

theorem characters_yielding (text : List Char) (site : Nat) : (characters text site).Yielding := by
  intro env here ahead
  cases text with
  | nil => exact fun ts h => h
  | cons char text =>
    simp only [action, Action.characters]
    split
    · intro ts h
      rw [WriteAll.emit, WriteAll.emit, WriteAll.singleton] at h
      exact h.1
    · trivial

theorem named_yielding (name : String) (site : Nat) : (named name site).Yielding := by
  intro env here ahead
  have ofCall : ∀ ts, WriteAll False [call name site] ts [] → (named name site).Writes ts :=
    fun ts h => .inr (.inr (WriteAll.singleton.1 h).1)
  simp only [action, Action.named]
  split
  · rintro _ ts ⟨⟩ h
    obtain ⟨⟨e, rfl⟩, -⟩ := WriteAll.singleton.1 h
    exact .inr (.inl ⟨e, rfl⟩)
  · exact ofCall
  · exact ofCall
  · intro ts h
    exact .inl (WriteAll.singleton.1 h).1

theorem load_yielding (name : String) (site : Nat) : (load name site).Yielding := by
  intro env here ahead
  refine Action.ofSlot_yields fun slot ts h => ?_
  rw [WriteAll.emit, WriteAll.nil] at h
  exact h

theorem element_yielding (name : String) (site : Nat) : (element name site).Yielding := by
  intro env here ahead
  refine Action.ofSlot_yields fun slot ts h => ?_
  rw [WriteAll.expression] at h
  obtain ⟨e, _, rfl, -, closing⟩ := h
  simp only [WriteAll.symbol, WriteAll.emit, WriteAll.nil] at closing
  obtain ⟨_, rfl, rfl⟩ := closing
  exact ⟨e, rfl⟩

/-! ### Calls -/

theorem call_yielding (name : String) (site : Nat) : (call name site).Yielding := by
  intro env here ahead
  simp only [action, Action.call]
  split
  · rintro _ ts ⟨⟩ h
    obtain ⟨⟨m, as, rfl⟩, -⟩ := WriteAll.singleton.1 h
    exact ⟨.dotted name m as, rfl⟩
  · intro ts h
    rw [WriteAll.emit] at h
    obtain ⟨⟨as, rfl⟩, -⟩ := WriteAll.singleton.1 h
    exact ⟨.own name as, rfl⟩

theorem member_yielding (receiver : String) (site : Nat) : (member receiver site).Yielding := by
  intro env here ahead
  refine Action.ofName_yields [.symbol .leftParen, .symbol .rightParen] ?_ (by simp)
    ⟨"x", .nil, rfl⟩
  rintro name _ ts ⟨⟩ h
  obtain ⟨⟨as, rfl⟩, -⟩ := WriteAll.singleton.1 h
  exact ⟨name, as, rfl⟩

theorem dispatch_yielding (receiver : String) (site : Nat) (name : String) :
    (dispatch receiver site name).Yielding := by
  intro env here ahead
  simp only [action, Action.dispatch]
  split
  · refine Action.ofSlot_yields fun slot ts h => ?_
    rw [WriteAll.emit] at h
    exact (WriteAll.singleton.1 h).1
  · intro ts h
    exact (WriteAll.singleton.1 h).1

theorem arguments_yielding (target : String) (count : Nat) :
    (arguments target count).Yielding := by
  intro env here ahead ts h
  rw [WriteAll.symbol] at h
  obtain ⟨_, rfl, list⟩ := h
  obtain ⟨⟨as, rfl⟩, -⟩ := WriteAll.singleton.1 list
  exact ⟨as, rfl⟩

theorem writeAll_endOfCall {cut : Prop} {target : String} {count : Nat} {ts rest : List Terminal} :
    WriteAll cut (endOfCall target count) ts rest ↔ ts = [.symbol .rightParen] := by
  unfold endOfCall
  rw [WriteAll.report, WriteAll.symbol]
  constructor
  · rintro ⟨_, rfl, last⟩
    rw [WriteAll.emit, WriteAll.nil] at last
    rw [last]
  · rintro rfl
    exact ⟨[], rfl, WriteAll.emit.2 rfl⟩

theorem expressionList_yielding (target : String) (count : Nat) :
    (expressionList target count).Yielding := by
  intro env here ahead ts h
  split at h
  · exact ⟨.nil, writeAll_endOfCall.1 h⟩
  · rw [WriteAll.expression] at h
    obtain ⟨e, _, rfl, -, more⟩ := h
    obtain ⟨⟨as, rfl⟩, -⟩ := WriteAll.singleton.1 more
    exact ⟨.cons e as, by rw [Arguments.terminals, List.append_assoc]⟩

theorem moreArguments_yielding (target : String) (count : Nat) :
    (moreArguments target count).Yielding := by
  intro env here ahead
  simp only [action, Action.moreArguments]
  split
  · rintro _ ts ⟨⟩ h
    rw [WriteAll.expression] at h
    obtain ⟨e, _, rfl, -, more⟩ := h
    obtain ⟨⟨as, rfl⟩, -⟩ := WriteAll.singleton.1 more
    exact ⟨.cons e as, by rw [Arguments.moreTerminals, List.cons_append, List.append_assoc]⟩
  · intro ts h
    exact ⟨.nil, writeAll_endOfCall.1 h⟩

/-! ### Statements -/

theorem statements_yielding : statements.Yielding := by
  intro env here ahead ts h
  obtain ⟨ts, _, rfl, ⟨ss, rfl⟩, -, last⟩ := h
  rw [WriteAll.report, WriteAll.nil] at last
  subst last
  exact ⟨ss, List.append_nil _⟩

/-- A statement and those behind it. -/
theorem writes_moreStatements {node : Node} (s : Statement) {ts : List Terminal}
    (h : WriteAll False [report (.closed node), moreStatements] ts []) :
    moreStatements.Writes (s.terminals ++ ts) := by
  rw [WriteAll.report] at h
  obtain ⟨⟨ss, rfl⟩, -⟩ := WriteAll.singleton.1 h
  exact ⟨.cons s ss, rfl⟩

theorem letStatement_of_writes (name : String) {ts : List Terminal} (h : WritesAssignment ts) :
    ∃ s : Statement, s.terminals = .keyword .kwLet :: .identifier name :: ts := by
  rcases h with ⟨e, rfl⟩ | ⟨i, e, rfl⟩
  · exact ⟨.letVariable name e, rfl⟩
  · exact ⟨.letElement name i e, rfl⟩

theorem moreStatements_yielding : moreStatements.Yielding := by
  intro env here ahead
  simp only [action, Action.moreStatements, Action.moreStatements.statement]
  split
  · rintro _ _ ⟨⟩ ⟨_, _, rfl, ⟨name, ts, rfl, assigns⟩, -, others⟩
    obtain ⟨s, written⟩ := letStatement_of_writes name assigns
    rw [← List.cons_append, ← written]
    exact writes_moreStatements s others
  · rintro _ ts ⟨⟩ h
    simp only [ifStatement, condition, block, List.cons_append, List.nil_append, WriteAll.symbol,
      WriteAll.expression, WriteAll.statements, WriteAll.emit] at h
    obtain ⟨_, rfl, e, _, rfl, -, _, rfl, _, rfl, body, _, rfl, -, _, rfl, h⟩ := h
    obtain ⟨_, _, rfl, otherwise, -, others⟩ := h
    rw [WriteAll.emit] at others
    rcases otherwise with rfl | ⟨other, rfl⟩
    · simpa [Statement.terminals] using writes_moreStatements (.ifThen e body) others
    · simpa [Statement.terminals] using writes_moreStatements (.ifElse e body other) others
  · rintro _ ts ⟨⟩ h
    simp only [whileStatement, condition, block, List.cons_append, List.nil_append,
      WriteAll.symbol, WriteAll.expression, WriteAll.statements, WriteAll.emit] at h
    obtain ⟨_, rfl, e, _, rfl, -, _, rfl, _, rfl, body, _, rfl, -, _, rfl, others⟩ := h
    simpa [Statement.terminals] using writes_moreStatements (.whileDo e body) others
  · rintro _ ts ⟨⟩ h
    simp only [doStatement, List.cons_append, List.nil_append] at h
    obtain ⟨_, _, rfl, ⟨call, rfl⟩, -, others⟩ := h
    simp only [WriteAll.symbol, WriteAll.emit] at others
    obtain ⟨_, rfl, others⟩ := others
    simpa [Statement.terminals] using writes_moreStatements (.doCall call) others
  · rintro _ ts ⟨⟩ h
    simp only [returnStatement, List.cons_append, List.nil_append] at h
    obtain ⟨_, _, rfl, value, -, others⟩ := h
    simp only [WriteAll.symbol, WriteAll.emit] at others
    obtain ⟨_, rfl, others⟩ := others
    rcases value with rfl | ⟨e, rfl⟩
    · simpa [Statement.terminals] using writes_moreStatements .returnNothing others
    · simpa [Statement.terminals] using writes_moreStatements (.returnValue e) others
  · exact fun ts h => ⟨.nil, h⟩

theorem letTarget_yielding : letTarget.Yielding := by
  intro env here ahead
  refine Action.ofName_yields [.symbol .equals, .keyword .kwNull, .symbol .semicolon] ?_ (by simp)
    ⟨"x", _, rfl, .inl ⟨.of (.word .nullWord) .nil, rfl⟩⟩
  rintro name _ ts ⟨⟩ h
  exact ⟨name, ts, rfl, (WriteAll.singleton.1 h).1⟩

theorem assign_yielding (name : String) (site : Nat) : (assign name site).Yielding := by
  intro env here ahead
  exact Action.ofSlot_yields fun slot ts h => (WriteAll.singleton.1 h).1

theorem assignTo_yielding (target : Slot) : (assignTo target).Yielding := by
  intro env here ahead
  simp only [action, Action.assignTo]
  split
  · rintro _ ts ⟨⟩ h
    simp only [assignElement, WriteAll.symbol, WriteAll.expression, WriteAll.emit,
      WriteAll.nil] at h
    obtain ⟨i, _, rfl, -, _, rfl, _, rfl, e, _, rfl, -, _, rfl, rfl⟩ := h
    exact .inr ⟨i, e, rfl⟩
  · intro ts h
    simp only [WriteAll.symbol, WriteAll.expression, WriteAll.emit, WriteAll.nil] at h
    obtain ⟨_, rfl, e, _, rfl, -, _, rfl, rfl⟩ := h
    exact .inl ⟨e, rfl⟩

theorem elsePart_yielding : elsePart.Yielding := by
  intro env here ahead
  simp only [action, Action.elsePart]
  split
  · rename_i word
    rintro t ts same h
    obtain rfl : t = .keyword .kwElse := Option.some.inj (same.symm.trans word)
    simp only [block, WriteAll.symbol, WriteAll.statements, WriteAll.nil] at h
    obtain ⟨_, rfl, other, _, rfl, -, _, rfl, rfl⟩ := h
    exact .inr ⟨other, rfl⟩
  · exact fun ts h => .inl h

theorem returnValue_yielding : returnValue.Yielding := by
  intro env here ahead
  simp only [action, Action.returnValue]
  split
  · intro ts h
    rw [WriteAll.emit, WriteAll.nil] at h
    exact .inl h
  · intro ts h
    exact .inr (WriteAll.singleton.1 h).1

theorem callee_yielding : callee.Yielding := by
  intro env here ahead
  refine Action.ofName_yields [.symbol .leftParen, .symbol .rightParen] ?_ (by simp)
    ⟨.own "x" .nil, rfl⟩
  rintro name _ ts ⟨⟩ h
  obtain ⟨⟨call, rfl⟩, -⟩ := WriteAll.singleton.1 h
  cases call with
  | own m as => exact ⟨.own name as, rfl⟩
  | dotted x m as => exact ⟨.dotted name m as, rfl⟩

/-! ### Declarations -/

theorem type_yields {use : TypeUse} {ahead : Option Terminal} {env : Env}
    {goal : Goal} (ts : List Terminal)
    (h : ∀ (t : TypeName) (ts : List Terminal), WriteAll False (use.goals t.text) ts [] →
      goal.Writes (t.terminal :: ts))
    (readable : ∀ u ∈ ts, u.Readable)
    (other : goal.Writes (.keyword .kwInt :: ts)) :
    (Action.type env use ahead).Yields ahead goal := by
  unfold Action.type
  split
  · rintro _ ts ⟨⟩ written
    exact h .int ts written
  · rintro _ ts ⟨⟩ written
    exact h .char ts written
  · rintro _ ts ⟨⟩ written
    exact h .boolean ts written
  · next name =>
    rintro _ ts ⟨⟩ written
    exact h (.named name) ts written
  · exact .inr ⟨_, ts, ⟨.int, rfl⟩, List.forall_mem_cons.2 ⟨trivial, readable⟩, other⟩

theorem type_yielding (use : TypeUse) : (type use).Yielding := by
  intro env here ahead
  have x : ∀ u ∈ [Terminal.identifier "x"], u.Readable := List.forall_mem_singleton.2 isName_x
  cases use with
  | names kind =>
    refine type_yields _ ?_ x ⟨⟨.int, "x", []⟩, rfl⟩
    rintro t _ ⟨_, _, rfl, ⟨first, rfl⟩, -, h⟩
    obtain ⟨⟨more, rfl⟩, -⟩ := WriteAll.singleton.1 h
    exact ⟨⟨t, first, more⟩, rfl⟩
  | parameter =>
    refine type_yields _ ?_ x ⟨⟨.int, "x"⟩, rfl⟩
    intro t ts h
    obtain ⟨⟨name, rfl⟩, -⟩ := WriteAll.singleton.1 h
    exact ⟨⟨t, name⟩, rfl⟩
  | result =>
    refine type_yields [] ?_ (by simp) ⟨.int, rfl⟩
    rintro t _ rfl
    exact ⟨t, rfl⟩

theorem newName_yielding (kind : Kind) (ty : String) : (newName kind ty).Yielding := by
  intro env here ahead
  refine Action.ofName_yields [] ?_ (by simp) ⟨"x", rfl⟩
  rintro name _ ts ⟨⟩ h
  obtain ⟨rfl, -⟩ := WriteAll.singleton.1 h
  exact ⟨name, rfl⟩

theorem declare_yielding (kind : Kind) (ty name : String) (site : Nat) :
    (declare kind ty name site).Yielding := by
  intro env here ahead
  simp only [action, Action.declare]
  split
  · exact fun ts h => h
  · trivial

theorem moreNames_yielding (kind : Kind) (ty : String) : (moreNames kind ty).Yielding := by
  intro env here ahead
  simp only [action, Action.moreNames]
  split
  · rintro _ _ ⟨⟩ ⟨_, _, rfl, ⟨name, rfl⟩, -, h⟩
    obtain ⟨⟨names, rfl⟩, -⟩ := WriteAll.singleton.1 h
    exact ⟨name :: names, rfl⟩
  · exact fun ts h => ⟨[], h⟩

theorem classVarDecs_yielding : classVarDecs.Yielding := by
  intro env here ahead
  have one (kind : Kind) (ofClass : kind.belongsToClass = true) (ts : List Terminal)
      (h : WriteAll False [.type (.names kind), .symbol .semicolon, .report (.closed .classVarDec),
        classVarDecs] ts []) : classVarDecs.Writes (.keyword kind.keyword :: ts) := by
    obtain ⟨_, _, rfl, ⟨names, rfl⟩, -, more⟩ := h
    rw [WriteAll.symbol] at more
    obtain ⟨_, rfl, others⟩ := more
    rw [WriteAll.report] at others
    obtain ⟨⟨vars, rfl⟩, -⟩ := WriteAll.singleton.1 others
    exact ⟨⟨kind, ofClass, names⟩ :: vars, by simp [ClassVarDec.terminals]⟩
  simp only [action, Action.classVarDecs, Action.classVarDecs.declaration]
  split
  · rintro _ ts ⟨⟩ h
    exact one .static rfl ts h
  · rintro _ ts ⟨⟩ h
    exact one .field rfl ts h
  · exact fun ts h => ⟨[], h⟩

theorem varDecs_yielding : varDecs.Yielding := by
  intro env here ahead
  simp only [action, Action.varDecs]
  split
  · rename_i word
    rintro t _ same ⟨_, _, rfl, ⟨names, rfl⟩, -, more⟩
    obtain rfl : t = .keyword .kwVar := Option.some.inj (same.symm.trans word)
    rw [WriteAll.symbol] at more
    obtain ⟨_, rfl, others⟩ := more
    rw [WriteAll.report] at others
    obtain ⟨⟨locals, rfl⟩, -⟩ := WriteAll.singleton.1 others
    exact ⟨names :: locals, by simp [Names.localTerminals]⟩
  · exact fun ts h => ⟨[], h⟩

theorem moreParameters_yielding : moreParameters.Yielding := by
  intro env here ahead
  simp only [action, Action.moreParameters]
  split
  · rintro _ _ ⟨⟩ ⟨_, _, rfl, ⟨p, rfl⟩, -, h⟩
    obtain ⟨⟨ps, rfl⟩, -⟩ := WriteAll.singleton.1 h
    exact ⟨p :: ps, rfl⟩
  · exact fun ts h => ⟨[], h⟩

theorem parameterList_yielding : parameterList.Yielding := by
  intro env here ahead ts h
  split at h
  · exact ⟨[], WriteAll.report.1 h⟩
  · obtain ⟨_, _, rfl, ⟨p, rfl⟩, -, _, _, rfl, ⟨ps, rfl⟩, -, last⟩ := h
    rw [WriteAll.report, WriteAll.nil] at last
    subst last
    exact ⟨p :: ps, by rw [List.append_nil]; rfl⟩

/-! ### Subroutines and classes -/

theorem returnType_yielding : returnType.Yielding := by
  intro env here ahead
  simp only [action, Action.returnType]
  split
  · rename_i word
    rintro t _ same rfl
    obtain rfl : t = .keyword .kwVoid := Option.some.inj (same.symm.trans word)
    exact ⟨none, rfl⟩
  · intro ts h
    obtain ⟨⟨t, rfl⟩, -⟩ := WriteAll.singleton.1 h
    exact ⟨some t, rfl⟩

theorem subroutineBody_yielding (name : String) : (subroutineBody name).Yielding := by
  intro env here ahead ts h
  rw [WriteAll.symbol] at h
  obtain ⟨_, rfl, _, _, rfl, ⟨locals, rfl⟩, -, _, _, rfl, rfl, -, h⟩ := h
  simp only [WriteAll.statements, WriteAll.symbol, WriteAll.report, WriteAll.nil] at h
  obtain ⟨body, _, rfl, -, _, rfl, rfl⟩ := h
  exact ⟨locals, body, rfl⟩

theorem writeAll_receiver {cut : Prop} {env : Env} {site : Nat} {gs : List Goal}
    {ts rest : List Terminal} :
    WriteAll cut (Action.subroutine.receiver env site ++ gs) ts rest ↔ WriteAll cut gs ts rest := by
  unfold Action.subroutine.receiver
  split
  · exact WriteAll.act (fun _ => .rfl) fun _ => trivial
  · exact Iff.rfl

/-- What stands behind the name of a subroutine. -/
theorem subroutine_yielding (name : String) (site : Nat) : (subroutine name site).Yielding := by
  intro env here ahead ts h
  rw [writeAll_receiver, WriteAll.symbol] at h
  obtain ⟨_, rfl, _, _, rfl, ⟨ps, rfl⟩, -, h⟩ := h
  rw [WriteAll.symbol] at h
  obtain ⟨_, rfl, h⟩ := h
  obtain ⟨⟨locals, body, rfl⟩, -⟩ := WriteAll.singleton.1 h
  exact ⟨⟨.function, none, name, ps, locals, body⟩, rfl⟩

theorem subroutineName_yielding : subroutineName.Yielding := by
  intro env here ahead
  refine Action.ofName_yields
    [.symbol .leftParen, .symbol .rightParen, .symbol .leftBrace, .symbol .rightBrace] ?_
    (by simp) ⟨⟨.function, none, "x", [], [], .nil⟩, rfl⟩
  rintro name _ ts ⟨⟩ h
  obtain ⟨⟨s, rfl⟩, -⟩ := WriteAll.singleton.1 h
  exact ⟨{ s with name }, rfl⟩

theorem subroutineDecs_yielding : subroutineDecs.Yielding := by
  intro env here ahead
  have one (kind : SubroutineKind) (ts : List Terminal)
      (h : WriteAll False [returnType, subroutineName, report (.closed .subroutineDec),
        subroutineDecs] ts []) : subroutineDecs.Writes (.keyword kind.keyword :: ts) := by
    obtain ⟨_, _, rfl, ⟨result, rfl⟩, -, _, _, rfl, ⟨s, rfl⟩, -, h⟩ := h
    rw [WriteAll.report] at h
    obtain ⟨⟨subroutines, rfl⟩, -⟩ := WriteAll.singleton.1 h
    exact ⟨{ s with kind, result } :: subroutines, rfl⟩
  simp only [action, Action.subroutineDecs, Action.subroutineDecs.declaration]
  split
  · rintro _ ts ⟨⟩ h
    exact one .constructor ts h
  · rintro _ ts ⟨⟩ h
    exact one .function ts h
  · rintro _ ts ⟨⟩ h
    exact one .method ts h
  · exact fun ts h => ⟨[], h⟩

theorem className_yielding : className.Yielding := by
  intro env here ahead
  refine Action.ofName_yields [] ?_ (by simp) ⟨"x", rfl⟩
  rintro name _ ts ⟨⟩ h
  rw [WriteAll.report, WriteAll.nil] at h
  subst h
  exact ⟨name, rfl⟩

theorem classWord_yielding : classWord.Yielding := by
  intro env here ahead
  simp only [action, Action.classWord]
  split
  · rename_i word
    rintro t _ same rfl
    obtain rfl : t = .keyword .kwClass := Option.some.inj (same.symm.trans word)
    exact rfl
  · exact .inr ⟨_, [], rfl, by simp, rfl⟩

theorem classDec_yielding : classDec.Yielding := by
  intro env here ahead ts h
  obtain ⟨_, _, rfl, rfl, -, _, _, rfl, ⟨name, rfl⟩, -, h⟩ := h
  rw [WriteAll.symbol] at h
  obtain ⟨_, rfl, _, _, rfl, ⟨vars, rfl⟩, -, _, _, rfl, ⟨subroutines, rfl⟩, -, h⟩ := h
  simp only [WriteAll.symbol, WriteAll.report, WriteAll.nil] at h
  obtain ⟨_, rfl, rfl⟩ := h
  exact ⟨⟨name, vars, subroutines⟩, rfl⟩

/-! ### All goals -/

theorem symbol_yielding (s : Symbol) : (symbol s).Yielding := by
  intro env here ahead
  simp only [action, Action.ofSymbol]
  split
  · rename_i here
    rintro t _ same rfl
    obtain rfl : t = .symbol s := Option.some.inj (same.symm.trans here)
    exact rfl
  · exact .inr ⟨_, [], rfl, by simp, rfl⟩

theorem endOfText_yielding : endOfText.Yielding := by
  intro env here ahead
  cases ahead with
  | none => exact fun _ h => h
  | some t => exact .inl ⟨rfl, rfl⟩

/-- What the goals that replace a goal are written with, the goal is written with itself. -/
theorem action_yields (goal : Goal) : goal.Yielding := by
  cases goal with
  | report event => exact fun _ _ _ _ h => h
  | emit i => exact fun _ _ _ => rfl
  | symbol s => exact symbol_yielding s
  | endOfText => exact endOfText_yielding
  | classDec => exact classDec_yielding
  | classWord => exact classWord_yielding
  | className => exact className_yielding
  | classVarDecs => exact classVarDecs_yielding
  | type use => exact type_yielding use
  | newName kind ty => exact newName_yielding kind ty
  | declare kind ty name site => exact declare_yielding kind ty name site
  | moreNames kind ty => exact moreNames_yielding kind ty
  | subroutineDecs => exact subroutineDecs_yielding
  | returnType => exact returnType_yielding
  | subroutineName => exact subroutineName_yielding
  | subroutine name site => exact subroutine_yielding name site
  | parameterList => exact parameterList_yielding
  | moreParameters => exact moreParameters_yielding
  | subroutineBody name => exact subroutineBody_yielding name
  | varDecs => exact varDecs_yielding
  | prologue name => exact fun _ _ _ _ h => WriteAll.map_emit.1 h
  | statements => exact statements_yielding
  | moreStatements => exact moreStatements_yielding
  | letTarget => exact letTarget_yielding
  | assign name site => exact assign_yielding name site
  | assignTo target => exact assignTo_yielding target
  | elsePart => exact elsePart_yielding
  | returnValue => exact returnValue_yielding
  | callee => exact callee_yielding
  | expression => exact expression_yielding
  | operators => exact operators_yielding
  | term => exact term_yielding
  | operand => exact operand_yielding
  | stringConstant text site => exact stringConstant_yielding text site
  | characters text site => exact characters_yielding text site
  | named name site => exact named_yielding name site
  | load name site => exact load_yielding name site
  | element name site => exact element_yielding name site
  | call name site => exact call_yielding name site
  | member receiver site => exact member_yielding receiver site
  | dispatch receiver site name => exact dispatch_yielding receiver site name
  | arguments target count => exact arguments_yielding target count
  | expressionList target count => exact expressionList_yielding target count
  | moreArguments target count => exact moreArguments_yielding target count

end Goal

/-! ## Whole passes -/

/-- The terminals that a pass consumes, and what its goals are written with then, are what its goals
were written with before. -/
theorem Machine.Reaches.writeAll {ending : Option LexCause} {m z : Machine} {es : List Event}
    {ts : List Terminal} (reached : Reaches ending m es z) (quiet : ∀ g ∈ m.goals, g.Quiet)
    (written : WriteAll False z.goals ts []) :
    WriteAll False m.goals (terminalsOf es ++ ts) [] := by
  induction reached with
  | refl m => exact written
  | @emit g k ahead site env i es z act _ ih =>
    have yields := g.action_yields env site ahead.head?
    rw [act] at yields
    exact ⟨[], _, rfl, yields, False.elim, ih (List.forall_mem_cons.1 quiet).2 written⟩
  | @expand g k next ahead site env env' events es z act _ ih =>
    obtain ⟨first, others⟩ := List.forall_mem_cons.1 quiet
    have acted := Goal.action_quiet first env site ahead.head?
    have yields := g.action_yields env site ahead.head?
    rw [act] at acted yields
    obtain ⟨ts₁, ts₂, all, replaced, behind⟩ :=
      WriteAll.append.1 (ih (List.forall_mem_append.2 ⟨acted.2, others⟩) written)
    rw [terminalsOf_append, acted.1, List.nil_append]
    exact ⟨ts₁, ts₂, all, yields ts₁ (replaced.irrelevant []), False.elim, behind⟩
  | @accept g k next t ahead site env env' events es z act _ _ ih =>
    obtain ⟨first, others⟩ := List.forall_mem_cons.1 quiet
    have acted := Goal.action_quiet first env site (some t)
    have yields := g.action_yields env site (some t)
    rw [act] at acted yields
    obtain ⟨ts₁, ts₂, all, replaced, behind⟩ :=
      WriteAll.append.1 (ih (List.forall_mem_append.2 ⟨acted.2, others⟩) written)
    refine ⟨t :: ts₁, ts₂, ?_, yields t ts₁ rfl (replaced.irrelevant []), False.elim, behind⟩
    rw [terminalsOf_append, acted.1]
    exact congrArg (t :: ·) all

/-! ## Something to go on with -/

/-- A goal can be written with terminals that can be read. -/
theorem Goal.exists_writes (goal : Goal) : ∃ ts, goal.Writes ts ∧ ∀ t ∈ ts, t.Readable := by
  have x := isName_x
  let null : Expression := .of (.word .nullWord) .nil
  cases goal with
  | report _ | emit _ | prologue _ | endOfText | declare _ _ _ _ | load _ _ | stringConstant _ _
  | characters _ _ => exact ⟨[], rfl, by simp⟩
  | symbol s => exact ⟨_, rfl, by simp⟩
  | classDec => exact ⟨_, ⟨⟨"x", [], []⟩, rfl⟩, by simp [ClassDec.terminals, x]⟩
  | classWord => exact ⟨_, rfl, by simp⟩
  | className | newName _ _ => exact ⟨_, ⟨"x", rfl⟩, by simp [x]⟩
  | classVarDecs | subroutineDecs | varDecs => exact ⟨_, ⟨[], rfl⟩, by simp⟩
  | moreNames _ _ => exact ⟨_, ⟨[], rfl⟩, by simp [Names.moreTerminals]⟩
  | parameterList => exact ⟨_, ⟨[], rfl⟩, by simp [Parameter.listTerminals]⟩
  | moreParameters => exact ⟨_, ⟨[], rfl⟩, by simp [Parameter.moreTerminals]⟩
  | type use =>
    cases use with
    | names _ =>
      exact ⟨_, ⟨⟨.int, "x", []⟩, rfl⟩,
        by simp [Names.terminals, TypeName.terminal, Names.moreTerminals, x]⟩
    | parameter => exact ⟨_, ⟨⟨.int, "x"⟩, rfl⟩, by simp [TypeName.terminal, x]⟩
    | result => exact ⟨_, ⟨.int, rfl⟩, by simp [TypeName.terminal]⟩
  | returnType => exact ⟨_, ⟨none, rfl⟩, by simp [TypeName.resultTerminal]⟩
  | subroutineName | subroutine _ _ =>
    exact ⟨_, ⟨⟨.function, none, "x", [], [], .nil⟩, rfl⟩,
      by simp [SubroutineDec.moreTerminals, Parameter.listTerminals, Statements.terminals, x]⟩
  | subroutineBody _ => exact ⟨_, ⟨[], .nil, rfl⟩, by simp [Statements.terminals]⟩
  | statements | moreStatements => exact ⟨_, ⟨.nil, rfl⟩, by simp [Statements.terminals]⟩
  | letTarget =>
    exact ⟨_, ⟨"x", _, rfl, .inl ⟨null, rfl⟩⟩, by
      simp [null, Expression.terminals, Term.terminals, Operations.terminals, x]⟩
  | assign _ _ | assignTo _ =>
    exact ⟨_, .inl ⟨null, rfl⟩,
      by simp [null, Expression.terminals, Term.terminals, Operations.terminals]⟩
  | elsePart | returnValue | named _ _ => exact ⟨[], .inl rfl, by simp⟩
  | callee => exact ⟨_, ⟨.own "x" .nil, rfl⟩, by simp [Call.terminals, Arguments.terminals, x]⟩
  | expression =>
    exact ⟨_, ⟨null, rfl⟩,
      by simp [null, Expression.terminals, Term.terminals, Operations.terminals]⟩
  | operators => exact ⟨_, ⟨.nil, rfl⟩, by simp [Operations.terminals]⟩
  | term | operand => exact ⟨_, ⟨.word .nullWord, rfl⟩, by simp [Term.terminals]⟩
  | element _ _ =>
    exact ⟨_, ⟨null, rfl⟩,
      by simp [null, Expression.terminals, Term.terminals, Operations.terminals]⟩
  | call _ _ =>
    exact ⟨_, ⟨.own "x" .nil, rfl⟩, by simp [Call.moreTerminals, Arguments.terminals]⟩
  | member _ _ => exact ⟨_, ⟨"x", .nil, rfl⟩, by simp [Arguments.terminals, x]⟩
  | dispatch _ _ _ | arguments _ _ | expressionList _ _ =>
    exact ⟨_, ⟨.nil, rfl⟩, by simp [Arguments.terminals]⟩
  | moreArguments _ _ => exact ⟨_, ⟨.nil, rfl⟩, by simp [Arguments.moreTerminals]⟩

theorem exists_writeAll (goals : List Goal) :
    ∃ ts, WriteAll False goals ts [] ∧ ∀ t ∈ ts, t.Readable := by
  induction goals with
  | nil => exact ⟨[], rfl, by simp⟩
  | cons g gs ih =>
    obtain ⟨ts₁, first, readable⟩ := g.exists_writes
    obtain ⟨ts₂, others, readable'⟩ := ih
    exact ⟨ts₁ ++ ts₂, ⟨ts₁, ts₂, rfl, first, False.elim, others⟩,
      List.forall_mem_append.2 ⟨readable, readable'⟩⟩

end JackToVm
