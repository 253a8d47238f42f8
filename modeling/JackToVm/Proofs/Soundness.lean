import JackToVm.Proofs.Pass

/-!
# Every class that is compiled is a tree

A pass that meets its goals has read terminals that a tree is written with, and the tree keeps the
rules of declarations.

Every goal says which terminals it takes and what it does to the environment (`Goal.Takes`). One
action of a goal keeps this (`Goal.action_justifies`): if the goals that replace it take what they
say, so does the goal. So a stack of goals takes what its goals take one after the other
(`Machine.Reaches.takeAll`).

Results.
1. The terminals of a class that is compiled are those of a tree that keeps the rules
   (`ClassDec.of_finishes`).
-/

namespace JackToVm

/-! ## What declarations do -/

/-- New variables of a kind are declared, all of them under names that their scope does not have
yet. -/
def Declares (kind : Kind) (new : List Declaration) (env env' : Env) : Prop :=
  ∀ ds : Declarations, env.symbols = ds.table →
    (((ds.scope kind).map (·.name)).Nodup → ((ds.scope kind ++ new).map (·.name)).Nodup) ∧
      env' = { env with symbols := (ds.extend kind new).table }

namespace Declares

theorem nil (kind : Kind) (env : Env) : Declares kind [] env env := by
  intro ds here
  rw [List.append_nil, ds.extend_nil, ← here]
  exact ⟨id, rfl⟩

theorem append {kind : Kind} {new newer : List Declaration} {env env₁ env' : Env}
    (first : Declares kind new env env₁) (second : Declares kind newer env₁ env') :
    Declares kind (new ++ newer) env env' := by
  intro ds here
  obtain ⟨distinct, rfl⟩ := first ds here
  obtain ⟨distinct', rfl⟩ := second (ds.extend kind new) rfl
  rw [ds.scope_extend, List.append_assoc] at distinct'
  rw [ds.extend_extend]
  exact ⟨distinct' ∘ distinct, rfl⟩

/-- Statics and fields go to one scope, arguments and locals to the other. -/
theorem of_belongsToClass {kind kind' : Kind} {new : List Declaration} {env env' : Env}
    (same : kind.belongsToClass = kind'.belongsToClass) (h : Declares kind new env env') :
    Declares kind' new env env' := by
  intro ds here
  have there := h ds here
  simp only [Declarations.scope, Declarations.extend, same] at there
  exact there

end Declares

/-! ## What goals take -/

/-- Names have the meaning that they have in a class, outside of its subroutines. -/
def Env.Knows (env : Env) (d : ClassDec) : Prop :=
  env.className = d.name ∧
    ∃ before, env.symbols = (Declarations.mk d.declarations before).table

/-- What happens behind the name of a subroutine. -/
def SubroutineDec.Compiled (s : SubroutineDec) (env env' : Env) : Prop :=
  ∃ env₁, Declares .localVar (s.allDeclarations env.className)
      { env with symbols := env.symbols.enterSubroutine } env₁ ∧
    AllAllowed env₁.context s.body.uses ∧ env' = env₁.advance s.body.constructs

/-- The terminals that a goal takes, and what it makes of the environment. -/
def Goal.Takes (goal : Goal) (ts : List Terminal) (env env' : Env) : Prop :=
  match goal with
  -- acts
  | report _ | emit _ | prologue _ | endOfText => ts = [] ∧ env' = env
  -- terminals
  | symbol s => ts = [.symbol s] ∧ env' = env
  -- declarations
  | classWord => ts = [.keyword .kwClass] ∧ env' = env
  | className => ∃ name, ts = [.identifier name] ∧ env' = { env with className := name }
  | type (.names kind) =>
    ∃ names : Names, ts = names.terminals ∧ Declares kind (names.declarations kind) env env'
  | type .parameter =>
    ∃ p : Parameter, ts = [p.type.terminal, .identifier p.name] ∧
      Declares .argument [p.declaration] env env'
  | type .result => ∃ t : TypeName, ts = [t.terminal] ∧ env' = env
  | newName kind ty =>
    ∃ name, ts = [.identifier name] ∧ Declares kind [⟨kind, ty, name⟩] env env'
  | declare kind ty name _ => ts = [] ∧ Declares kind [⟨kind, ty, name⟩] env env'
  | moreNames kind ty =>
    ∃ names, ts = Names.moreTerminals names ∧
      Declares kind (names.map (Declaration.mk kind ty)) env env'
  | classVarDecs =>
    ∃ vars : List ClassVarDec, ts = vars.flatMap ClassVarDec.terminals ∧
      Declares .field (vars.flatMap ClassVarDec.declarations) env env'
  | parameterList =>
    ∃ ps, ts = Parameter.listTerminals ps ∧
      Declares .argument (ps.map Parameter.declaration) env env'
  | moreParameters =>
    ∃ ps, ts = Parameter.moreTerminals ps ∧
      Declares .argument (ps.map Parameter.declaration) env env'
  | varDecs =>
    ∃ locals : List Names, ts = locals.flatMap Names.localTerminals ∧
      Declares .localVar (locals.flatMap (Names.declarations .localVar)) env env'
  | returnType => ∃ result, ts = [TypeName.resultTerminal result] ∧ env' = env
  | subroutineBody _ =>
    ∃ (locals : List Names) (body : Statements) (env₁ : Env),
      ts = .symbol .leftBrace :: (locals.flatMap Names.localTerminals ++
        (body.terminals ++ [.symbol .rightBrace])) ∧
      Declares .localVar (locals.flatMap (Names.declarations .localVar)) env env₁ ∧
      AllAllowed env₁.context body.uses ∧ env' = env₁.advance body.constructs
  | subroutine name _ =>
    ∀ result, ∃ s : SubroutineDec, s.kind = env.subroutineKind ∧ s.result = result ∧
      s.name = name ∧ ts = s.moreTerminals ∧ s.Compiled env env'
  | subroutineName =>
    ∀ result, ∃ s : SubroutineDec, s.kind = env.subroutineKind ∧ s.result = result ∧
      ts = .identifier s.name :: s.moreTerminals ∧ s.Compiled env env'
  | subroutineDecs =>
    ∃ subroutines : List SubroutineDec, ts = subroutines.flatMap SubroutineDec.terminals ∧
      ∀ d, env.Knows d → (d.declarations.map (·.name)).Nodup →
        ∀ s ∈ subroutines, s.WellScoped d
  | classDec =>
    ∃ d : ClassDec, ts = d.terminals ∧ (env.symbols = .empty → d.WellScoped)
  -- statements
  | statements | moreStatements =>
    ∃ ss : Statements, ts = ss.terminals ∧ AllAllowed env.context ss.uses ∧
      env' = env.advance ss.constructs
  | letTarget =>
    ∃ s : Statement, .keyword .kwLet :: ts = s.terminals ∧ AllAllowed env.context s.uses ∧
      env' = env.advance s.constructs
  | assign name _ =>
    ∃ s : Statement, .keyword .kwLet :: .identifier name :: ts = s.terminals ∧
      AllAllowed env.context s.uses ∧ env' = env.advance s.constructs
  | assignTo _ =>
    ∀ name, (Use.var name).Allowed env.context →
      ∃ s : Statement, .keyword .kwLet :: .identifier name :: ts = s.terminals ∧
        AllAllowed env.context s.uses ∧ env' = env.advance s.constructs
  | elsePart =>
    ts = [] ∧ env' = env ∨
      ∃ other : Statements,
        ts = .keyword .kwElse :: .symbol .leftBrace ::
          (other.terminals ++ [.symbol .rightBrace]) ∧
        AllAllowed env.context other.uses ∧ env' = env.advance other.constructs
  | returnValue =>
    (ts = [] ∨ ∃ e : Expression, ts = e.terminals ∧ AllAllowed env.context e.uses) ∧ env' = env
  | callee =>
    ∃ call : Call, ts = call.terminals ∧ AllAllowed env.context call.uses ∧ env' = env
  -- expressions
  | expression =>
    ∃ e : Expression, ts = e.terminals ∧ AllAllowed env.context e.uses ∧ env' = env
  | operators =>
    ∃ ops : Operations, ts = ops.terminals ∧ AllAllowed env.context ops.uses ∧ env' = env
  | term | operand =>
    ∃ t : Term, ts = t.terminals ∧ AllAllowed env.context t.uses ∧ env' = env
  | stringConstant text _ => ts = [] ∧ (Use.text text).Allowed env.context ∧ env' = env
  | characters text _ => ts = [] ∧ (∀ char ∈ text, char.toNat ≤ maxConstant) ∧ env' = env
  | named name _ =>
    ∃ t : Term, .identifier name :: ts = t.terminals ∧ AllAllowed env.context t.uses ∧ env' = env
  | load name _ => ts = [] ∧ (Use.var name).Allowed env.context ∧ env' = env
  | element name _ =>
    ∃ e : Expression, ts = e.terminals ++ [.symbol .rightBracket] ∧
      (Use.var name).Allowed env.context ∧ AllAllowed env.context e.uses ∧ env' = env
  | call name _ =>
    ∃ call : Call, call.head = name ∧ ts = call.moreTerminals ∧
      AllAllowed env.context call.uses ∧ env' = env
  | member receiver _ =>
    ∃ (name : String) (as : Arguments),
      ts = .identifier name :: .symbol .leftParen :: (as.terminals ++ [.symbol .rightParen]) ∧
      (Use.receiver receiver).Allowed env.context ∧ AllAllowed env.context as.uses ∧ env' = env
  | dispatch receiver _ _ =>
    ∃ as : Arguments, ts = .symbol .leftParen :: (as.terminals ++ [.symbol .rightParen]) ∧
      (Use.receiver receiver).Allowed env.context ∧ AllAllowed env.context as.uses ∧ env' = env
  | arguments _ _ =>
    ∃ as : Arguments, ts = .symbol .leftParen :: (as.terminals ++ [.symbol .rightParen]) ∧
      AllAllowed env.context as.uses ∧ env' = env
  | expressionList _ _ =>
    ∃ as : Arguments, ts = as.terminals ++ [.symbol .rightParen] ∧
      AllAllowed env.context as.uses ∧ env' = env
  | moreArguments _ _ =>
    ∃ as : Arguments, ts = as.moreTerminals ++ [.symbol .rightParen] ∧
      AllAllowed env.context as.uses ∧ env' = env

/-- The terminals that goals take one after the other. -/
def TakeAll : List Goal → List Terminal → Env → Env → Prop
  | [], ts, env, env' => ts = [] ∧ env' = env
  | g :: gs, ts, env, env' =>
    ∃ ts₁ ts₂ env₁, ts = ts₁ ++ ts₂ ∧ g.Takes ts₁ env env₁ ∧ TakeAll gs ts₂ env₁ env'

namespace TakeAll

variable {gs k : List Goal} {ts : List Terminal} {env env' : Env}

@[simp]
theorem nil : TakeAll [] ts env env' ↔ ts = [] ∧ env' = env := Iff.rfl

@[simp]
theorem report {e : Event} :
    TakeAll (.report e :: gs) ts env env' ↔ TakeAll gs ts env env' := by
  constructor
  · rintro ⟨_, _, _, rfl, ⟨rfl, rfl⟩, rest⟩
    exact rest
  · intro rest
    exact ⟨[], ts, env, rfl, ⟨rfl, rfl⟩, rest⟩

@[simp]
theorem emit {i : Instruction} :
    TakeAll (.emit i :: gs) ts env env' ↔ TakeAll gs ts env env' := by
  constructor
  · rintro ⟨_, _, _, rfl, ⟨rfl, rfl⟩, rest⟩
    exact rest
  · intro rest
    exact ⟨[], ts, env, rfl, ⟨rfl, rfl⟩, rest⟩

@[simp]
theorem map_emit {code : List Instruction} : TakeAll (code.map .emit) ts env env' ↔
    ts = [] ∧ env' = env := by
  induction code with
  | nil => exact Iff.rfl
  | cons i code ih => rw [List.map_cons, emit, ih]

@[simp]
theorem symbol {s : Symbol} : TakeAll (.symbol s :: gs) ts env env' ↔
    ∃ ts', ts = .symbol s :: ts' ∧ TakeAll gs ts' env env' := by
  constructor
  · rintro ⟨_, ts', _, rfl, ⟨rfl, rfl⟩, rest⟩
    exact ⟨ts', rfl, rest⟩
  · rintro ⟨ts', rfl, rest⟩
    exact ⟨_, ts', env, rfl, ⟨rfl, rfl⟩, rest⟩

/-- An expression leaves the environment as it is. -/
@[simp]
theorem expression : TakeAll (.expression :: gs) ts env env' ↔
    ∃ (e : Expression) (ts' : List Terminal), ts = e.terminals ++ ts' ∧
      AllAllowed env.context e.uses ∧ TakeAll gs ts' env env' := by
  constructor
  · rintro ⟨_, ts', _, rfl, ⟨e, rfl, allowed, rfl⟩, rest⟩
    exact ⟨e, ts', rfl, allowed, rest⟩
  · rintro ⟨e, ts', rfl, allowed, rest⟩
    exact ⟨_, ts', env, rfl, ⟨e, rfl, allowed, rfl⟩, rest⟩

@[simp]
theorem term : TakeAll (.term :: gs) ts env env' ↔
    ∃ (t : Term) (ts' : List Terminal), ts = t.terminals ++ ts' ∧
      AllAllowed env.context t.uses ∧ TakeAll gs ts' env env' := by
  constructor
  · rintro ⟨_, ts', _, rfl, ⟨t, rfl, allowed, rfl⟩, rest⟩
    exact ⟨t, ts', rfl, allowed, rest⟩
  · rintro ⟨t, ts', rfl, allowed, rest⟩
    exact ⟨_, ts', env, rfl, ⟨t, rfl, allowed, rfl⟩, rest⟩

@[simp]
theorem operators : TakeAll (.operators :: gs) ts env env' ↔
    ∃ (ops : Operations) (ts' : List Terminal), ts = ops.terminals ++ ts' ∧
      AllAllowed env.context ops.uses ∧ TakeAll gs ts' env env' := by
  constructor
  · rintro ⟨_, ts', _, rfl, ⟨ops, rfl, allowed, rfl⟩, rest⟩
    exact ⟨ops, ts', rfl, allowed, rest⟩
  · rintro ⟨ops, ts', rfl, allowed, rest⟩
    exact ⟨_, ts', env, rfl, ⟨ops, rfl, allowed, rfl⟩, rest⟩

/-- Statements number their constructs. -/
@[simp]
theorem statements : TakeAll (.statements :: gs) ts env env' ↔
    ∃ (ss : Statements) (ts' : List Terminal), ts = ss.terminals ++ ts' ∧
      AllAllowed env.context ss.uses ∧ TakeAll gs ts' (env.advance ss.constructs) env' := by
  constructor
  · rintro ⟨_, ts', _, rfl, ⟨ss, rfl, allowed, rfl⟩, rest⟩
    exact ⟨ss, ts', rfl, allowed, rest⟩
  · rintro ⟨ss, ts', rfl, allowed, rest⟩
    exact ⟨_, ts', _, rfl, ⟨ss, rfl, allowed, rfl⟩, rest⟩

theorem append : TakeAll (gs ++ k) ts env env' ↔
    ∃ ts₁ ts₂ env₁, ts = ts₁ ++ ts₂ ∧ TakeAll gs ts₁ env env₁ ∧ TakeAll k ts₂ env₁ env' := by
  induction gs generalizing ts env with
  | nil =>
    constructor
    · intro rest
      exact ⟨[], ts, env, rfl, ⟨rfl, rfl⟩, rest⟩
    · rintro ⟨_, _, _, rfl, ⟨rfl, rfl⟩, rest⟩
      exact rest
  | cons g gs ih =>
    constructor
    · rintro ⟨ts₁, _, env₁, rfl, first, rest⟩
      obtain ⟨ts₂, ts₃, env₂, rfl, second, third⟩ := ih.1 rest
      exact ⟨ts₁ ++ ts₂, ts₃, env₂, by simp, ⟨ts₁, ts₂, env₁, rfl, first, second⟩, third⟩
    · rintro ⟨_, ts₃, env₂, rfl, ⟨ts₁, ts₂, env₁, rfl, first, second⟩, third⟩
      exact ⟨ts₁, ts₂ ++ ts₃, env₁, by simp, first, ih.2 ⟨ts₂, ts₃, env₂, rfl, second, third⟩⟩

@[simp]
theorem singleton {g : Goal} : TakeAll [g] ts env env' ↔ g.Takes ts env env' := by
  constructor
  · rintro ⟨ts₁, _, _, rfl, takes, rfl, rfl⟩
    rwa [List.append_nil]
  · intro takes
    exact ⟨ts, [], env', by simp, takes, rfl, rfl⟩

end TakeAll

/-! ## Actions keep what goals say -/

/-- An action brings about `P`, a property of terminals and of the environment behind them. -/
def Action.Justifies (act : Action) (ahead : Option Terminal) (env : Env)
    (P : List Terminal → Env → Prop) : Prop :=
  match act with
  | emit _ => P [] env
  | expand _ next env₁ => ∀ ts env', TakeAll next ts env₁ env' → P ts env'
  | accept _ next env₁ =>
    ∀ t ts env', ahead = some t → TakeAll next ts env₁ env' → P (t :: ts) env'
  | reject _ | refuse .. => True

/-- The action of a goal, where it stands, brings about what the goal says. -/
def Goal.Justified (goal : Goal) : Prop :=
  ∀ (env : Env) (here : Nat) (ahead : Option Terminal),
    (goal.action env here ahead).Justifies ahead env (goal.Takes · env)

namespace Action

theorem ofName_justifies {ahead : Option Terminal} {use : String → Action} {env : Env}
    {P : List Terminal → Env → Prop}
    (h : ∀ name, (use name).Justifies (some (.identifier name)) env P) :
    (ofName ahead use).Justifies ahead env P := by
  unfold ofName
  split
  · exact h _
  · trivial

theorem ofSlot_justifies {ahead : Option Terminal} {use : Slot → Action} {env : Env}
    {name : String} {site : Nat} {P : List Terminal → Env → Prop}
    (h : ∀ slot, (Use.var name).Allowed env.context → (use slot).Justifies ahead env P) :
    (ofSlot env name site use).Justifies ahead env P := by
  unfold ofSlot
  split
  · next slot found => exact h slot (Env.allowed_of_slotOf found)
  · trivial

end Action

theorem BinaryOperator.exists_of_binary? {s : Symbol} {i : Instruction}
    (h : s.binary? = some i) : ∃ o : BinaryOperator, o.symbol = s := by
  cases s
  case plus => exact ⟨.plus, rfl⟩
  case minus => exact ⟨.minus, rfl⟩
  case star => exact ⟨.times, rfl⟩
  case slash => exact ⟨.divide, rfl⟩
  case ampersand => exact ⟨.and, rfl⟩
  case bar => exact ⟨.or, rfl⟩
  case less => exact ⟨.less, rfl⟩
  case greater => exact ⟨.greater, rfl⟩
  case equals => exact ⟨.equals, rfl⟩
  all_goals cases h

namespace Goal

/-! ### Expressions -/

theorem expression_justified : expression.Justified := by
  intro env here ahead ts env' takes
  simp only [TakeAll.term, TakeAll.operators, TakeAll.report, TakeAll.nil] at takes
  obtain ⟨t, _, rfl, allowed, ops, _, rfl, allowed', rfl, rfl⟩ := takes
  exact ⟨.of t ops, by simp [Expression.terminals], by simp [Expression.uses, *], rfl⟩

theorem operators_justified : operators.Justified := by
  intro env here ahead
  have none : ∀ ts env', TakeAll [] ts env env' → operators.Takes ts env env' := by
    rintro _ _ ⟨rfl, rfl⟩
    exact ⟨.nil, rfl, by simp [Operations.uses], rfl⟩
  simp only [action, Action.operators]
  split
  · split
    · next s _ found =>
      obtain ⟨o, rfl⟩ := BinaryOperator.exists_of_binary? found
      rintro _ ts env' ⟨⟩ takes
      simp only [TakeAll.term, TakeAll.emit, TakeAll.singleton] at takes
      obtain ⟨t, _, rfl, allowed, ops, rfl, allowed', rfl⟩ := takes
      exact ⟨.cons o t ops, rfl, by simp [Operations.uses, *], rfl⟩
    · exact none
  · exact none

theorem term_justified : term.Justified := by
  intro env here ahead ts env' takes
  obtain ⟨_, _, _, rfl, takes, last⟩ := takes
  simp only [TakeAll.report, TakeAll.nil] at last
  obtain ⟨rfl, rfl⟩ := last
  rwa [List.append_nil]

theorem operand_justified : operand.Justified := by
  intro env here ahead
  have word (w : ConstantWord) (code : List Instruction) (ts : List Terminal) (env' : Env)
      (takes : TakeAll (code.map emit) ts env env') :
      operand.Takes (.keyword w.keyword :: ts) env env' := by
    obtain ⟨rfl, rfl⟩ := TakeAll.map_emit.1 takes
    exact ⟨.word w, rfl, by simp [Term.uses], rfl⟩
  simp only [action, Action.operand]
  split
  · next n =>
    rintro _ ts env' ⟨⟩ takes
    simp only [TakeAll.emit, TakeAll.nil] at takes
    obtain ⟨rfl, rfl⟩ := takes
    exact ⟨.integer n, rfl, by simp [Term.uses], rfl⟩
  · next text =>
    rintro _ ts env' ⟨⟩ takes
    obtain ⟨rfl, allowed, rfl⟩ := TakeAll.singleton.1 takes
    exact ⟨.text text, rfl, by simp [Term.uses, allowed], rfl⟩
  · rintro _ ts env' ⟨⟩ takes
    exact word .trueWord [.push .constant 0, .arithmetic .not] ts env' takes
  · rintro _ ts env' ⟨⟩ takes
    exact word .falseWord [.push .constant 0] ts env' takes
  · rintro _ ts env' ⟨⟩ takes
    exact word .nullWord [.push .constant 0] ts env' takes
  · rintro _ ts env' ⟨⟩ takes
    exact word .thisWord [.push .pointer 0] ts env' takes
  · rintro _ ts env' ⟨⟩ takes
    simp only [TakeAll.expression, TakeAll.symbol, TakeAll.nil] at takes
    obtain ⟨e, _, rfl, allowed, _, rfl, rfl, rfl⟩ := takes
    exact ⟨.group e, by simp [Term.terminals], allowed, rfl⟩
  · rintro _ ts env' ⟨⟩ takes
    simp only [TakeAll.term, TakeAll.emit, TakeAll.nil] at takes
    obtain ⟨t, _, rfl, allowed, rfl, rfl⟩ := takes
    exact ⟨.unary .negate t, by simp [Term.terminals, UnaryOperator.symbol], allowed, rfl⟩
  · rintro _ ts env' ⟨⟩ takes
    simp only [TakeAll.term, TakeAll.emit, TakeAll.nil] at takes
    obtain ⟨t, _, rfl, allowed, rfl, rfl⟩ := takes
    exact ⟨.unary .complement t, by simp [Term.terminals, UnaryOperator.symbol], allowed, rfl⟩
  · rintro _ ts env' ⟨⟩ takes
    obtain ⟨t, written, allowed, rfl⟩ := TakeAll.singleton.1 takes
    exact ⟨t, written, allowed, rfl⟩
  · trivial

theorem stringConstant_justified (text : String) (site : Nat) :
    (stringConstant text site).Justified := by
  intro env here ahead
  simp only [action, Action.stringConstant]
  split
  · next short =>
    intro ts env' takes
    simp only [TakeAll.emit, TakeAll.singleton] at takes
    obtain ⟨rfl, small, rfl⟩ := takes
    exact ⟨rfl, ⟨short, small⟩, rfl⟩
  · trivial

theorem characters_justified (text : List Char) (site : Nat) :
    (characters text site).Justified := by
  intro env here ahead
  cases text with
  | nil =>
    rintro ts env' ⟨rfl, rfl⟩
    exact ⟨rfl, by simp, rfl⟩
  | cons char text =>
    simp only [action, Action.characters]
    split
    · next small =>
      intro ts env' takes
      simp only [TakeAll.emit, TakeAll.singleton] at takes
      obtain ⟨rfl, others, rfl⟩ := takes
      exact ⟨rfl, List.forall_mem_cons.2 ⟨small, others⟩, rfl⟩
    · trivial

theorem named_justified (name : String) (site : Nat) : (named name site).Justified := by
  intro env here ahead
  have ofCall : ∀ ts env', TakeAll [call name site] ts env env' →
      (named name site).Takes ts env env' := by
    intro ts env' takes
    obtain ⟨call, rfl, rfl, allowed, rfl⟩ := TakeAll.singleton.1 takes
    exact ⟨.call call, by rw [Term.terminals, call.terminals_eq_cons], allowed, rfl⟩
  simp only [action, Action.named]
  split
  · rintro _ ts env' ⟨⟩ takes
    obtain ⟨e, rfl, allowed, allowed', rfl⟩ := TakeAll.singleton.1 takes
    exact ⟨.element name e, rfl, by simp [Term.uses, *], rfl⟩
  · exact ofCall
  · exact ofCall
  · intro ts env' takes
    obtain ⟨rfl, allowed, rfl⟩ := TakeAll.singleton.1 takes
    exact ⟨.var name, rfl, by simp [Term.uses, allowed], rfl⟩

theorem load_justified (name : String) (site : Nat) : (load name site).Justified := by
  intro env here ahead
  refine Action.ofSlot_justifies fun slot allowed ts env' takes => ?_
  simp only [TakeAll.emit, TakeAll.nil] at takes
  obtain ⟨rfl, rfl⟩ := takes
  exact ⟨rfl, allowed, rfl⟩

theorem element_justified (name : String) (site : Nat) : (element name site).Justified := by
  intro env here ahead
  refine Action.ofSlot_justifies fun slot allowed ts env' takes => ?_
  simp only [TakeAll.expression, TakeAll.symbol, TakeAll.emit, TakeAll.nil] at takes
  obtain ⟨e, _, rfl, allowed', _, rfl, rfl, rfl⟩ := takes
  exact ⟨e, rfl, allowed, allowed', rfl⟩

/-! ### Calls -/

theorem call_justified (name : String) (site : Nat) : (call name site).Justified := by
  intro env here ahead
  simp only [action, Action.call]
  split
  · rintro _ ts env' ⟨⟩ takes
    obtain ⟨m, as, rfl, allowed, allowed', rfl⟩ := TakeAll.singleton.1 takes
    exact ⟨.dotted name m as, rfl, rfl, by simp [Call.uses, *], rfl⟩
  · intro ts env' takes
    simp only [TakeAll.emit, TakeAll.singleton] at takes
    obtain ⟨as, rfl, allowed, rfl⟩ := takes
    exact ⟨.own name as, rfl, rfl, allowed, rfl⟩

theorem member_justified (receiver : String) (site : Nat) :
    (member receiver site).Justified := by
  intro env here ahead
  refine Action.ofName_justifies ?_
  rintro name _ ts env' ⟨⟩ takes
  obtain ⟨as, rfl, allowed, allowed', rfl⟩ := TakeAll.singleton.1 takes
  exact ⟨name, as, rfl, allowed, allowed', rfl⟩

theorem dispatch_justified (receiver : String) (site : Nat) (name : String) :
    (dispatch receiver site name).Justified := by
  intro env here ahead
  simp only [action, Action.dispatch]
  split
  · next v found =>
    refine Action.ofSlot_justifies fun slot allowed ts env' takes => ?_
    simp only [TakeAll.emit, TakeAll.singleton] at takes
    obtain ⟨as, rfl, allowed', rfl⟩ := takes
    obtain ⟨w, found', reachable⟩ := allowed
    refine ⟨as, rfl, fun u found'' => ?_, allowed', rfl⟩
    rw [found'] at found''
    cases found''
    exact reachable
  · next free =>
    intro ts env' takes
    obtain ⟨as, rfl, allowed, rfl⟩ := TakeAll.singleton.1 takes
    refine ⟨as, rfl, fun u found => ?_, allowed, rfl⟩
    cases free.symm.trans found

theorem arguments_justified (target : String) (count : Nat) :
    (arguments target count).Justified := by
  intro env here ahead ts env' takes
  simp only [TakeAll.symbol, TakeAll.singleton] at takes
  obtain ⟨_, rfl, as, rfl, allowed, rfl⟩ := takes
  exact ⟨as, rfl, allowed, rfl⟩

theorem takeAll_endOfCall {target : String} {count : Nat} {ts : List Terminal} {env env' : Env} :
    TakeAll (endOfCall target count) ts env env' ↔
      ts = [.symbol .rightParen] ∧ env' = env := by
  simp only [endOfCall, TakeAll.report, TakeAll.symbol, TakeAll.emit, TakeAll.nil]
  constructor
  · rintro ⟨_, rfl, rfl, rfl⟩
    exact ⟨rfl, rfl⟩
  · rintro ⟨rfl, rfl⟩
    exact ⟨[], rfl, rfl, rfl⟩

theorem expressionList_justified (target : String) (count : Nat) :
    (expressionList target count).Justified := by
  intro env here ahead ts env' takes
  split at takes
  · obtain ⟨rfl, rfl⟩ := takeAll_endOfCall.1 takes
    exact ⟨.nil, rfl, by simp [Arguments.uses], rfl⟩
  · simp only [TakeAll.expression, TakeAll.singleton] at takes
    obtain ⟨e, _, rfl, allowed, as, rfl, allowed', rfl⟩ := takes
    exact ⟨.cons e as, by simp [Arguments.terminals], by simp [Arguments.uses, *], rfl⟩

theorem moreArguments_justified (target : String) (count : Nat) :
    (moreArguments target count).Justified := by
  intro env here ahead
  simp only [action, Action.moreArguments]
  split
  · rintro _ ts env' ⟨⟩ takes
    simp only [TakeAll.expression, TakeAll.singleton] at takes
    obtain ⟨e, _, rfl, allowed, as, rfl, allowed', rfl⟩ := takes
    exact ⟨.cons e as, by simp [Arguments.moreTerminals], by simp [Arguments.uses, *], rfl⟩
  · intro ts env' takes
    obtain ⟨rfl, rfl⟩ := takeAll_endOfCall.1 takes
    exact ⟨.nil, rfl, by simp [Arguments.uses], rfl⟩

/-! ### Statements -/

theorem statements_justified : statements.Justified := by
  intro env here ahead ts env' takes
  obtain ⟨_, _, _, rfl, takes, last⟩ := takes
  simp only [TakeAll.report, TakeAll.nil] at last
  obtain ⟨rfl, rfl⟩ := last
  rwa [List.append_nil]

/-- A statement and those behind it. -/
theorem takes_moreStatements {s : Statement} (node : Node) (env : Env) {ts : List Terminal}
    {env' : Env} (allowed : AllAllowed env.context s.uses)
    (rest : TakeAll [report (.closed node), moreStatements] ts (env.advance s.constructs) env') :
    moreStatements.Takes (s.terminals ++ ts) env env' := by
  simp only [TakeAll.report, TakeAll.singleton] at rest
  obtain ⟨ss, rfl, allowed', rfl⟩ := rest
  refine ⟨.cons s ss, rfl, allAllowed_append.2 ⟨allowed, allowed'⟩, ?_⟩
  simp [Env.advance, Statements.constructs, Nat.add_assoc]

theorem moreStatements_justified : moreStatements.Justified := by
  intro env here ahead
  simp only [action, Action.moreStatements, Action.moreStatements.statement]
  split
  · rintro _ ts env' ⟨⟩ takes
    obtain ⟨ts₁, ts₂, _, rfl, ⟨s, written, allowed, rfl⟩, rest⟩ := takes
    rw [← List.cons_append, written]
    exact takes_moreStatements _ _ allowed rest
  · rintro _ ts env' ⟨⟩ takes
    simp only [ifStatement, condition, block, List.cons_append,
      List.nil_append, TakeAll.symbol, TakeAll.expression, TakeAll.statements,
      TakeAll.emit] at takes
    obtain ⟨_, rfl, e, _, rfl, allowed, _, rfl, _, rfl, body, _, rfl, allowed', _, rfl, takes⟩ :=
      takes
    obtain ⟨_, _, _, rfl, otherwise, rest⟩ := takes
    rw [TakeAll.emit] at rest
    rcases otherwise with ⟨rfl, rfl⟩ | ⟨other, rfl, allowed'', rfl⟩
    · have whole := takes_moreStatements .ifStatement env (s := .ifThen e body)
        (allAllowed_append.2 ⟨allowed, allowed'⟩)
        (by simpa [Env.advance, Statement.constructs, Nat.add_assoc, Nat.add_comm] using rest)
      simpa [Statement.terminals] using whole
    · have whole := takes_moreStatements .ifStatement env (s := .ifElse e body other)
        (by simp only [Statement.uses, allAllowed_append]; exact ⟨allowed, allowed', allowed''⟩)
        (by simpa [Env.advance, Statement.constructs, Nat.add_assoc, Nat.add_comm] using rest)
      simpa [Statement.terminals] using whole
  · rintro _ ts env' ⟨⟩ takes
    simp only [whileStatement, condition, block, List.cons_append,
      List.nil_append, TakeAll.symbol, TakeAll.expression, TakeAll.statements,
      TakeAll.emit] at takes
    obtain ⟨_, rfl, e, _, rfl, allowed, _, rfl, _, rfl, body, _, rfl, allowed', _, rfl, rest⟩ :=
      takes
    have whole := takes_moreStatements .whileStatement env (s := .whileDo e body)
      (allAllowed_append.2 ⟨allowed, allowed'⟩)
      (by simpa [Env.advance, Statement.constructs, Nat.add_assoc, Nat.add_comm] using rest)
    simpa [Statement.terminals] using whole
  · rintro _ ts env' ⟨⟩ takes
    simp only [doStatement, List.cons_append, List.nil_append] at takes
    obtain ⟨_, _, _, rfl, ⟨call, rfl, allowed, rfl⟩, rest⟩ := takes
    simp only [TakeAll.symbol, TakeAll.emit] at rest
    obtain ⟨_, rfl, rest⟩ := rest
    have whole := takes_moreStatements _ _ (s := .doCall call) allowed rest
    simpa [Statement.terminals] using whole
  · rintro _ ts env' ⟨⟩ takes
    simp only [returnStatement, List.cons_append, List.nil_append] at takes
    obtain ⟨_, _, _, rfl, ⟨value, rfl⟩, rest⟩ := takes
    simp only [TakeAll.symbol, TakeAll.emit] at rest
    obtain ⟨_, rfl, rest⟩ := rest
    rcases value with rfl | ⟨e, rfl, allowed⟩
    · have whole := takes_moreStatements _ _ (s := .returnNothing) (allAllowed_nil _) rest
      simpa [Statement.terminals] using whole
    · have whole := takes_moreStatements _ _ (s := .returnValue e) allowed rest
      simpa [Statement.terminals] using whole
  · rintro ts env' ⟨rfl, rfl⟩
    exact ⟨.nil, rfl, by simp [Statements.uses], rfl⟩

theorem letTarget_justified : letTarget.Justified := by
  intro env here ahead
  refine Action.ofName_justifies ?_
  rintro name _ ts env' ⟨⟩ takes
  obtain ⟨s, written, allowed, rfl⟩ := TakeAll.singleton.1 takes
  exact ⟨s, written, allowed, rfl⟩

theorem assign_justified (name : String) (site : Nat) : (assign name site).Justified := by
  intro env here ahead
  refine Action.ofSlot_justifies fun slot allowed ts env' takes => ?_
  exact TakeAll.singleton.1 takes name allowed

theorem assignTo_justified (target : Slot) : (assignTo target).Justified := by
  intro env here ahead
  simp only [action, Action.assignTo]
  split
  · rintro _ ts env' ⟨⟩ takes name allowed
    simp only [assignElement, TakeAll.symbol, TakeAll.expression, TakeAll.emit,
      TakeAll.nil] at takes
    obtain ⟨i, _, rfl, allowed', _, rfl, _, rfl, e, _, rfl, allowed'', _, rfl, rfl, rfl⟩ := takes
    exact ⟨.letElement name i e, rfl, by simp [Statement.uses, *], rfl⟩
  · rintro ts env' takes name allowed
    simp only [TakeAll.symbol, TakeAll.expression, TakeAll.emit, TakeAll.nil] at takes
    obtain ⟨_, rfl, e, _, rfl, allowed', _, rfl, rfl, rfl⟩ := takes
    exact ⟨.letVariable name e, rfl, by simp [Statement.uses, *], rfl⟩

theorem elsePart_justified : elsePart.Justified := by
  intro env here ahead
  simp only [action, Action.elsePart]
  split
  · rename_i word
    rintro t ts env' ⟨⟩ takes
    obtain rfl : t = .keyword .kwElse := by simpa using word
    simp only [block, TakeAll.symbol, TakeAll.statements, TakeAll.nil] at takes
    obtain ⟨_, rfl, other, _, rfl, allowed, _, rfl, rfl, rfl⟩ := takes
    exact .inr ⟨other, rfl, allowed, rfl⟩
  · rintro ts env' ⟨rfl, rfl⟩
    exact .inl ⟨rfl, rfl⟩

theorem returnValue_justified : returnValue.Justified := by
  intro env here ahead
  simp only [action, Action.returnValue]
  split
  · intro ts env' takes
    simp only [TakeAll.emit, TakeAll.nil] at takes
    exact ⟨.inl takes.1, takes.2⟩
  · intro ts env' takes
    obtain ⟨e, rfl, allowed, rfl⟩ := TakeAll.singleton.1 takes
    exact ⟨.inr ⟨e, rfl, allowed⟩, rfl⟩

theorem callee_justified : callee.Justified := by
  intro env here ahead
  refine Action.ofName_justifies ?_
  rintro name _ ts env' ⟨⟩ takes
  obtain ⟨call, rfl, rfl, allowed, rfl⟩ := TakeAll.singleton.1 takes
  exact ⟨call, call.terminals_eq_cons.symm, allowed, rfl⟩

/-! ### Declarations -/

theorem type_justifies {use : TypeUse} {ahead : Option Terminal} {env : Env}
    {P : List Terminal → Env → Prop}
    (h : ∀ (t : TypeName) (ts : List Terminal) (env' : Env),
      TakeAll (use.goals t.text) ts env env' → P (t.terminal :: ts) env') :
    (Action.type env use ahead).Justifies ahead env P := by
  unfold Action.type
  split
  · rintro _ ts env' ⟨⟩ takes
    exact h .int ts env' takes
  · rintro _ ts env' ⟨⟩ takes
    exact h .char ts env' takes
  · rintro _ ts env' ⟨⟩ takes
    exact h .boolean ts env' takes
  · next name =>
    rintro _ ts env' ⟨⟩ takes
    exact h (.named name) ts env' takes
  · trivial

theorem type_justified (use : TypeUse) : (type use).Justified := by
  intro env here ahead
  refine type_justifies fun t ts env' takes => ?_
  cases use with
  | names kind =>
    obtain ⟨_, _, _, rfl, ⟨first, rfl, declares⟩, takes⟩ := takes
    obtain ⟨more, rfl, declares'⟩ := TakeAll.singleton.1 takes
    exact ⟨⟨t, first, more⟩, rfl, declares.append declares'⟩
  | parameter =>
    obtain ⟨name, rfl, declares⟩ := TakeAll.singleton.1 takes
    exact ⟨⟨t, name⟩, rfl, declares⟩
  | result =>
    obtain ⟨rfl, rfl⟩ := takes
    exact ⟨t, rfl, rfl⟩

theorem newName_justified (kind : Kind) (ty : String) : (newName kind ty).Justified := by
  intro env here ahead
  refine Action.ofName_justifies ?_
  rintro name _ ts env' ⟨⟩ takes
  obtain ⟨rfl, declares⟩ := TakeAll.singleton.1 takes
  exact ⟨name, rfl, declares⟩

theorem declare_justified (kind : Kind) (ty name : String) (site : Nat) :
    (declare kind ty name site).Justified := by
  intro env here ahead
  simp only [action, Action.declare]
  split
  · next v symbols declared =>
    rintro ts env' ⟨rfl, rfl⟩
    refine ⟨rfl, fun ds table => ?_⟩
    rw [table] at declared
    have fresh := Declarations.not_mem_of_declare_table (d := ⟨kind, ty, name⟩) declared
    have same := Declarations.declare_table_eq_ok (d := ⟨kind, ty, name⟩) fresh
    rw [declared] at same
    cases same
    refine ⟨fun distinct => ?_, rfl⟩
    rw [List.map_append, List.nodup_append]
    refine ⟨distinct, by simp, ?_⟩
    rintro a mem b newest rfl
    rw [List.map_singleton, List.mem_singleton] at newest
    exact fresh (newest ▸ mem)
  · trivial

theorem moreNames_justified (kind : Kind) (ty : String) : (moreNames kind ty).Justified := by
  intro env here ahead
  simp only [action, Action.moreNames]
  split
  · rintro _ ts env' ⟨⟩ takes
    obtain ⟨_, _, _, rfl, ⟨name, rfl, declares⟩, takes⟩ := takes
    obtain ⟨names, rfl, declares'⟩ := TakeAll.singleton.1 takes
    exact ⟨name :: names, rfl, declares.append declares'⟩
  · rintro ts env' ⟨rfl, rfl⟩
    exact ⟨[], rfl, .nil _ _⟩

theorem classVarDecs_justified : classVarDecs.Justified := by
  intro env here ahead
  have one (kind : Kind) (ofClass : kind.belongsToClass = true) (ts : List Terminal) (env' : Env)
      (takes : TakeAll [.type (.names kind), .symbol .semicolon, .report (.closed .classVarDec),
        classVarDecs] ts env env') :
      classVarDecs.Takes (.keyword kind.keyword :: ts) env env' := by
    obtain ⟨_, _, _, rfl, ⟨names, rfl, declares⟩, takes⟩ := takes
    simp only [TakeAll.symbol, TakeAll.report, TakeAll.singleton] at takes
    obtain ⟨_, rfl, vars, rfl, declares'⟩ := takes
    refine ⟨⟨kind, ofClass, names⟩ :: vars, by simp [ClassVarDec.terminals], ?_⟩
    exact (declares.of_belongsToClass ofClass).append declares'
  simp only [action, Action.classVarDecs, Action.classVarDecs.declaration]
  split
  · rintro _ ts env' ⟨⟩ takes
    exact one .static rfl ts env' takes
  · rintro _ ts env' ⟨⟩ takes
    exact one .field rfl ts env' takes
  · rintro ts env' ⟨rfl, rfl⟩
    exact ⟨[], rfl, .nil _ _⟩

theorem varDecs_justified : varDecs.Justified := by
  intro env here ahead
  simp only [action, Action.varDecs]
  split
  · rename_i word
    rintro t ts env' ahead takes
    obtain rfl : t = .keyword .kwVar := Option.some.inj (ahead.symm.trans word)
    obtain ⟨_, _, _, rfl, ⟨names, rfl, declares⟩, takes⟩ := takes
    simp only [TakeAll.symbol, TakeAll.report, TakeAll.singleton] at takes
    obtain ⟨_, rfl, others, rfl, declares'⟩ := takes
    exact ⟨names :: others, by simp [Names.localTerminals], declares.append declares'⟩
  · rintro ts env' ⟨rfl, rfl⟩
    exact ⟨[], rfl, .nil _ _⟩

theorem moreParameters_justified : moreParameters.Justified := by
  intro env here ahead
  simp only [action, Action.moreParameters]
  split
  · rintro _ ts env' ⟨⟩ takes
    obtain ⟨_, _, _, rfl, ⟨p, rfl, declares⟩, takes⟩ := takes
    obtain ⟨ps, rfl, declares'⟩ := TakeAll.singleton.1 takes
    exact ⟨p :: ps, rfl, declares.append declares'⟩
  · rintro ts env' ⟨rfl, rfl⟩
    exact ⟨[], rfl, .nil _ _⟩

theorem parameterList_justified : parameterList.Justified := by
  intro env here ahead ts env' takes
  split at takes
  · obtain ⟨rfl, rfl⟩ := TakeAll.report.1 takes
    exact ⟨[], rfl, .nil _ _⟩
  · obtain ⟨_, _, _, rfl, ⟨p, rfl, declares⟩, _, _, _, rfl, ⟨ps, rfl, declares'⟩, last⟩ := takes
    simp only [TakeAll.report, TakeAll.nil] at last
    obtain ⟨rfl, rfl⟩ := last
    exact ⟨p :: ps, by simp [Parameter.listTerminals], declares.append declares'⟩

/-! ### Subroutines and classes -/

theorem returnType_justified : returnType.Justified := by
  intro env here ahead
  simp only [action, Action.returnType]
  split
  · rename_i word
    rintro t ts env' ahead ⟨rfl, rfl⟩
    obtain rfl : t = .keyword .kwVoid := Option.some.inj (ahead.symm.trans word)
    exact ⟨none, rfl, rfl⟩
  · intro ts env' takes
    obtain ⟨t, rfl, rfl⟩ := TakeAll.singleton.1 takes
    exact ⟨some t, rfl, rfl⟩

theorem prologue_justified (name : String) : (prologue name).Justified :=
  fun _ _ _ _ _ takes => TakeAll.map_emit.1 takes

theorem subroutineBody_justified (name : String) : (subroutineBody name).Justified := by
  intro env here ahead ts env' takes
  simp only [TakeAll.symbol] at takes
  obtain ⟨_, rfl, _, _, env₁, rfl, ⟨others, rfl, declares⟩, _, _, _, rfl, ⟨rfl, rfl⟩, takes⟩ :=
    takes
  simp only [TakeAll.statements, TakeAll.symbol, TakeAll.report, TakeAll.nil] at takes
  obtain ⟨body, _, rfl, allowed, _, rfl, rfl, rfl⟩ := takes
  exact ⟨others, body, _, rfl, declares, allowed, rfl⟩

theorem receiver_declares {env env₀ env₁ : Env} {site : Nat} {ts : List Terminal}
    {s : SubroutineDec} (kind : s.kind = env.subroutineKind)
    (takes : TakeAll (Action.subroutine.receiver env site) ts env₀ env₁) :
    ts = [] ∧ Declares .localVar (s.receiver env.className) env₀ env₁ := by
  unfold Action.subroutine.receiver at takes
  unfold SubroutineDec.receiver
  rw [kind]
  split at takes
  · next method =>
    obtain ⟨rfl, declares⟩ := TakeAll.singleton.1 takes
    rw [if_pos method]
    exact ⟨rfl, declares⟩
  · next other =>
    obtain ⟨rfl, rfl⟩ := takes
    rw [if_neg other]
    exact ⟨rfl, .nil _ _⟩

theorem subroutine_justified (name : String) (site : Nat) :
    (subroutine name site).Justified := by
  intro env here ahead ts env' takes result
  obtain ⟨_, _, _, rfl, receiver, rest⟩ := TakeAll.append.1 takes
  obtain ⟨_, rfl, _, _, _, rfl, ⟨ps, rfl, declares⟩, body⟩ := TakeAll.symbol.1 rest
  simp only [TakeAll.symbol, TakeAll.singleton] at body
  obtain ⟨_, rfl, others, body, env₁, rfl, declares', allowed, rfl⟩ := body
  let s : SubroutineDec := ⟨env.subroutineKind, result, name, ps, others, body⟩
  obtain ⟨rfl, declares₀⟩ := receiver_declares (s := s) rfl receiver
  refine ⟨s, rfl, rfl, rfl, rfl, env₁, ?_, allowed, rfl⟩
  exact declares₀.append (declares.append declares')

theorem subroutineName_justified : subroutineName.Justified := by
  intro env here ahead
  refine Action.ofName_justifies ?_
  rintro name _ ts env' ⟨⟩ takes result
  obtain ⟨s, kind, rfl, rfl, rfl, compiled⟩ := TakeAll.singleton.1 takes result
  exact ⟨s, kind, rfl, rfl, compiled⟩

end Goal

/-- A subroutine that was compiled keeps the rules of its class. -/
theorem SubroutineDec.wellScoped_of_compiled {s : SubroutineDec} {d : ClassDec}
    {env env' : Env} (compiled : s.Compiled env env') (kind : s.kind = env.subroutineKind)
    (knows : env.Knows d) (distinct : (d.declarations.map (·.name)).Nodup) :
    s.WellScoped d ∧ env'.Knows d := by
  obtain ⟨symbols, className, subroutineKind, labels⟩ := env
  obtain ⟨rfl, before, rfl⟩ := knows
  obtain ⟨env₁, declares, allowed, rfl⟩ := compiled
  obtain ⟨distinct', rfl⟩ := declares ⟨d.declarations, []⟩ rfl
  have all : ((s.allDeclarations d.name).map (·.name)).Nodup := distinct' List.nodup_nil
  have context := SubroutineDec.context_table distinct all labels
  rw [kind] at context
  exact ⟨⟨all, context ▸ allowed⟩, rfl, _, rfl⟩

namespace Goal

theorem subroutineDecs_justified : subroutineDecs.Justified := by
  intro env here ahead
  have one (kind : SubroutineKind) (ts : List Terminal) (env' : Env)
      (takes : TakeAll [returnType, subroutineName, report (.closed .subroutineDec),
        subroutineDecs] ts { env with subroutineKind := kind } env') :
      subroutineDecs.Takes (.keyword kind.keyword :: ts) env env' := by
    obtain ⟨_, _, _, rfl, ⟨result, rfl, rfl⟩, _, _, env₁, rfl, takes, rest⟩ := takes
    obtain ⟨s, rfl, rfl, rfl, compiled⟩ := takes result
    simp only [TakeAll.report, TakeAll.singleton] at rest
    obtain ⟨subroutines, rfl, others⟩ := rest
    refine ⟨s :: subroutines, by simp [SubroutineDec.terminals], fun d knows distinct => ?_⟩
    obtain ⟨wellScoped, knows'⟩ := s.wellScoped_of_compiled compiled rfl knows distinct
    exact List.forall_mem_cons.2 ⟨wellScoped, others d knows' distinct⟩
  simp only [action, Action.subroutineDecs, Action.subroutineDecs.declaration]
  split
  · rintro _ ts env' ⟨⟩ takes
    exact one .constructor ts env' takes
  · rintro _ ts env' ⟨⟩ takes
    exact one .function ts env' takes
  · rintro _ ts env' ⟨⟩ takes
    exact one .method ts env' takes
  · rintro ts env' ⟨rfl, rfl⟩
    exact ⟨[], rfl, by simp⟩

theorem className_justified : className.Justified := by
  intro env here ahead
  refine Action.ofName_justifies ?_
  rintro name _ ts env' ⟨⟩ takes
  simp only [TakeAll.report, TakeAll.nil] at takes
  obtain ⟨rfl, rfl⟩ := takes
  exact ⟨name, rfl, rfl⟩

theorem classWord_justified : classWord.Justified := by
  intro env here ahead
  simp only [action, Action.classWord]
  split
  · rename_i word
    rintro t ts env' ahead ⟨rfl, rfl⟩
    obtain rfl : t = .keyword .kwClass := Option.some.inj (ahead.symm.trans word)
    exact ⟨rfl, rfl⟩
  · trivial

theorem classDec_justified : classDec.Justified := by
  intro env here ahead ts env' takes
  obtain ⟨_, _, _, rfl, ⟨rfl, rfl⟩, _, _, _, rfl, ⟨name, rfl, rfl⟩, takes⟩ := takes
  simp only [TakeAll.symbol] at takes
  obtain ⟨_, rfl, _, _, env₁, rfl, ⟨vars, rfl, declares⟩, _, _, _, rfl,
    ⟨subroutines, rfl, wellScoped⟩, takes⟩ := takes
  simp only [TakeAll.symbol, TakeAll.report, TakeAll.nil] at takes
  obtain ⟨_, rfl, rfl, rfl⟩ := takes
  refine ⟨⟨name, vars, subroutines⟩, rfl, fun start => ?_⟩
  obtain ⟨distinct, rfl⟩ := declares ⟨[], []⟩ start
  have all := distinct List.nodup_nil
  exact ⟨all, wellScoped ⟨name, vars, subroutines⟩ ⟨rfl, [], rfl⟩ all⟩

/-! ### All goals -/

theorem symbol_justified (s : Symbol) : (symbol s).Justified := by
  intro env here ahead
  simp only [action, Action.ofSymbol]
  split
  · rename_i same
    rintro t ts env' ahead ⟨rfl, rfl⟩
    obtain rfl : t = .symbol s := Option.some.inj (ahead.symm.trans same)
    exact ⟨rfl, rfl⟩
  · trivial

theorem endOfText_justified : endOfText.Justified := by
  intro env here ahead
  cases ahead with
  | none => exact fun _ _ takes => takes
  | some t => trivial

/-- One action of a goal keeps what the goal says. -/
theorem action_justifies (goal : Goal) : goal.Justified := by
  cases goal with
  | report event => exact fun _ _ _ _ _ takes => TakeAll.nil.1 takes
  | emit i => exact fun _ _ _ => ⟨rfl, rfl⟩
  | symbol s => exact symbol_justified s
  | endOfText => exact endOfText_justified
  | classDec => exact classDec_justified
  | classWord => exact classWord_justified
  | className => exact className_justified
  | classVarDecs => exact classVarDecs_justified
  | type use => exact type_justified use
  | newName kind ty => exact newName_justified kind ty
  | declare kind ty name site => exact declare_justified kind ty name site
  | moreNames kind ty => exact moreNames_justified kind ty
  | subroutineDecs => exact subroutineDecs_justified
  | returnType => exact returnType_justified
  | subroutineName => exact subroutineName_justified
  | subroutine name site => exact subroutine_justified name site
  | parameterList => exact parameterList_justified
  | moreParameters => exact moreParameters_justified
  | subroutineBody name => exact subroutineBody_justified name
  | varDecs => exact varDecs_justified
  | prologue name => exact prologue_justified name
  | statements => exact statements_justified
  | moreStatements => exact moreStatements_justified
  | letTarget => exact letTarget_justified
  | assign name site => exact assign_justified name site
  | assignTo target => exact assignTo_justified target
  | elsePart => exact elsePart_justified
  | returnValue => exact returnValue_justified
  | callee => exact callee_justified
  | expression => exact expression_justified
  | operators => exact operators_justified
  | term => exact term_justified
  | operand => exact operand_justified
  | stringConstant text site => exact stringConstant_justified text site
  | characters text site => exact characters_justified text site
  | named name site => exact named_justified name site
  | load name site => exact load_justified name site
  | element name site => exact element_justified name site
  | call name site => exact call_justified name site
  | member receiver site => exact member_justified receiver site
  | dispatch receiver site name => exact dispatch_justified receiver site name
  | arguments target count => exact arguments_justified target count
  | expressionList target count => exact expressionList_justified target count
  | moreArguments target count => exact moreArguments_justified target count

end Goal

/-! ## Whole passes -/

namespace Machine

variable {ending : Option LexCause} {m z : Machine} {es : List Event}

/-- A pass that meets its goals takes the terminals that they say. -/
theorem Reaches.takeAll (reached : Reaches ending m es z) (done : z.goals = []) :
    ∃ ts, m.ahead = ts ++ z.ahead ∧ TakeAll m.goals ts m.env z.env := by
  induction reached with
  | refl m =>
    refine ⟨[], rfl, ?_⟩
    rw [done]
    exact ⟨rfl, rfl⟩
  | @emit g k ahead site env i es z act _ ih =>
    obtain ⟨ts, read, takes⟩ := ih done
    have justified := g.action_justifies env site ahead.head?
    rw [act] at justified
    exact ⟨ts, read, [], ts, env, rfl, justified, takes⟩
  | @expand g k next ahead site env env' events es z act _ ih =>
    obtain ⟨_, read, takes⟩ := ih done
    obtain ⟨ts₁, ts₂, env₁, rfl, first, rest⟩ := TakeAll.append.1 takes
    have justified := g.action_justifies env site ahead.head?
    rw [act] at justified
    exact ⟨_, read, ts₁, ts₂, env₁, rfl, justified ts₁ env₁ first, rest⟩
  | @accept g k next t ahead site env env' events es z act _ _ ih =>
    obtain ⟨_, read, takes⟩ := ih done
    obtain ⟨ts₁, ts₂, env₁, rfl, first, rest⟩ := TakeAll.append.1 takes
    have justified := g.action_justifies env site (some t)
    rw [act] at justified
    exact ⟨t :: (ts₁ ++ ts₂), congrArg (t :: ·) read, t :: ts₁, ts₂, env₁, rfl,
      justified t ts₁ env₁ rfl first, rest⟩

end Machine

/-- A class that is compiled is a tree that keeps the rules. -/
theorem ClassDec.of_finishes {ending : Option LexCause} {terminals : List Terminal}
    {es : List Event} (finishes : (Machine.start terminals).Finishes ending es) :
    ∃ d : ClassDec, d.terminals = terminals ∧ d.WellScoped := by
  obtain ⟨z, reached, done⟩ := finishes
  obtain ⟨_, _, ahead, site, env, first, second⟩ :=
    reached.split [.classDec] [.endOfText] done
  obtain ⟨ts, read, takes⟩ := first.takeAll rfl
  obtain ⟨d, rfl, wellScoped⟩ := TakeAll.singleton.1 takes
  obtain rfl : ahead = [] := Machine.ahead_eq_nil_of_endOfText second done
  exact ⟨d, by simpa using read.symm, wellScoped rfl⟩

end JackToVm
