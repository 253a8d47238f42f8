import JackToVm.Production.Declaration
import JackToVm.Production.Statement
import JackToVm.Production.Expression

/-!
# The machine

A class is compiled in one pass over its terminals, with one terminal of lookahead. The machine
holds a stack of goals and the terminals that are not consumed; it meets the first goal by the
action for the terminal ahead. To consume a terminal it needs the next one: if the text has none
there but an error, the terminal is not reported and the error ends the pass.

Results.
1. The goals that replace a goal weigh less (`weights_of_expand`), or a terminal is consumed that
   pays for them (`weights_of_accept`).
2. So every move makes the machine lighter (`Machine.weight_of_emits`, `Machine.weight_of_moves`),
   and the pass ends whatever the terminals are.
3. What the pass does is told by its first move (`Machine.run_of_moves`, `Machine.run_of_emits`,
   `Machine.run_of_refused`, `Machine.run_of_fails`, `Machine.run_of_finishes`).
-/

namespace JackToVm

/-! ## Goals and their actions -/

/-- How a goal is met: its rule of the grammar and the code for it. `here` is the index of the
terminal ahead. -/
def Goal.action (goal : Goal) (env : Env) (here : Nat) (ahead : Option Terminal) : Action :=
  match goal with
  | .report event => .expand [event] [] env
  | .emit instruction => .emit instruction
  | .symbol s => .ofSymbol env s ahead
  | .endOfText => .endOfText env ahead
  | .classDec => .classDec env
  | .classWord => .classWord env ahead
  | .className => .className env ahead
  | .classVarDecs => .classVarDecs env ahead
  | .type use => .type env use ahead
  | .newName kind ty => .newName env kind ty here ahead
  | .declare kind ty name site => .declare env kind ty name site
  | .moreNames kind ty => .moreNames env kind ty ahead
  | .subroutineDecs => .subroutineDecs env ahead
  | .returnType => .returnType env ahead
  | .subroutineName => .subroutineName env here ahead
  | .subroutine name site => .subroutine env name site
  | .parameterList => .parameterList env ahead
  | .moreParameters => .moreParameters env ahead
  | .subroutineBody name => .subroutineBody env name
  | .varDecs => .varDecs env ahead
  | .prologue name => .prologue env name
  | .statements => .statements env
  | .moreStatements => .moreStatements env ahead
  | .letTarget => .letTarget env here ahead
  | .assign name site => .assign env name site
  | .assignTo target => .assignTo env target ahead
  | .elsePart => .elsePart env ahead
  | .returnValue => .returnValue env ahead
  | .callee => .callee env here ahead
  | .expression => .expression env
  | .operators => .operators env ahead
  | .term => .term env
  | .operand => .operand env here ahead
  | .stringConstant text site => .stringConstant env text site
  | .characters text site => .characters env text site
  | .named name site => .named env name site ahead
  | .load name site => .load env name site
  | .element name site => .element env name site
  | .call name site => .call env name site ahead
  | .member receiver site => .member env receiver site ahead
  | .dispatch receiver site name => .dispatch env receiver site name
  | .arguments target count => .arguments env target count
  | .expressionList target count => .expressionList env target count ahead
  | .moreArguments target count => .moreArguments env target count ahead

/-! ## The machine -/

/-- What is yet to do, the terminals that are not consumed, and the number of those that are. -/
structure Machine where
  goals : List Goal
  ahead : List Terminal
  site : Nat
  env : Env

/-- What a machine does next. -/
inductive Move
  | finishes
  | fails (events : List Event) (failure : Failure)
  | emits (instruction : Instruction) (next : Machine)
  | moves (events : List Event) (next : Machine)

namespace Machine

/-- A class is to be read, and nothing behind it. -/
def start (terminals : List Terminal) : Machine :=
  ⟨[.classDec, .endOfText], terminals, 0, .start⟩

/-- Consumes the terminal ahead, reports it and puts goals on the stack. The terminal behind it is
needed first; if the text ends in an error there, that is the failure. -/
def consume (ending : Option LexCause) (m : Machine) (events : List Event) (goals : List Goal)
    (env : Env) : Move :=
  match m.ahead, ending with
  | [], _ => .fails events ⟨.expected .token, m.site⟩
  | [_], some cause => .fails events ⟨.lexical cause, m.site + 1⟩
  | t :: ahead, _ => .moves (events ++ [.consumed t]) ⟨goals, ahead, m.site + 1, env⟩

/-- One move. The terminals end with the text, or before an error if `ending` has its cause. -/
def move (ending : Option LexCause) (m : Machine) : Move :=
  match m.goals with
  | [] => .finishes
  | goal :: goals =>
    match goal.action m.env m.site m.ahead.head? with
    | .reject what => .fails [] ⟨.expected what, m.site⟩
    | .refuse fault site => .fails [] ⟨fault, site⟩
    | .emit i => .emits i { m with goals }
    | .expand events next env => .moves events { m with goals := next ++ goals, env }
    | .accept events next env => m.consume ending events (next ++ goals) env

/-! ## Weights -/

/-- The weight of the goals and the budget of the terminals. -/
def weight (m : Machine) : Nat :=
  Goal.weights m.goals + m.ahead.foldr (fun t total => t.budget + total) 0

end Machine

theorem Goal.weights_nil : weights [] = 0 := rfl

theorem Goal.weights_cons (g : Goal) (gs : List Goal) :
    weights (g :: gs) = g.weight + weights gs := rfl

theorem Goal.weights_append (gs hs : List Goal) :
    weights (gs ++ hs) = weights gs + weights hs := by
  induction gs with
  | nil => rw [weights_nil, List.nil_append, Nat.zero_add]
  | cons g gs ih => rw [List.cons_append, weights_cons, weights_cons, ih, Nat.add_assoc]

/-- The goals of an action weigh less than `limit`, or than that and the budget of the terminal
that is consumed. -/
def Action.Lighter (limit : Nat) (ahead : Option Terminal) : Action → Prop
  | expand _ next _ => Goal.weights next < limit
  | accept _ next _ => ∃ t, ahead = some t ∧ Goal.weights next < limit + t.budget
  | _ => True

theorem TypeUse.weights_goals_le (ty : String) (use : TypeUse) :
    Goal.weights (use.goals ty) ≤ 2 := by
  cases use <;> simp [goals, Goal.weights, Goal.weight]

theorem Goal.weights_map_emit (code : List Instruction) :
    weights (code.map emit) = code.length := by
  induction code with
  | nil => rfl
  | cons i code ih =>
    have one : weight (emit i) = 1 := rfl
    rw [List.map_cons, weights_cons, ih, one, List.length_cons, Nat.add_comm]

theorem SubroutineKind.length_binding_le (fields : Nat) (kind : SubroutineKind) :
    (kind.binding fields).length ≤ 3 := by
  cases kind <;> simp [binding]

/-- The weights are set so that every rule pays for its goals. -/
theorem Goal.action_lighter (goal : Goal) (env : Env) (here : Nat) (ahead : Option Terminal) :
    (goal.action env here ahead).Lighter goal.weight ahead := by
  cases goal
  case type use =>
    simp only [action, Action.type]
    split <;> simp only [Action.Lighter]
    all_goals
      refine ⟨_, rfl, Nat.lt_of_le_of_lt (TypeUse.weights_goals_le _ use) ?_⟩
      simp [weight, Terminal.budget]
  case prologue name =>
    have short := SubroutineKind.length_binding_le (env.symbols.count .field) env.subroutineKind
    simp only [action, Action.prologue, Action.Lighter, weights_map_emit, List.length_cons, weight]
    omega
  case stringConstant text site =>
    simp only [action, Action.stringConstant]
    split <;> simp [Action.Lighter, weights, weight, String.length_toList]
    omega
  all_goals
    simp only [action, Action.ofSymbol, Action.endOfText, Action.classDec, Action.classWord,
      Action.className, Action.classVarDecs, Action.classVarDecs.declaration, Action.newName,
      Action.declare, Action.moreNames, Action.subroutineDecs, Action.subroutineDecs.declaration,
      Action.returnType, Action.subroutineName, Action.subroutine, Action.subroutine.receiver,
      Action.parameterList, Action.moreParameters, Action.subroutineBody, Action.varDecs,
      Action.statements, Action.moreStatements, Action.moreStatements.statement, Action.letTarget,
      Action.assign, Action.assignTo, Action.elsePart, Action.returnValue, Action.callee,
      Action.expression, Action.operators, Action.term, Action.operand, Action.characters,
      Action.named, Action.load, Action.element, Action.call, Action.member, Action.dispatch,
      Action.arguments, Action.expressionList, Action.moreArguments, Action.ofName, Action.ofSlot]
    repeat' split
  all_goals
    simp_all [Action.Lighter, weights, weight, Terminal.budget, condition, block, ifStatement,
      whileStatement, doStatement, returnStatement, assignElement, endOfCall]
  all_goals omega

theorem weights_of_expand {goal : Goal} {env env' : Env} {here : Nat} {ahead : Option Terminal}
    {events : List Event} {next : List Goal}
    (h : goal.action env here ahead = .expand events next env') :
    Goal.weights next < goal.weight := by
  have lighter := goal.action_lighter env here ahead
  rwa [h] at lighter

theorem weights_of_accept {goal : Goal} {env env' : Env} {here : Nat} {ahead : Option Terminal}
    {events : List Event} {next : List Goal}
    (h : goal.action env here ahead = .accept events next env') :
    ∃ t, ahead = some t ∧ Goal.weights next < goal.weight + t.budget := by
  have lighter := goal.action_lighter env here ahead
  rwa [h] at lighter

theorem Goal.weight_pos (goal : Goal) : 0 < goal.weight := by
  cases goal <;> simp [weight]

namespace Machine

theorem weight_of_emits {ending : Option LexCause} {m next : Machine} {i : Instruction}
    (h : m.move ending = .emits i next) : next.weight < m.weight := by
  unfold move at h
  split at h
  · cases h
  · next goal goals here =>
    have light := Goal.weight_pos goal
    split at h
    case h_3 =>
      cases h
      simp only [weight, here, Goal.weights_cons]
      omega
    case h_5 => unfold consume at h; split at h <;> cases h
    all_goals cases h

theorem weight_of_moves {ending : Option LexCause} {m next : Machine} {events : List Event}
    (h : m.move ending = .moves events next) : next.weight < m.weight := by
  unfold move at h
  split at h
  · cases h
  · next goal goals here =>
    split at h
    case h_4 expanded =>
      have lighter := weights_of_expand expanded
      cases h
      simp only [weight, here, Goal.weights_cons, Goal.weights_append]
      omega
    case h_5 accepted =>
      obtain ⟨t, ahead, lighter⟩ := weights_of_accept accepted
      unfold consume at h
      split at h
      · cases h
      · cases h
      · next u rest consumed _ =>
        cases h
        rw [consumed] at ahead
        cases ahead
        simp only [weight, here, consumed, Goal.weights_cons, Goal.weights_append,
          List.foldr_cons]
        omega
    all_goals cases h

/-! ## The pass -/

/-- Runs a machine to its end, with the sink in the state `s`. The outcome is the last state of
the sink and, if the pass fails, why. -/
def run {σ : Type} (sink : Sink σ) (ending : Option LexCause) (m : Machine) (s : σ) :
    σ × Option Failure :=
  match _h : m.move ending with
  | .finishes => (s, none)
  | .fails events failure => (sink.reportAll s events, some failure)
  | .emits i next =>
    match sink.emit s i with
    | (s, none) => run sink ending next s
    | (s, some reason) => (s, some ⟨.emission reason, m.site⟩)
  | .moves events next => run sink ending next (sink.reportAll s events)
termination_by m.weight
decreasing_by
  · exact weight_of_emits _h
  · exact weight_of_moves _h

/-! ## The pass, move by move -/

variable {σ : Type} {sink : Sink σ} {ending : Option LexCause} {m next : Machine} {s t : σ}
  {events : List Event} {i : Instruction}

theorem run_of_finishes (h : m.move ending = .finishes) : m.run sink ending s = (s, none) := by
  rw [run]
  split <;> simp_all

theorem run_of_fails {failure : Failure} (h : m.move ending = .fails events failure) :
    m.run sink ending s = (sink.reportAll s events, some failure) := by
  rw [run]
  split <;> simp_all

theorem run_of_moves (h : m.move ending = .moves events next) :
    m.run sink ending s = next.run sink ending (sink.reportAll s events) := by
  rw [run]
  split <;> simp_all

/-- An instruction that the sink takes. -/
theorem run_of_emits (h : m.move ending = .emits i next) (taken : sink.emit s i = (t, none)) :
    m.run sink ending s = next.run sink ending t := by
  rw [run]
  split <;> simp_all

/-- An instruction that the sink refuses is blamed on the terminal ahead. -/
theorem run_of_refused {reason : String} (h : m.move ending = .emits i next)
    (refused : sink.emit s i = (t, some reason)) :
    m.run sink ending s = (t, some ⟨.emission reason, m.site⟩) := by
  rw [run]
  split <;> simp_all

end Machine

end JackToVm
