import JackToVm.Compile
import JackToVm.Proofs.Trace

/-!
# The pass as a relation

What a compilation does, told apart from the sink that it tells it to: `Reaches` relates a machine
to the machines that it becomes and to the events on the way.

Results.
1. A pass ends: every machine reaches one that has no goals left or that fails (`exists_end`).
2. A sink that takes every instruction sees a success exactly when the machine reaches its last goal
   (`run_eq_iff`), and it is told the events on the way (`run_of_reaches`).
3. Goals are met one after the other: a pass that meets `gs ++ k` meets `gs` and then `k`
   (`Reaches.split`).
4. Nothing is left of a text that is compiled (`ahead_eq_nil_of_endOfText`), so one that ends in a
   lexical error never is (`not_finishes_of_lexical`).
-/

namespace JackToVm

namespace Machine

/-! ## Moves -/

/-- The machine makes some events and becomes another machine. -/
inductive Reaches (ending : Option LexCause) : Machine → List Event → Machine → Prop
  | refl (m : Machine) : Reaches ending m [] m
  | emit {g : Goal} {k : List Goal} {ahead : List Terminal} {site : Nat} {env : Env}
      {i : Instruction} {es : List Event} {z : Machine} :
      g.action env site ahead.head? = .emit i → Reaches ending ⟨k, ahead, site, env⟩ es z →
      Reaches ending ⟨g :: k, ahead, site, env⟩ (.emitted i :: es) z
  | expand {g : Goal} {k next : List Goal} {ahead : List Terminal} {site : Nat} {env env' : Env}
      {events es : List Event} {z : Machine} :
      g.action env site ahead.head? = .expand events next env' →
      Reaches ending ⟨next ++ k, ahead, site, env'⟩ es z →
      Reaches ending ⟨g :: k, ahead, site, env⟩ (events ++ es) z
  | accept {g : Goal} {k next : List Goal} {t : Terminal} {ahead : List Terminal} {site : Nat}
      {env env' : Env} {events es : List Event} {z : Machine} :
      g.action env site (some t) = .accept events next env' → (ahead ≠ [] ∨ ending = none) →
      Reaches ending ⟨next ++ k, ahead, site + 1, env'⟩ es z →
      Reaches ending ⟨g :: k, t :: ahead, site, env⟩ (events ++ .consumed t :: es) z

variable {ending : Option LexCause} {m n z : Machine} {es fs : List Event}

theorem Reaches.trans (first : Reaches ending m es n) (second : Reaches ending n fs z) :
    Reaches ending m (es ++ fs) z := by
  induction first with
  | refl => exact second
  | emit act _ ih => exact .emit act (ih second)
  | expand act _ ih => rw [List.append_assoc]; exact .expand act (ih second)
  | accept act more _ ih =>
    rw [List.append_assoc, List.cons_append]
    exact .accept act more (ih second)

theorem move_accept {g : Goal} {k next : List Goal} {t : Terminal} {ahead : List Terminal}
    {site : Nat} {env env' : Env} {events : List Event}
    (act : g.action env site (some t) = .accept events next env')
    (more : ahead ≠ [] ∨ ending = none) :
    move ending ⟨g :: k, t :: ahead, site, env⟩ =
      .moves (events ++ [.consumed t]) ⟨next ++ k, ahead, site + 1, env'⟩ := by
  simp only [move, List.head?_cons, act]
  cases ahead with
  | nil =>
    obtain rfl : ending = none := by simpa using more
    rfl
  | cons u ahead => rfl

/-- A machine that moves reaches the machine that it becomes. -/
theorem reaches_of_moves (h : m.move ending = .moves es n) : Reaches ending m es n := by
  obtain ⟨goals, ahead, site, env⟩ := m
  simp only [move] at h
  split at h
  · cases h
  · next g k =>
    split at h
    case h_4 events next env' act =>
      cases h
      have stay : Reaches ending ⟨next ++ k, ahead, site, env'⟩ [] _ := .refl _
      simpa using Reaches.expand act stay
    case h_5 events next env' act =>
      cases ahead with
      | nil => simp [consume] at h
      | cons t ahead =>
        by_cases more : ahead ≠ [] ∨ ending = none
        · have moved := move_accept (k := k) act more
          simp only [move, act] at moved
          rw [moved] at h
          cases h
          exact .accept act more (.refl _)
        · obtain ⟨rfl, some⟩ := not_or.1 more |>.imp not_not.1 id
          obtain ⟨cause, rfl⟩ := Option.ne_none_iff_exists'.1 some
          simp [consume] at h
    all_goals cases h

theorem reaches_of_emits {i : Instruction} (h : m.move ending = .emits i n) :
    Reaches ending m [.emitted i] n := by
  obtain ⟨goals, ahead, site, env⟩ := m
  simp only [move] at h
  split at h
  · cases h
  · split at h
    case h_3 act =>
      cases h
      exact .emit act (.refl _)
    case h_5 => unfold consume at h; split at h <;> cases h
    all_goals cases h

theorem move_eq_finishes_iff : m.move ending = .finishes ↔ m.goals = [] := by
  constructor
  · intro h
    simp only [move] at h
    split at h
    · assumption
    · split at h
      case h_5 => unfold consume at h; split at h <;> cases h
      all_goals cases h
  · intro h
    simp [move, h]

/-- A pass ends. -/
theorem exists_end (ending : Option LexCause) (m : Machine) :
    ∃ es z, Reaches ending m es z ∧
      (z.goals = [] ∨ ∃ events failure, z.move ending = .fails events failure) := by
  cases h : m.move ending with
  | finishes => exact ⟨[], m, .refl m, .inl (move_eq_finishes_iff.1 h)⟩
  | fails events failure => exact ⟨[], m, .refl m, .inr ⟨events, failure, h⟩⟩
  | emits i next =>
    obtain ⟨es, z, reached, atEnd⟩ := exists_end ending next
    exact ⟨_, z, (reaches_of_emits h).trans reached, atEnd⟩
  | moves events next =>
    obtain ⟨es, z, reached, atEnd⟩ := exists_end ending next
    exact ⟨_, z, (reaches_of_moves h).trans reached, atEnd⟩
termination_by m.weight
decreasing_by
  · exact weight_of_emits h
  · exact weight_of_moves h

end Machine

/-! ## Instructions come out as such -/

/-- A goal that does not report an instruction. -/
def Goal.Proper : Goal → Prop
  | report event => event.instruction? = none
  | _ => True

/-- The events of an action are no instructions. -/
def Action.Proper : Action → Prop
  | expand events next _ | accept events next _ =>
    instructionsOf events = [] ∧ ∀ g ∈ next, g.Proper
  | _ => True

/-- The events that a goal reports have a property. -/
def Goal.Reports (P : Event → Prop) : Goal → Prop
  | report event => P event
  | _ => True

/-- The events of an action have a property, and so have those that its goals report. -/
def Action.Reports (P : Event → Prop) : Action → Prop
  | expand events next _ | accept events next _ => (∀ e ∈ events, P e) ∧ ∀ g ∈ next, g.Reports P
  | _ => True

/-- A property of all events but instructions and terminals that are consumed. -/
structure Event.HoldsOfMarks (P : Event → Prop) : Prop where
  opened : ∀ node, P (.opened node)
  closed : ∀ node, P (.closed node)
  declared : ∀ v, P (.declared v)
  startedClass : ∀ name, P (.startedClass name)
  startedSubroutine : ∀ kind name, P (.startedSubroutine kind name)

/-- The rules report nodes, declarations and the starts of classes and subroutines, and nothing
else. -/
theorem Goal.action_reports {P : Event → Prop} (marks : Event.HoldsOfMarks P) {goal : Goal}
    (reports : goal.Reports P) (env : Env) (here : Nat) (ahead : Option Terminal) :
    (goal.action env here ahead).Reports P := by
  obtain ⟨opened, closed, declared, startedClass, startedSubroutine⟩ := marks
  cases goal
  all_goals
    simp only [action, Action.ofSymbol, Action.endOfText, Action.classDec, Action.classWord,
      Action.className, Action.classVarDecs, Action.classVarDecs.declaration, Action.type,
      Action.newName, Action.declare, Action.moreNames, Action.subroutineDecs,
      Action.subroutineDecs.declaration, Action.returnType, Action.subroutineName,
      Action.subroutine, Action.subroutine.receiver, Action.parameterList, Action.moreParameters,
      Action.subroutineBody, Action.varDecs, Action.prologue, Action.statements,
      Action.moreStatements, Action.moreStatements.statement, Action.letTarget, Action.assign,
      Action.assignTo, Action.elsePart, Action.returnValue, Action.callee, Action.expression,
      Action.operators, Action.term, Action.operand, Action.stringConstant, Action.characters,
      Action.named, Action.load, Action.element, Action.call, Action.member, Action.dispatch,
      Action.arguments, Action.expressionList, Action.moreArguments, Action.ofName, Action.ofSlot]
    repeat' split
  all_goals
    try cases ‹TypeUse›
  all_goals
    simp_all [Action.Reports, Reports, condition, block, ifStatement, whileStatement, doStatement,
      returnStatement, assignElement, endOfCall, TypeUse.goals]

theorem Goal.reports_iff_proper {goal : Goal} :
    goal.Reports (·.instruction? = none) ↔ goal.Proper := by
  cases goal <;> exact Iff.rfl

theorem Goal.action_proper {goal : Goal} (proper : goal.Proper) (env : Env) (here : Nat)
    (ahead : Option Terminal) : (goal.action env here ahead).Proper := by
  have reports := action_reports (P := (·.instruction? = none)) ⟨fun _ => rfl, fun _ => rfl,
    fun _ => rfl, fun _ => rfl, fun _ _ => rfl⟩ (reports_iff_proper.2 proper) env here ahead
  have each {events : List Event} {next : List Goal} (mute : ∀ e ∈ events, e.instruction? = none)
      (goals : ∀ g ∈ next, g.Reports (·.instruction? = none)) :
      instructionsOf events = [] ∧ ∀ g ∈ next, g.Proper :=
    ⟨List.filterMap_eq_nil_iff.2 mute, fun g mem => reports_iff_proper.1 (goals g mem)⟩
  generalize goal.action env here ahead = act at reports
  cases act with
  | expand events next env' => exact each reports.1 reports.2
  | accept events next env' => exact each reports.1 reports.2
  | reject _ | refuse _ _ | emit _ => trivial

/-! ## What a sink is told -/

namespace Sink

variable {σ : Type} {sink : Sink σ}

/-- Tells a sink some events, up to the first instruction that it refuses. -/
def feed (sink : Sink σ) (s : σ) : List Event → σ × Option String
  | [] => (s, none)
  | .emitted i :: es =>
    match sink.emit s i with
    | (s, none) => feed sink s es
    | (s, some reason) => (s, some reason)
  | e :: es => feed sink (sink.report s e) es

theorem feed_cons_of_silent {e : Event} (silent : e.instruction? = none) (s : σ)
    (es : List Event) : sink.feed s (e :: es) = sink.feed (sink.report s e) es := by
  cases e with
  | emitted i => cases silent
  | opened _ | closed _ | consumed _ | declared _ | startedClass _ | startedSubroutine _ _ => rfl

theorem feed_append_of_silent {es : List Event} (silent : instructionsOf es = []) (s : σ)
    (fs : List Event) : sink.feed s (es ++ fs) = sink.feed (sink.reportAll s es) fs := by
  induction es generalizing s with
  | nil => rfl
  | cons e es ih =>
    rw [instructionsOf_cons, List.append_eq_nil_iff, Option.toList_eq_nil_iff] at silent
    rw [List.cons_append, feed_cons_of_silent silent.1, ih silent.2]
    rfl

theorem feed_log (s : Array Event) (es : List Event) :
    Sink.log.feed s es = (s ++ es.toArray, none) := by
  induction es generalizing s with
  | nil => simp [feed]
  | cons e es ih =>
    have told : Sink.log.feed s (e :: es) = Sink.log.feed (s.push e) es := by cases e <;> rfl
    rw [told, ih]
    simp

theorem feed_code (s : Array Instruction) (es : List Event) :
    Sink.code.feed s es = (s ++ (instructionsOf es).toArray, none) := by
  induction es generalizing s with
  | nil => simp [feed]
  | cons e es ih =>
    cases h : e.instruction? with
    | none =>
      rw [feed_cons_of_silent h, instructionsOf, List.filterMap_cons_none h]
      exact ih s
    | some i =>
      obtain rfl : e = .emitted i := by cases e <;> cases h; rfl
      have told : Sink.code.feed s (.emitted i :: es) = Sink.code.feed (s.push i) es := rfl
      rw [told, ih]
      simp

end Sink

namespace Machine

variable {σ : Type} {sink : Sink σ} {ending : Option LexCause} {m z : Machine} {s t : σ}
  {es : List Event}

/-- A sink that takes the instructions on the way is told what happens on the way. -/
theorem run_of_reaches (proper : ∀ g ∈ m.goals, g.Proper) (reached : Reaches ending m es z)
    (fed : sink.feed s es = (t, none)) : m.run sink ending s = z.run sink ending t := by
  induction reached generalizing s with
  | refl m =>
    cases fed
    rfl
  | @emit g k ahead site env i es z act _ ih =>
    have emitted : move ending ⟨g :: k, ahead, site, env⟩ = .emits i ⟨k, ahead, site, env⟩ := by
      simp [move, act]
    simp only [Sink.feed] at fed
    split at fed
    · next s' taken =>
      rw [run_of_emits emitted taken]
      exact ih (fun g mem => proper g (.tail _ mem)) fed
    · cases fed
  | @expand g k next ahead site env env' events es z act _ ih =>
    have moved : move ending ⟨g :: k, ahead, site, env⟩ =
        .moves events ⟨next ++ k, ahead, site, env'⟩ := by
      simp [move, act]
    have acted := Goal.action_proper (proper g (.head _)) env site ahead.head?
    rw [act] at acted
    rw [Sink.feed_append_of_silent acted.1] at fed
    rw [run_of_moves moved]
    refine ih (fun g mem => ?_) fed
    exact (List.mem_append.1 mem).elim (acted.2 g) fun mem => proper g (.tail _ mem)
  | @accept g k next u ahead site env env' events es z act more _ ih =>
    have acted := Goal.action_proper (proper g (.head _)) env site (some u)
    rw [act] at acted
    have silent : instructionsOf (events ++ [.consumed u]) = [] := by simp [acted.1]
    rw [← List.singleton_append, ← List.append_assoc, Sink.feed_append_of_silent silent] at fed
    rw [run_of_moves (move_accept act more)]
    refine ih (fun g mem => ?_) fed
    exact (List.mem_append.1 mem).elim (acted.2 g) fun mem => proper g (.tail _ mem)

/-- The machine meets all its goals, with these events on the way. -/
def Finishes (ending : Option LexCause) (m : Machine) (es : List Event) : Prop :=
  ∃ z, Reaches ending m es z ∧ z.goals = []

/-- A sink that takes every instruction sees a success exactly when all goals are met. -/
theorem run_eq_iff (proper : ∀ g ∈ m.goals, g.Proper)
    (takes : ∀ s es, (sink.feed s es).2 = none) :
    m.run sink ending s = (t, none) ↔ ∃ es, m.Finishes ending es ∧ (sink.feed s es).1 = t := by
  constructor
  · intro h
    obtain ⟨es, z, reached, atEnd⟩ := exists_end ending m
    have ran := run_of_reaches proper reached (Prod.ext rfl (takes s es))
    cases atEnd with
    | inl done =>
      rw [run_of_finishes (move_eq_finishes_iff.2 done), h] at ran
      exact ⟨es, ⟨z, reached, done⟩, (Prod.mk.inj ran).1.symm⟩
    | inr fails =>
      obtain ⟨events, failure, fails⟩ := fails
      rw [run_of_fails fails, h] at ran
      cases ran
  · rintro ⟨es, ⟨z, reached, done⟩, rfl⟩
    rw [run_of_reaches proper reached (Prod.ext rfl (takes s es)),
      run_of_finishes (move_eq_finishes_iff.2 done)]

/-! ## Goals one after the other -/

/-- To meet `gs ++ k` is to meet `gs` and then `k`. -/
theorem Reaches.split (gs k : List Goal) {ahead : List Terminal} {site : Nat} {env : Env}
    (reached : Reaches ending ⟨gs ++ k, ahead, site, env⟩ es z) (done : z.goals = []) :
    ∃ es₁ es₂ ahead' site' env',
      Reaches ending ⟨gs, ahead, site, env⟩ es₁ ⟨[], ahead', site', env'⟩ ∧
        Reaches ending ⟨k, ahead', site', env'⟩ es₂ z := by
  generalize start : (⟨gs ++ k, ahead, site, env⟩ : Machine) = m at reached
  induction reached generalizing gs ahead site env with
  | refl m =>
    subst start
    obtain ⟨rfl, rfl⟩ := List.append_eq_nil_iff.1 done
    exact ⟨[], [], _, _, _, .refl _, .refl _⟩
  | emit act rest ih =>
    cases gs with
    | nil =>
      cases start
      exact ⟨[], _, _, _, _, .refl _, .emit act rest⟩
    | cons g gs =>
      cases start
      obtain ⟨es₁, es₂, ahead', site', env', first, second⟩ := ih gs done rfl
      exact ⟨_, es₂, ahead', site', env', .emit act first, second⟩
  | @expand _ _ next _ _ _ _ _ _ _ act rest ih =>
    cases gs with
    | nil =>
      cases start
      exact ⟨[], _, _, _, _, .refl _, .expand act rest⟩
    | cons g gs =>
      cases start
      obtain ⟨es₁, es₂, ahead', site', env', first, second⟩ :=
        ih (next ++ gs) done (by rw [List.append_assoc]; rfl)
      exact ⟨_, es₂, ahead', site', env', .expand act first, second⟩
  | @accept _ _ next _ _ _ _ _ _ _ _ act more rest ih =>
    cases gs with
    | nil =>
      cases start
      exact ⟨[], _, _, _, _, .refl _, .accept act more rest⟩
    | cons g gs =>
      cases start
      obtain ⟨es₁, es₂, ahead', site', env', first, second⟩ :=
        ih (next ++ gs) done (by rw [List.append_assoc]; rfl)
      exact ⟨_, es₂, ahead', site', env', .accept act more first, second⟩

/-! ## The end of the text -/

/-- Behind the last goal there are no terminals. -/
theorem ahead_eq_nil_of_endOfText {site : Nat} {ahead : List Terminal} {env : Env}
    (reached : Reaches ending ⟨[.endOfText], ahead, site, env⟩ es z) (done : z.goals = []) :
    ahead = [] := by
  cases reached with
  | refl => cases done
  | expand act _ =>
    cases ahead with
    | nil => rfl
    | cons t ahead => simp [Goal.action, Action.endOfText] at act
  | emit act _ =>
    simp only [Goal.action, Action.endOfText] at act
    split at act <;> cases act
  | accept act _ _ => simp [Goal.action, Action.endOfText] at act

/-- Before a lexical error there is always a terminal that is not consumed. -/
theorem Reaches.ahead_ne_nil {cause : LexCause} (reached : Reaches (some cause) m es z)
    (some : m.ahead ≠ []) : z.ahead ≠ [] := by
  induction reached with
  | refl => exact some
  | emit _ _ ih => exact ih some
  | expand _ _ ih => exact ih some
  | accept _ more _ ih => exact ih (by simpa using more)

/-- A class is not compiled if its text ends in a lexical error. -/
theorem not_finishes_of_lexical {cause : LexCause} {terminals : List Terminal}
    (some : terminals ≠ []) : ¬(start terminals).Finishes (.some cause) es := by
  rintro ⟨z, reached, done⟩
  obtain ⟨_, _, ahead, site, env, first, second⟩ :=
    reached.split [.classDec] [.endOfText] done
  exact first.ahead_ne_nil some (ahead_eq_nil_of_endOfText second done)

end Machine

end JackToVm
