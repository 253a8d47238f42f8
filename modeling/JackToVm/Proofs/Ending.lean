import JackToVm.Proofs.Acceptance

/-!
# How a compilation ends

A pass that does not meet its goals stops at a machine that fails, and for one of three reasons
(`Machine.Fails`): a terminal cannot stand where it does, something read before is at fault, or the
text has no token where one is needed.

Results.
1. The terminals that were consumed are those in front of what is left, and the site of a machine
   counts them (`Machine.Reaches.terminals`).
2. An instruction on the way comes from a machine that emits it (`Machine.Reaches.split_emitted`).
3. A compilation that fails stops at such a machine, and its error is the failure there, located in
   the text (`exists_stops_of_compile_eq_error`).
-/

namespace JackToVm

/-! ## Terminals that were consumed -/

@[simp]
def Event.terminal? : Event → Option Terminal
  | consumed t => some t
  | opened _ | closed _ | emitted _ | declared _ | startedClass _ | startedSubroutine .. => none

/-- The terminals that some events consume. -/
def terminalsOf (events : List Event) : List Terminal :=
  events.filterMap Event.terminal?

@[simp]
theorem terminalsOf_nil : terminalsOf [] = [] := rfl

@[simp]
theorem terminalsOf_append (es fs : List Event) :
    terminalsOf (es ++ fs) = terminalsOf es ++ terminalsOf fs :=
  List.filterMap_append

@[simp]
theorem terminalsOf_cons (e : Event) (es : List Event) :
    terminalsOf (e :: es) = e.terminal?.toList ++ terminalsOf es := by
  cases e <;> rfl

/-- A goal that does not report a terminal. -/
def Goal.Quiet (g : Goal) : Prop :=
  g.Reports (·.terminal? = none)

/-- The events of an action consume no terminal, and its goals do not report one. -/
def Action.Quiet : Action → Prop
  | expand events next _ | accept events next _ => terminalsOf events = [] ∧ ∀ g ∈ next, g.Quiet
  | _ => True

/-- Only the machine reports the terminals that are consumed. -/
theorem Goal.action_quiet {goal : Goal} (quiet : goal.Quiet) (env : Env) (here : Nat)
    (ahead : Option Terminal) : (goal.action env here ahead).Quiet := by
  have reports := action_reports (P := (·.terminal? = none)) ⟨fun _ => rfl, fun _ => rfl,
    fun _ => rfl, fun _ => rfl, fun _ _ => rfl⟩ quiet env here ahead
  generalize goal.action env here ahead = act at reports
  cases act with
  | expand events next env' => exact ⟨List.filterMap_eq_nil_iff.2 reports.1, reports.2⟩
  | accept events next env' => exact ⟨List.filterMap_eq_nil_iff.2 reports.1, reports.2⟩
  | reject _ | refuse _ _ | emit _ => trivial

namespace Machine

variable {ending : Option LexCause} {m z : Machine} {es : List Event}

/-- What goals report stays within a property of all events but instructions and terminals. -/
theorem Reaches.reports {P : Event → Prop} (marks : Event.HoldsOfMarks P)
    (reached : Reaches ending m es z) (reports : ∀ g ∈ m.goals, g.Reports P) :
    ∀ g ∈ z.goals, g.Reports P := by
  induction reached with
  | refl m => exact reports
  | emit _ _ ih => exact ih (List.forall_mem_cons.1 reports).2
  | @expand g k next ahead site env _ _ _ _ act _ ih =>
    obtain ⟨first, others⟩ := List.forall_mem_cons.1 reports
    have acted := Goal.action_reports marks first env site ahead.head?
    rw [act] at acted
    exact ih (List.forall_mem_append.2 ⟨acted.2, others⟩)
  | @accept g k next t ahead site env _ _ _ _ act _ _ ih =>
    obtain ⟨first, others⟩ := List.forall_mem_cons.1 reports
    have acted := Goal.action_reports marks first env site (some t)
    rw [act] at acted
    exact ih (List.forall_mem_append.2 ⟨acted.2, others⟩)

theorem Reaches.proper (reached : Reaches ending m es z) (proper : ∀ g ∈ m.goals, g.Proper) :
    ∀ g ∈ z.goals, g.Proper := by
  intro g mem
  refine Goal.reports_iff_proper.1 (reached.reports ⟨fun _ => rfl, fun _ => rfl, fun _ => rfl,
    fun _ => rfl, fun _ _ => rfl⟩ ?_ g mem)
  exact fun g mem => Goal.reports_iff_proper.2 (proper g mem)

/-- The site counts the terminals that are consumed. -/
theorem Reaches.terminals (reached : Reaches ending m es z) (quiet : ∀ g ∈ m.goals, g.Quiet) :
    m.ahead = terminalsOf es ++ z.ahead ∧ z.site = m.site + (terminalsOf es).length := by
  induction reached with
  | refl m => exact ⟨rfl, rfl⟩
  | emit _ _ ih => exact ih (List.forall_mem_cons.1 quiet).2
  | @expand g k next ahead site env _ events es z act _ ih =>
    obtain ⟨first, others⟩ := List.forall_mem_cons.1 quiet
    have acted := Goal.action_quiet first env site ahead.head?
    rw [act] at acted
    rw [terminalsOf_append, acted.1, List.nil_append]
    exact ih (List.forall_mem_append.2 ⟨acted.2, others⟩)
  | @accept g k next t ahead site env _ events es z act _ _ ih =>
    obtain ⟨first, others⟩ := List.forall_mem_cons.1 quiet
    have acted := Goal.action_quiet first env site (some t)
    rw [act] at acted
    obtain ⟨read, count⟩ := ih (List.forall_mem_append.2 ⟨acted.2, others⟩)
    have all : terminalsOf (events ++ .consumed t :: es) = t :: terminalsOf es := by
      rw [terminalsOf_append, acted.1]
      rfl
    constructor
    · rw [all, List.cons_append]
      exact congrArg (t :: ·) read
    · rw [all, count, List.length_cons, Nat.add_right_comm, Nat.add_assoc]

theorem start_quiet (terminals : List Terminal) :
    ∀ g ∈ (start terminals).goals, g.Quiet := by
  intro g mem
  simp only [start, List.mem_cons, List.not_mem_nil, or_false] at mem
  rcases mem with rfl | rfl <;> trivial

/-! ## Instructions on the way -/

/-- What stands before an instruction starts with the silent events in front. -/
theorem exists_append_of_silent {pre post events : List Event} {i : Instruction}
    (silent : instructionsOf events = []) (all : pre ++ .emitted i :: post = events ++ es) :
    ∃ pre', pre = events ++ pre' ∧ pre' ++ .emitted i :: post = es := by
  rcases List.append_eq_append_iff.1 all with ⟨rest, rfl, parts⟩ | ⟨pre', rfl, parts⟩
  · cases rest with
    | nil => exact ⟨[], by rw [List.append_nil, List.append_nil], parts⟩
    | cons e rest =>
      obtain ⟨rfl, -⟩ := List.cons.inj parts
      rw [instructionsOf_append, instructionsOf_cons] at silent
      cases (List.append_eq_nil_iff.1 silent).2
  · exact ⟨pre', rfl, parts.symm⟩

/-- An instruction comes from a machine that emits it. -/
theorem Reaches.split_emitted {pre post : List Event} {i : Instruction}
    (reached : Reaches ending m (pre ++ .emitted i :: post) z)
    (proper : ∀ g ∈ m.goals, g.Proper) :
    ∃ n next, Reaches ending m pre n ∧ n.move ending = .emits i next := by
  generalize all : pre ++ .emitted i :: post = es at reached
  induction reached generalizing pre with
  | refl m => cases pre <;> cases all
  | @emit g k ahead site env j es z act _ ih =>
    cases pre with
    | nil =>
      cases all
      exact ⟨_, ⟨k, ahead, site, env⟩, .refl _, by simp only [move, act]⟩
    | cons e pre =>
      obtain ⟨rfl, rest⟩ := List.cons.inj all
      obtain ⟨n, next, first, emits⟩ := ih (List.forall_mem_cons.1 proper).2 rest
      exact ⟨n, next, .emit act first, emits⟩
  | @expand g k next ahead site env env' events es z act _ ih =>
    obtain ⟨here, others⟩ := List.forall_mem_cons.1 proper
    have acted := Goal.action_proper here env site ahead.head?
    rw [act] at acted
    obtain ⟨pre', rfl, rest⟩ := exists_append_of_silent acted.1 all
    obtain ⟨n, next', first, emits⟩ := ih (List.forall_mem_append.2 ⟨acted.2, others⟩) rest
    exact ⟨n, next', .expand act first, emits⟩
  | @accept g k next t ahead site env env' events es z act more _ ih =>
    obtain ⟨here, others⟩ := List.forall_mem_cons.1 proper
    have acted := Goal.action_proper here env site (some t)
    rw [act] at acted
    have silent : instructionsOf (events ++ [.consumed t]) = [] := by
      rw [instructionsOf_append, acted.1]
      rfl
    rw [List.append_cons events] at all
    obtain ⟨pre', rfl, rest⟩ := exists_append_of_silent silent all
    obtain ⟨n, next', first, emits⟩ := ih (List.forall_mem_append.2 ⟨acted.2, others⟩) rest
    rw [← List.append_cons]
    exact ⟨n, next', .accept act more first, emits⟩

/-! ## Machines that fail -/

/-- The machine makes some last events and fails. -/
inductive Fails (ending : Option LexCause) : Machine → List Event → Failure → Prop
  | rejects {g : Goal} {k : List Goal} {ahead : List Terminal} {site : Nat} {env : Env}
      {what : Expectation} :
      g.action env site ahead.head? = .reject what →
      Fails ending ⟨g :: k, ahead, site, env⟩ [] ⟨.expected what, site⟩
  | refuses {g : Goal} {k : List Goal} {ahead : List Terminal} {site : Nat} {env : Env}
      {fault : Fault} {blamed : Nat} :
      g.action env site ahead.head? = .refuse fault blamed →
      Fails ending ⟨g :: k, ahead, site, env⟩ [] ⟨fault, blamed⟩
  | lacks {g : Goal} {k next : List Goal} {t : Terminal} {site : Nat} {env env' : Env}
      {events : List Event} {cause : LexCause} :
      g.action env site (some t) = .accept events next env' → ending = some cause →
      Fails ending ⟨g :: k, [t], site, env⟩ events ⟨.lexical cause, site + 1⟩

theorem fails_of_move {failure : Failure} (h : m.move ending = .fails es failure) :
    Fails ending m es failure := by
  obtain ⟨goals, ahead, site, env⟩ := m
  simp only [move] at h
  split at h
  · cases h
  · split at h
    case h_1 act =>
      cases h
      exact .rejects act
    case h_2 act =>
      cases h
      exact .refuses act
    case h_5 act =>
      obtain ⟨t, here, -⟩ := weights_of_accept act
      cases ahead with
      | nil => cases here
      | cons u ahead =>
        cases ahead with
        | nil =>
          cases ending with
          | none => cases h
          | some cause =>
            cases h
            exact .lacks act rfl
        | cons v ahead => cases h
    all_goals cases h

theorem Fails.move {failure : Failure} (fails : Fails ending m es failure) :
    m.move ending = .fails es failure := by
  cases fails with
  | rejects act => simp only [Machine.move, act]
  | refuses act => simp only [Machine.move, act]
  | lacks act lexical =>
    subst lexical
    simp only [Machine.move, List.head?_cons, act, consume]

end Machine

/-- What was read before is at fault for a name or for a constant. -/
theorem Goal.refuse_cases {goal : Goal} {env : Env} {here : Nat} {ahead : Option Terminal}
    {fault : Fault} {site : Nat} (act : goal.action env here ahead = .refuse fault site) :
    (∃ e, fault = .symbol e) ∨ ∃ n, fault = .constantOutOfRange n := by
  have ofSlot {name : String} {site' : Nat} {use : Slot → Action}
      (other : ∀ slot, use slot ≠ .refuse fault site)
      (act : Action.ofSlot env name site' use = .refuse fault site) :
      (∃ e, fault = .symbol e) ∨ ∃ n, fault = .constantOutOfRange n := by
    unfold Action.ofSlot at act
    split at act
    · exact absurd act (other _)
    · cases act
      exact .inl ⟨_, rfl⟩
  cases goal
  case declare kind ty name site =>
    simp only [action, Action.declare] at act
    split at act
    · cases act
    · cases act
      exact .inl ⟨_, rfl⟩
  case assign name site => exact ofSlot (fun _ => by simp) act
  case load name site => exact ofSlot (fun _ => by simp) act
  case element name site => exact ofSlot (fun _ => by simp) act
  case dispatch receiver site member =>
    simp only [action, Action.dispatch] at act
    split at act
    · exact ofSlot (fun _ => by simp) act
    · cases act
  case stringConstant text site =>
    simp only [action, Action.stringConstant] at act
    split at act
    · cases act
    · cases act
      exact .inr ⟨_, rfl⟩
  case characters text site =>
    simp only [action, Action.characters] at act
    split at act
    · cases act
    · split at act
      · cases act
      · cases act
        exact .inr ⟨_, rfl⟩
  all_goals
    exfalso
    revert act
    simp only [action, Action.ofSymbol, Action.endOfText, Action.classDec, Action.classWord,
      Action.className, Action.classVarDecs, Action.classVarDecs.declaration, Action.type,
      Action.newName, Action.moreNames, Action.subroutineDecs, Action.subroutineDecs.declaration,
      Action.returnType, Action.subroutineName, Action.subroutine, Action.parameterList,
      Action.moreParameters, Action.subroutineBody, Action.varDecs, Action.prologue,
      Action.statements, Action.moreStatements, Action.moreStatements.statement,
      Action.letTarget, Action.assignTo, Action.elsePart, Action.returnValue, Action.callee,
      Action.expression, Action.operators, Action.term, Action.operand, Action.named,
      Action.call, Action.member, Action.arguments, Action.expressionList, Action.moreArguments,
      Action.ofName]
    repeat' split
  all_goals simp

/-! ## Compilations -/

namespace Lexer.Reading

variable {r : Reading} {es : List Event} {m : Machine}

/-- There is a machine to start with: the first token could be read, or there is none. -/
def Starts (r : Reading) : Prop :=
  r.tokens ≠ [] ∨ r.failure = none

/-- The pass over a text gets to `m`. -/
structure Reaches (r : Reading) (es : List Event) (m : Machine) : Prop where
  starts : r.Starts
  reached :
    Machine.Reaches (r.failure.map (·.cause)) (.start (r.tokens.map (·.terminal))) es m

/-- The pass over a text meets all goals, with these events. -/
def Finishes (r : Reading) (es : List Event) : Prop :=
  ∃ m, r.Reaches es m ∧ m.goals = []

/-- The pass over a text makes these events and stops with a failure. -/
inductive Stops (r : Reading) : List Event → Failure → Prop
  | unread {e : LexError} : r.tokens = [] → r.failure = some e →
      Stops r [] ⟨.lexical e.cause, 0⟩
  | stuck {es last : List Event} {m : Machine} {failure : Failure} : r.Reaches es m →
      m.Fails (r.failure.map (·.cause)) last failure → Stops r (es ++ last) failure

/-- A pass meets all goals or stops. -/
theorem exists_ending (r : Reading) :
    (∃ es, r.Finishes es) ∨ ∃ es failure, r.Stops es failure := by
  by_cases starts : r.Starts
  · obtain ⟨es, z, reached, atEnd⟩ := Machine.exists_end (r.failure.map (·.cause))
      (.start (r.tokens.map (·.terminal)))
    rcases atEnd with done | ⟨last, failure, fails⟩
    · exact .inl ⟨es, z, ⟨starts, reached⟩, done⟩
    · exact .inr ⟨_, failure, .stuck ⟨starts, reached⟩ (Machine.fails_of_move fails)⟩
  · rw [Starts, not_or, not_not] at starts
    obtain ⟨e, lexical⟩ := Option.ne_none_iff_exists'.1 starts.2
    exact .inr ⟨[], _, .unread starts.1 lexical⟩

/-- The tokens that a pass has read are those in front of what is left. -/
theorem Reaches.terminals (reaches : r.Reaches es m) :
    r.tokens.map (·.terminal) = terminalsOf es ++ m.ahead ∧
      m.site = (terminalsOf es).length := by
  obtain ⟨read, count⟩ := reaches.reached.terminals (Machine.start_quiet _)
  exact ⟨read, count.trans (Nat.zero_add _)⟩

/-- Where no token is left there is no lexical error either. -/
theorem Reaches.failure_eq_none (reaches : r.Reaches es m) (atEnd : m.ahead = []) :
    r.failure = none := by
  rcases reaches.starts with some | none
  · cases lexical : r.failure with
    | none => rfl
    | some e =>
      have reached := reaches.reached
      rw [lexical] at reached
      have tokens : r.tokens.map (·.terminal) ≠ [] := mt List.map_eq_nil_iff.1 some
      exact absurd atEnd (reached.ahead_ne_nil tokens)
  · exact none

theorem fault_locate (r : Reading) (f : Failure) : (r.locate f).fault = f.fault := by
  unfold locate
  split <;> rfl

theorem token_locate (r : Reading) (f : Failure) : (r.locate f).token = r.tokens[f.site]? := by
  unfold locate
  split
  · next t there => exact there.symm
  · next none => exact none.symm

/-- A terminal that cannot stand where it does is rejected by a goal. -/
theorem Stops.rejected {what : Expectation} {site : Nat}
    (stops : r.Stops es ⟨.expected what, site⟩) :
    ∃ g k ahead env, r.Reaches es ⟨g :: k, ahead, site, env⟩ ∧
      g.action env site ahead.head? = .reject what := by
  generalize atFault : Failure.mk (.expected what) site = failure at stops
  cases stops with
  | unread _ _ => cases atFault
  | stuck reaches fails =>
    cases fails with
    | rejects act =>
      cases atFault
      rw [List.append_nil]
      exact ⟨_, _, _, _, reaches, act⟩
    | refuses act =>
      cases atFault
      rcases Goal.refuse_cases act with ⟨_, other⟩ | ⟨_, other⟩ <;> cases other
    | lacks _ _ => cases atFault

/-- A lexical error is reported behind all tokens. -/
theorem Stops.lexical {cause : LexCause} {site : Nat} (stops : r.Stops es ⟨.lexical cause, site⟩) :
    site = r.tokens.length ∧ r.failure.map (·.cause) = some cause := by
  generalize atFault : Failure.mk (.lexical cause) site = failure at stops
  cases stops with
  | unread empty lexical =>
    cases atFault
    rw [empty, lexical]
    exact ⟨rfl, rfl⟩
  | stuck reaches fails =>
    cases fails with
    | rejects act => cases atFault
    | refuses act =>
      cases atFault
      rcases Goal.refuse_cases act with ⟨_, other⟩ | ⟨_, other⟩ <;> cases other
    | lacks act lexical =>
      cases atFault
      obtain ⟨read, count⟩ := reaches.terminals
      have lengths := congrArg List.length read
      rw [List.length_map, List.length_append, ← count] at lengths
      exact ⟨lengths.symm, lexical⟩

theorem compileTerminals_eq_run (starts : r.Starts) {σ : Type} (sink : Sink σ) (s : σ) :
    compileTerminals sink (r.tokens.map (·.terminal)) (r.failure.map (·.cause)) s =
      (Machine.start (r.tokens.map (·.terminal))).run sink (r.failure.map (·.cause)) s := by
  unfold compileTerminals
  split
  · next empty lexical =>
    rcases starts with some | none
    · exact absurd (List.map_eq_nil_iff.1 empty) some
    · rw [none] at lexical
      cases lexical
  · rfl

end Lexer.Reading

section

variable {σ : Type} {sink : Sink σ} {source : String} {s t : σ} {es : List Event}
  {failure : Failure}

/-- A sink that takes every instruction is told the events of the pass. -/
theorem compileInto_of_finishes (finishes : (Lexer.ofString source).read.Finishes es)
    (fed : sink.feed s es = (t, none)) : compileInto sink source s = (t, none) := by
  obtain ⟨m, reaches, done⟩ := finishes
  have ran := Machine.run_of_reaches (Machine.start_proper _) reaches.reached fed
  rw [Machine.run_of_finishes (Machine.move_eq_finishes_iff.2 done)] at ran
  simp only [compileInto, Lexer.Reading.compileTerminals_eq_run reaches.starts, ran,
    Option.map_none]

/-- The last events of a machine that fails are no instructions. -/
theorem Machine.Fails.silent {ending : Option LexCause} {m : Machine} {last : List Event}
    (fails : m.Fails ending last failure) (proper : ∀ g ∈ m.goals, g.Proper) :
    instructionsOf last = [] := by
  cases fails with
  | rejects _ => rfl
  | refuses _ => rfl
  | @lacks g k next u site env env' events cause act _ =>
    have acted := Goal.action_proper (proper g (.head _)) env site (some u)
    rw [act] at acted
    exact acted.1

theorem Sink.feed_append (sink : Sink σ) (s : σ) (es fs : List Event) :
    sink.feed s (es ++ fs) =
      match sink.feed s es with
      | (t, none) => sink.feed t fs
      | refused => refused := by
  induction es generalizing s with
  | nil => rfl
  | cons e es ih =>
    cases silent : e.instruction? with
    | none => rw [List.cons_append, feed_cons_of_silent silent, feed_cons_of_silent silent, ih]
    | some i =>
      obtain rfl : e = .emitted i := by cases e <;> cases silent; rfl
      simp only [List.cons_append, feed]
      split
      · exact ih _
      · rfl

theorem compileInto_of_stops (stops : (Lexer.ofString source).read.Stops es failure)
    (fed : sink.feed s es = (t, none)) :
    compileInto sink source s = (t, some ((Lexer.ofString source).read.locate failure)) := by
  cases stops with
  | unread empty lexical =>
    cases fed
    simp only [compileInto, compileTerminals, empty, lexical, List.map_nil, Option.map_some]
  | @stuck es last m failure reaches fails =>
    rw [Sink.feed_append] at fed
    split at fed
    · next t' first =>
      have silent := fails.silent (reaches.reached.proper (Machine.start_proper _))
      have told := sink.feed_append_of_silent silent t' []
      rw [List.append_nil, fed] at told
      have ran := Machine.run_of_reaches (Machine.start_proper _) reaches.reached first
      rw [Machine.run_of_fails fails.move] at ran
      simp only [compileInto, Lexer.Reading.compileTerminals_eq_run reaches.starts, ran,
        Option.map_some, (Prod.mk.inj told).1]
    · next refused =>
      rw [fed] at refused
      exact absurd rfl (refused t)

/-- A compilation that fails stops, and its error is the failure there. -/
theorem exists_stops_of_compile_eq_error {e : CompileError} (failed : compile source = .error e) :
    ∃ es failure, (Lexer.ofString source).read.Stops es failure ∧
      e = (Lexer.ofString source).read.locate failure := by
  rcases (Lexer.ofString source).read.exists_ending with ⟨es, finishes⟩ | ⟨es, failure, stops⟩
  · have coded := compileInto_of_finishes finishes (Sink.feed_code #[] es)
    unfold compile instructions at failed
    rw [coded] at failed
    cases failed
  · have coded := compileInto_of_stops stops (Sink.feed_code #[] es)
    unfold compile instructions at failed
    rw [coded] at failed
    exact ⟨es, failure, stops, (Except.error.inj failed).symm⟩

end

end JackToVm
