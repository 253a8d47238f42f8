import JackToVm.Proofs.Sinks
import JackToVm.Proofs.Tiling

/-!
# One token of lookahead

A compilation needs no list of tokens. It holds one token, and asks the lexer for the next item when
it consumes the one that it holds. So what it has told when it asks for an item depends on the
terminals in front of that item alone.

Results.
1. A machine that asks for its tokens makes the moves of the machine that has all of them
   (`OnlineMachine.move_whole`), so its moments spell the log of the compilation
   (`events_eq_moments`), and it asks for each item once (`exists_asks_eq_range`).
2. The token that is blamed for a failure has been asked for (`Goal.action_blamesBefore`).
3. Where two lexers come to the same terminals, two such machines make the same moves
   (`OnlineMachine.Alike.move_agrees`), and so the same runs up to the first item that differs
   (`OnlineMachine.Alike.run_agrees`).
4. All of it together: `compilation_is_online`.
-/

namespace JackToVm

/-! ## Asking for tokens -/

/-- What happens in a compilation: the lexer is asked for an item, numbered from 0, or an event is
told. -/
inductive Moment
  | asked (item : Nat)
  | told (event : Event)
deriving DecidableEq, Repr

@[simp]
def Moment.event? : Moment → Option Event
  | asked _ => none
  | told e => some e

@[simp]
def Moment.item? : Moment → Option Nat
  | asked item => some item
  | told _ => none

/-- The events among some moments. -/
def eventsOf (moments : List Moment) : List Event :=
  moments.filterMap Moment.event?

/-- The items that are asked for. -/
def asksOf (moments : List Moment) : List Nat :=
  moments.filterMap Moment.item?

/-- The token that is held, with the lexer behind it; or the end of the text. -/
inductive Lookahead
  | token (t : Token) (behind : Lexer)
  | atEnd

namespace Lookahead

def terminal? : Lookahead → Option Terminal
  | token t _ => some t.terminal
  | atEnd => none

/-- All terminals up to the first error or the end. -/
def terminals : Lookahead → List Terminal
  | token t behind => t.terminal :: behind.read.tokens.map (·.terminal)
  | atEnd => []

/-- The error that the terminals end in front of, if there is one. -/
def ending : Lookahead → Option LexCause
  | token _ behind => behind.read.failure.map (·.cause)
  | atEnd => none

theorem head?_terminals (ahead : Lookahead) : ahead.terminals.head? = ahead.terminal? := by
  cases ahead <;> rfl

end Lookahead

namespace Lexer

/-- Asks for the next item, which has to be a token if there is one. -/
def ask (l : Lexer) : Except LexError Lookahead :=
  match l.next with
  | (none, _) => .ok .atEnd
  | (some (.ok t), behind) => .ok (.token t behind)
  | (some (.error e), _) => .error e

theorem tokens_of_ask {l : Lexer} {ahead : Lookahead} (asked : l.ask = .ok ahead) :
    ahead.terminals = l.read.tokens.map (·.terminal) ∧
      ahead.ending = l.read.failure.map (·.cause) := by
  unfold ask at asked
  split at asked
  · next atEnd =>
    cases asked
    rw [read, readFrom_of_none atEnd]
    exact ⟨rfl, rfl⟩
  · next t behind more =>
    cases asked
    rw [read, readFrom_of_ok more, readFrom_eq]
    exact ⟨rfl, rfl⟩
  · cases asked

theorem failure_of_ask {l : Lexer} {e : LexError} (asked : l.ask = .error e) :
    l.read.tokens = [] ∧ l.read.failure = some e := by
  unfold ask at asked
  split at asked
  · cases asked
  · cases asked
  · next more =>
    cases asked
    rw [read, readFrom]
    split <;> simp_all

end Lexer

/-! ## Machines that ask -/

/-- What is yet to do, the token that is held, the number of those that are consumed, and what is
remembered of them. -/
structure OnlineMachine where
  goals : List Goal
  ahead : Lookahead
  site : Nat
  env : Env

/-- What a machine that asks does next. -/
inductive OnlineMove
  | finishes
  | fails (moments : List Moment) (failure : Failure)
  | goesOn (moments : List Moment) (next : OnlineMachine)

/-- What happens in a move. -/
def OnlineMove.moments : OnlineMove → List Moment
  | finishes => []
  | fails moments _ | goesOn moments _ => moments

namespace OnlineMachine

/-- Consumes the token that is held. The item behind it is asked for first. -/
def consume (m : OnlineMachine) (events : List Event) (goals : List Goal) (env : Env) :
    OnlineMove :=
  match m.ahead with
  | .atEnd => .fails (events.map .told) ⟨.expected .token, m.site⟩
  | .token t behind =>
    match behind.ask with
    | .error e => .fails (events.map .told ++ [.asked (m.site + 1)]) ⟨.lexical e.cause, m.site + 1⟩
    | .ok ahead =>
      .goesOn (events.map .told ++ [.asked (m.site + 1), .told (.consumed t.terminal)])
        ⟨goals, ahead, m.site + 1, env⟩

/-- Takes an action for the first goal; the others are behind it. -/
def follow (m : OnlineMachine) (goals : List Goal) : Action → OnlineMove
  | .reject what => .fails [] ⟨.expected what, m.site⟩
  | .refuse fault site => .fails [] ⟨fault, site⟩
  | .emit i => .goesOn [.told (.emitted i)] { m with goals }
  | .expand events next env => .goesOn (events.map .told) { m with goals := next ++ goals, env }
  | .accept events next env => m.consume events (next ++ goals) env

/-- One move, by the rules of the grammar. -/
def move (m : OnlineMachine) : OnlineMove :=
  match m.goals with
  | [] => .finishes
  | goal :: goals => m.follow goals (goal.action m.env m.site m.ahead.terminal?)

/-- The machine with all the terminals that are left. -/
def whole (m : OnlineMachine) : Machine :=
  ⟨m.goals, m.ahead.terminals, m.site, m.env⟩

end OnlineMachine

@[simp]
theorem eventsOf_map_told (events : List Event) : eventsOf (events.map .told) = events := by
  rw [eventsOf, List.filterMap_map]
  exact List.filterMap_some

@[simp]
theorem eventsOf_append (moments more : List Moment) :
    eventsOf (moments ++ more) = eventsOf moments ++ eventsOf more :=
  List.filterMap_append

@[simp]
theorem eventsOf_asked (item : Nat) (moments : List Moment) :
    eventsOf (.asked item :: moments) = eventsOf moments := rfl

@[simp]
theorem eventsOf_told (e : Event) (moments : List Moment) :
    eventsOf (.told e :: moments) = e :: eventsOf moments := rfl

@[simp]
theorem eventsOf_nil : eventsOf [] = [] := rfl

@[simp]
theorem asksOf_map_told (events : List Event) : asksOf (events.map .told) = [] := by
  simp [asksOf]

@[simp]
theorem asksOf_asked (item : Nat) (moments : List Moment) :
    asksOf (.asked item :: moments) = item :: asksOf moments := rfl

@[simp]
theorem asksOf_told (e : Event) (moments : List Moment) :
    asksOf (.told e :: moments) = asksOf moments := rfl

@[simp]
theorem asksOf_nil : asksOf [] = [] := rfl

@[simp]
theorem asksOf_append (moments more : List Moment) :
    asksOf (moments ++ more) = asksOf moments ++ asksOf more :=
  List.filterMap_append

/-- A move with the events of another one, to the same machine. -/
inductive OnlineMove.Shows (ending : Option LexCause) : OnlineMove → Move → Prop
  | finishes : Shows ending .finishes .finishes
  | fails {moments : List Moment} {events : List Event} {failure : Failure} :
      eventsOf moments = events → Shows ending (.fails moments failure) (.fails events failure)
  | emits {i : Instruction} {next : OnlineMachine} : next.ahead.ending = ending →
      Shows ending (.goesOn [.told (.emitted i)] next) (.emits i next.whole)
  | moves {moments : List Moment} {events : List Event} {next : OnlineMachine} :
      eventsOf moments = events → next.ahead.ending = ending →
      Shows ending (.goesOn moments next) (.moves events next.whole)

namespace OnlineMachine

theorem consume_whole (m : OnlineMachine) (events : List Event) (goals : List Goal) (env : Env) :
    (m.consume events goals env).Shows m.ahead.ending
      (m.whole.consume m.ahead.ending events goals env) := by
  obtain ⟨_, ahead, site, _⟩ := m
  cases ahead with
  | atEnd => exact .fails (eventsOf_map_told events)
  | token t behind =>
    cases asked : behind.ask with
    | error e =>
      obtain ⟨none, failed⟩ := Lexer.failure_of_ask asked
      simp only [consume, asked, whole, Machine.consume, Lookahead.terminals, Lookahead.ending,
        none, failed, List.map_nil, Option.map_some]
      exact .fails (by simp)
    | ok ahead =>
      obtain ⟨terminals, ending⟩ := Lexer.tokens_of_ask asked
      simp only [consume, asked, whole, Machine.consume, Lookahead.terminals, Lookahead.ending,
        ← terminals, ← ending]
      -- a token in front of an error is never held: asking for the error fails
      cases ahead with
      | atEnd => exact .moves (by simp) rfl
      | token u behind' => exact .moves (by simp) rfl

/-- A machine that asks makes the moves of the machine that has all terminals. -/
theorem move_whole (m : OnlineMachine) :
    m.move.Shows m.ahead.ending (m.whole.move m.ahead.ending) := by
  obtain ⟨goals, ahead, site, env⟩ := m
  cases goals with
  | nil => exact .finishes
  | cons goal goals =>
    simp only [move, Machine.move, whole, Lookahead.head?_terminals]
    cases goal.action env site ahead.terminal? with
    | reject what => exact .fails rfl
    | refuse fault blamed => exact .fails rfl
    | emit i => exact .emits rfl
    | expand events next env' => exact .moves (eventsOf_map_told events) rfl
    | accept events next env' =>
      exact consume_whole ⟨goal :: goals, ahead, site, env⟩ events (next ++ goals) env'

theorem weight_of_goesOn {m next : OnlineMachine} {moments : List Moment}
    (h : m.move = .goesOn moments next) : next.whole.weight < m.whole.weight := by
  have shows := m.move_whole
  rw [h] at shows
  generalize move : m.whole.move m.ahead.ending = whole at shows
  cases shows with
  | emits _ => exact Machine.weight_of_emits move
  | moves _ _ => exact Machine.weight_of_moves move

/-- Runs a machine to its end: what happens, and why it fails if it does. -/
def run (m : OnlineMachine) : List Moment × Option Failure :=
  match _h : m.move with
  | .finishes => ([], none)
  | .fails moments failure => (moments, some failure)
  | .goesOn moments next => (moments ++ (run next).1, (run next).2)
termination_by m.whole.weight
decreasing_by all_goals exact weight_of_goesOn _h

section

variable {m next : OnlineMachine} {moments : List Moment} {failure : Failure}

theorem run_of_finishes (h : m.move = .finishes) : m.run = ([], none) := by
  rw [run]
  split <;> simp_all

theorem run_of_fails (h : m.move = .fails moments failure) : m.run = (moments, some failure) := by
  rw [run]
  split <;> simp_all

theorem run_of_goesOn (h : m.move = .goesOn moments next) :
    m.run = (moments ++ next.run.1, next.run.2) := by
  rw [run]
  split <;> simp_all

/-- A run starts with the first move. -/
theorem exists_run_eq_append (m : OnlineMachine) :
    ∃ more failure, m.run = (m.move.moments ++ more, failure) := by
  cases move : m.move with
  | finishes => exact ⟨[], _, run_of_finishes move⟩
  | fails moments failure =>
    rw [run_of_fails move]
    exact ⟨[], _, by rw [List.append_nil]; rfl⟩
  | goesOn moments next => exact ⟨_, _, run_of_goesOn move⟩

end

theorem reportAll_log (log : Array Event) (events : List Event) :
    Sink.log.reportAll log events = log ++ events.toArray := by
  simp [Sink.reportAll, Sink.log]

/-- The moments of a run spell the log of the machine that has all terminals. -/
theorem run_whole (m : OnlineMachine) (log : Array Event) :
    m.whole.run .log m.ahead.ending log = (log ++ (eventsOf m.run.1).toArray, m.run.2) := by
  have shows := m.move_whole
  generalize wholeMove : m.whole.move m.ahead.ending = whole at shows
  cases move : m.move with
  | finishes =>
    rw [move] at shows
    cases shows
    rw [Machine.run_of_finishes wholeMove, run_of_finishes move]
    simp
  | fails moments failure =>
    rw [move] at shows
    cases shows with
    | fails spelled =>
      rw [Machine.run_of_fails wholeMove, run_of_fails move, reportAll_log, spelled]
  | goesOn moments next =>
    have lighter := weight_of_goesOn move
    have others := next.run_whole
    rw [move] at shows
    cases shows with
    | emits ending =>
      rw [Machine.run_of_emits wholeMove rfl, run_of_goesOn move, ← ending, others]
      simp
    | moves spelled ending =>
      rw [Machine.run_of_moves wholeMove, run_of_goesOn move, ← ending, others, reportAll_log]
      simp [spelled]
termination_by m.whole.weight

end OnlineMachine

/-! ## Moments of a compilation -/

/-- What happens while a source is compiled, and why it fails if it does: the first item is asked
for, and then a machine runs that asks for the others. -/
def moments (source : String) : List Moment × Option Failure :=
  match (Lexer.ofString source).ask with
  | .error e => ([.asked 0], some ⟨.lexical e.cause, 0⟩)
  | .ok ahead =>
    let (moments, failure) := (OnlineMachine.mk [.classDec, .endOfText] ahead 0 .start).run
    (.asked 0 :: moments, failure)

/-- The log of a compilation has the events among its moments. -/
theorem events_eq_moments (source : String) :
    events source = ((eventsOf (moments source).1).toArray,
      (moments source).2.map (Lexer.ofString source).read.locate) := by
  unfold events compileInto moments
  cases asked : (Lexer.ofString source).ask with
  | error e =>
    obtain ⟨none, failed⟩ := Lexer.failure_of_ask asked
    simp [none, failed, compileTerminals]
  | ok ahead =>
    obtain ⟨terminals, ending⟩ := Lexer.tokens_of_ask asked
    have ran := (OnlineMachine.mk [.classDec, .endOfText] ahead 0 .start).run_whole #[]
    simp only [← terminals, ← ending]
    have started : compileTerminals .log ahead.terminals ahead.ending #[] =
        (Machine.start ahead.terminals).run .log ahead.ending #[] := by
      cases ahead <;> rfl
    have whole : (OnlineMachine.mk [.classDec, .endOfText] ahead 0 .start).whole =
        Machine.start ahead.terminals := rfl
    rw [started, ← whole, ran]
    simp

namespace OnlineMachine

variable {m next : OnlineMachine} {ms : List Moment} {failure : Failure}

/-- A move asks for the item behind the token that it consumes, and for no other. -/
theorem asks_of_goesOn (h : m.move = .goesOn ms next) :
    asksOf ms = [] ∧ next.site = m.site ∨ asksOf ms = [m.site + 1] ∧ next.site = m.site + 1 := by
  unfold move follow at h
  split at h
  · cases h
  · split at h
    case h_3 => cases h; exact .inl ⟨rfl, rfl⟩
    case h_4 => cases h; exact .inl ⟨asksOf_map_told _, rfl⟩
    case h_5 =>
      unfold consume at h
      split at h
      · cases h
      · split at h
        · cases h
        · cases h
          exact .inr ⟨by simp, rfl⟩
    all_goals cases h

theorem asks_of_fails (h : m.move = .fails ms failure) :
    asksOf ms = [] ∨ asksOf ms = [m.site + 1] := by
  unfold move follow at h
  split at h
  · cases h
  · split at h
    case h_1 | h_2 => cases h; exact .inl rfl
    case h_5 =>
      unfold consume at h
      split at h
      · cases h; exact .inl (asksOf_map_told _)
      · split at h
        · cases h; exact .inr (by simp)
        · cases h
    all_goals cases h

/-- Items are asked for one after the other. -/
theorem exists_asks_eq_range (m : OnlineMachine) :
    ∃ n, asksOf m.run.1 = List.range' (m.site + 1) n := by
  cases move : m.move with
  | finishes =>
    rw [run_of_finishes move]
    exact ⟨0, rfl⟩
  | fails ms failure =>
    rw [run_of_fails move]
    rcases asks_of_fails move with asks | asks
    · exact ⟨0, asks⟩
    · exact ⟨1, asks⟩
  | goesOn ms next =>
    have lighter := weight_of_goesOn move
    obtain ⟨n, others⟩ := next.exists_asks_eq_range
    rw [run_of_goesOn move, asksOf_append, others]
    rcases asks_of_goesOn move with ⟨asks, site⟩ | ⟨asks, site⟩
    · exact ⟨n, by rw [asks, site, List.nil_append]⟩
    · exact ⟨n + 1, by rw [asks, site]; rfl⟩
termination_by m.whole.weight

end OnlineMachine

/-- The items of a source are asked for from the first on. -/
theorem exists_asks_eq_range (source : String) :
    ∃ n, asksOf (moments source).1 = List.range n := by
  unfold moments
  split
  · exact ⟨1, rfl⟩
  · next ahead _ =>
    obtain ⟨n, asks⟩ :=
      OnlineMachine.exists_asks_eq_range ⟨[.classDec, .endOfText], ahead, 0, .start⟩
    refine ⟨n + 1, ?_⟩
    rw [asksOf_asked, asks, List.range_eq_range']
    rfl

/-! ## Tokens that are blamed -/

/-- The site that a goal blames if something read before it is at fault. -/
def Goal.site? : Goal → Option Nat
  | declare _ _ _ site | subroutine _ site | assign _ site | stringConstant _ site
  | characters _ site | named _ site | load _ site | element _ site | call _ site
  | member _ site | dispatch _ site _ => some site
  | _ => none

/-- A goal blames a token that is consumed, if any. -/
def Goal.BlamesBefore (here : Nat) (g : Goal) : Prop :=
  ∀ site ∈ g.site?, site < here

def Action.BlamesBefore (here : Nat) : Action → Prop
  | refuse _ site => site < here
  | expand _ next _ => ∀ g ∈ next, g.BlamesBefore here
  | accept _ next _ => ∀ g ∈ next, g.BlamesBefore (here + 1)
  | reject _ | emit _ => True

theorem Goal.action_blamesBefore {goal : Goal} {here : Nat} (blames : goal.BlamesBefore here)
    (env : Env) (ahead : Option Terminal) : (goal.action env here ahead).BlamesBefore here := by
  cases goal
  all_goals
    simp only [action, Action.ofSymbol, Action.endOfText, Action.classDec, Action.classWord,
      Action.className, Action.classVarDecs, Action.classVarDecs.declaration, Action.type,
      Action.newName, Action.declare, Action.moreNames, Action.subroutineDecs,
      Action.subroutineDecs.declaration, Action.returnType, Action.subroutineName,
      Action.subroutine, Action.subroutine.receiver, Action.parameterList, Action.moreParameters,
      Action.subroutineBody, Action.varDecs, Action.prologue, Action.statements,
      Action.moreStatements, Action.moreStatements.statement, Action.letTarget, Action.assign,
      Action.assignTo, Action.elsePart, Action.returnValue, Action.callee, Action.expression,
      Action.operators, Action.term, Action.operand, Action.stringConstant, Action.characters,
      Action.named, Action.load, Action.element, Action.call, Action.member, Action.dispatch,
      Action.arguments, Action.expressionList, Action.moreArguments, Action.ofName, Action.ofSlot]
    repeat' split
  all_goals
    try cases ‹TypeUse›
  all_goals
    simp_all [Action.BlamesBefore, BlamesBefore, site?, condition, block, ifStatement,
      whileStatement, doStatement, returnStatement, assignElement, endOfCall, TypeUse.goals]
  all_goals omega

theorem Goal.BlamesBefore.mono {g : Goal} {here later : Nat} (blames : g.BlamesBefore here)
    (le : here ≤ later) : g.BlamesBefore later :=
  fun site mem => Nat.lt_of_lt_of_le (blames site mem) le

/-! ## Two runs -/

/-- The next `n` items of two lexers are tokens, with the same terminals. -/
def Lexer.Alike : Nat → Lexer → Lexer → Prop
  | 0, _, _ => True
  | n + 1, l, l' => ∃ t t' behind behind', l.next = (some (.ok t), behind) ∧
      l'.next = (some (.ok t'), behind') ∧ t.terminal = t'.terminal ∧ Alike n behind behind'

/-- Two tokens with the same terminal are held, and so are the next `n` items. -/
inductive Lookahead.Alike (n : Nat) : Lookahead → Lookahead → Prop
  | token {t t' : Token} {behind behind' : Lexer} : t.terminal = t'.terminal →
      behind.Alike n behind' → Alike n (.token t behind) (.token t' behind')

theorem Lexer.Alike.ask {n : Nat} {l l' : Lexer} (alike : l.Alike (n + 1) l') :
    ∃ ahead ahead', l.ask = .ok ahead ∧ l'.ask = .ok ahead' ∧ ahead.Alike n ahead' := by
  obtain ⟨t, t', behind, behind', next, next', same, others⟩ := alike
  exact ⟨_, _, by simp only [Lexer.ask, next], by simp only [Lexer.ask, next'], .token same others⟩

/-- Lexers that come to tokens with the same terminals. -/
theorem Lexer.Iterates.alike {l l' finish finish' : Lexer} {ts us : List Token}
    {rest rest' : List Item} (iterates : l.Iterates (ts.map .ok ++ rest) finish)
    (iterates' : l'.Iterates (us.map .ok ++ rest') finish')
    (same : ts.map (·.terminal) = us.map (·.terminal)) : l.Alike ts.length l' := by
  induction ts generalizing us l l' with
  | nil => trivial
  | cons t ts ih =>
    cases us with
    | nil => cases same
    | cons u us =>
      obtain ⟨first, others⟩ := List.cons.inj same
      cases iterates with
      | step next more =>
        cases iterates' with
        | step next' more' => exact ⟨t, u, _, _, next, next', first, ih more more' others⟩

/-- The tokens that a lexer comes to first are the first that it reads. -/
theorem Lexer.Iterates.exists_tokens_eq_append {l finish : Lexer} {ts : List Token}
    {rest : List Item} (iterates : l.Iterates (ts.map .ok ++ rest) finish) :
    ∃ more, l.read.tokens = ts ++ more := by
  induction ts generalizing l with
  | nil => exact ⟨_, rfl⟩
  | cons t ts ih =>
    cases iterates with
    | step next others =>
      obtain ⟨more, tokens⟩ := ih others
      refine ⟨more, ?_⟩
      rw [read, readFrom_of_ok next, readFrom_eq, tokens]
      rfl

/-- Two machines with the same goals, where the last item of which both know the terminal is the
one in front of item `k`. -/
structure OnlineMachine.Alike (k : Nat) (m m' : OnlineMachine) : Prop where
  goals : m.goals = m'.goals
  ahead : ∃ n, m.ahead.Alike n m'.ahead ∧ m.site + 1 + n = k
  site : m.site = m'.site
  env : m.env = m'.env
  blames : ∀ g ∈ m.goals, g.BlamesBefore m.site

/-- Either neither of two runs asks for item `k`, and they are the same; or both ask for it, and
everything before that is the same. -/
inductive AgreeUntil (k : Nat) :
    List Moment × Option Failure → List Moment × Option Failure → Prop
  | whole {moments : List Moment} {failure : Option Failure} : .asked k ∉ moments →
      (∀ f ∈ failure, f.site < k) → AgreeUntil k (moments, failure) (moments, failure)
  | asked {before after after' : List Moment} {failure failure' : Option Failure} :
      .asked k ∉ before →
      AgreeUntil k (before ++ .asked k :: after, failure) (before ++ .asked k :: after', failure')

theorem AgreeUntil.append {k : Nat} {r r' : List Moment × Option Failure} {moments : List Moment}
    (agree : AgreeUntil k r r') (silent : .asked k ∉ moments) :
    AgreeUntil k (moments ++ r.1, r.2) (moments ++ r'.1, r'.2) := by
  cases agree with
  | whole absent blamed =>
    exact .whole (List.not_mem_append silent absent) blamed
  | asked absent =>
    simp only [← List.append_assoc]
    exact .asked (List.not_mem_append silent absent)

theorem asked_not_mem_map_told (k : Nat) (events : List Event) :
    Moment.asked k ∉ events.map .told := by
  simp

/-- Two moves are the same, or both ask for item `k` after the same events. -/
inductive OnlineMove.Agrees (k : Nat) : OnlineMove → OnlineMove → Prop
  | finishes : Agrees k .finishes .finishes
  | fails {moments : List Moment} {failure : Failure} : .asked k ∉ moments → failure.site < k →
      Agrees k (.fails moments failure) (.fails moments failure)
  | goesOn {moments : List Moment} {next next' : OnlineMachine} : .asked k ∉ moments →
      next.Alike k next' → Agrees k (.goesOn moments next) (.goesOn moments next')
  | asks {move move' : OnlineMove} {before after after' : List Moment} : .asked k ∉ before →
      move.moments = before ++ .asked k :: after → move'.moments = before ++ .asked k :: after' →
      Agrees k move move'

namespace OnlineMachine

/-- To consume a token, the item behind it is asked for. -/
theorem exists_moments_consume {goals goals' : List Goal} {t : Token} {behind : Lexer} {site : Nat}
    {env env' : Env} (events : List Event) :
    ∃ after, (consume ⟨goals, .token t behind, site, env⟩ events goals' env').moments =
      events.map .told ++ .asked (site + 1) :: after := by
  cases asked : behind.ask with
  | error e =>
    refine ⟨[], ?_⟩
    simp only [consume, asked, OnlineMove.moments]
  | ok ahead =>
    refine ⟨[.told (.consumed t.terminal)], ?_⟩
    simp only [consume, asked, OnlineMove.moments]

/-- Machines that are alike make the same move, unless they ask for item `k`. -/
theorem Alike.move_agrees {k : Nat} {m m' : OnlineMachine} (alike : Alike k m m') :
    m.move.Agrees k m'.move := by
  obtain ⟨goals, ahead, site, env⟩ := m
  obtain ⟨_, _, _, _⟩ := m'
  obtain ⟨rfl, ⟨n, held, rfl⟩, rfl, rfl, blames⟩ := alike
  cases goals with
  | nil => exact .finishes
  | cons g gs =>
    obtain ⟨first, later⟩ := List.forall_mem_cons.1 blames
    obtain @⟨t, t', behind, behind', same, others⟩ := id held
    have acted := Goal.action_blamesBefore first env (some t.terminal)
    simp only [move, Lookahead.terminal?, ← same]
    cases act : g.action env site (some t.terminal) with
    | reject what =>
      refine .fails List.not_mem_nil ?_
      simp only
      omega
    | refuse fault blamed =>
      rw [act] at acted
      have consumed : blamed < site := acted
      refine .fails List.not_mem_nil ?_
      simp only
      omega
    | emit i => exact .goesOn (by simp) ⟨rfl, ⟨n, held, rfl⟩, rfl, rfl, later⟩
    | expand events next env' =>
      rw [act] at acted
      exact .goesOn (asked_not_mem_map_told _ events)
        ⟨rfl, ⟨n, held, rfl⟩, rfl, rfl, List.forall_mem_append.2 ⟨acted, later⟩⟩
    | accept events next env' =>
      rw [act] at acted
      cases n with
      | zero =>
        obtain ⟨after, asks⟩ := exists_moments_consume events
        obtain ⟨after', asks'⟩ := exists_moments_consume events
        exact .asks (asked_not_mem_map_told _ events) asks asks'
      | succ n =>
        obtain ⟨ahead, ahead', asked, asked', held'⟩ := others.ask
        simp only [follow, consume, asked, asked', ← same]
        refine .goesOn (by simp) ⟨rfl, ⟨n, held', ?_⟩, rfl, rfl, ?_⟩
        · simp only
          omega
        · exact List.forall_mem_append.2
            ⟨acted, fun g mem => (later g mem).mono (Nat.le_succ site)⟩

/-- Machines that are alike do the same until they ask for item `k`. -/
theorem Alike.run_agrees {k : Nat} {m m' : OnlineMachine} (alike : Alike k m m') :
    AgreeUntil k m.run m'.run := by
  have agrees := alike.move_agrees
  generalize move : m.move = first, move' : m'.move = first' at agrees
  cases agrees with
  | finishes =>
    rw [run_of_finishes move, run_of_finishes move']
    exact .whole List.not_mem_nil nofun
  | fails absent blamed =>
    rw [run_of_fails move, run_of_fails move']
    refine .whole absent ?_
    rintro _ ⟨⟩
    exact blamed
  | goesOn absent next =>
    have lighter := weight_of_goesOn move
    rw [run_of_goesOn move, run_of_goesOn move']
    exact next.run_agrees.append absent
  | asks absent asks asks' =>
    obtain ⟨more, failure, ran⟩ := m.exists_run_eq_append
    obtain ⟨more', failure', ran'⟩ := m'.exists_run_eq_append
    rw [ran, ran', move, move', asks, asks', List.append_assoc, List.append_assoc]
    exact .asked absent
termination_by m.whole.weight

end OnlineMachine

/-! ## Two compilations -/

section

variable {source source' : String} {ts us : List Token} {rest rest' : List Item}

theorem exists_moments_eq_cons (source : String) :
    ∃ after failure, moments source = (.asked 0 :: after, failure) := by
  unfold moments
  split
  · exact ⟨[], _, rfl⟩
  · exact ⟨_, _, rfl⟩

/-- Two compilations do the same until they ask for the item behind some tokens with the same
terminals. -/
theorem moments_agree (items : (Lexer.ofString source).items.1 = ts.map .ok ++ rest)
    (items' : (Lexer.ofString source').items.1 = us.map .ok ++ rest')
    (same : ts.map (·.terminal) = us.map (·.terminal)) :
    AgreeUntil ts.length (moments source) (moments source') := by
  have iterates := Lexer.iterates_items (.ofString source)
  have iterates' := Lexer.iterates_items (.ofString source')
  rw [items] at iterates
  rw [items'] at iterates'
  have alike := iterates.alike iterates' same
  generalize ts.length = k at alike
  cases k with
  | zero =>
    obtain ⟨after, failure, first⟩ := exists_moments_eq_cons source
    obtain ⟨after', failure', first'⟩ := exists_moments_eq_cons source'
    rw [first, first']
    exact @AgreeUntil.asked 0 [] _ _ _ _ List.not_mem_nil
  | succ n =>
    obtain ⟨ahead, ahead', asked, asked', held⟩ := alike.ask
    have alike : OnlineMachine.Alike (n + 1) ⟨[.classDec, .endOfText], ahead, 0, .start⟩
        ⟨[.classDec, .endOfText], ahead', 0, .start⟩ := by
      refine ⟨rfl, ⟨n, held, ?_⟩, rfl, rfl, ?_⟩
      · simp only
        omega
      · simp [Goal.BlamesBefore, Goal.site?]
    have silent : Moment.asked (n + 1) ∉ [Moment.asked 0] := by simp
    simp only [moments, asked, asked']
    exact alike.run_agrees.append silent

/-- Two compilations end in the same way: with the same text and the same tree, or with the same
fault at the same index of their tokens. -/
inductive EndAlike (source source' : String) (ts us : List Token) : Prop
  | compiled {text xml : String} :
      compile source = .ok text → compile source' = .ok text →
      treeXml source = .ok xml → treeXml source' = .ok xml → EndAlike source source' ts us
  | failed {e e' : CompileError} (i : Nat) :
      compile source = .error e → compile source' = .error e' →
      treeXml source = .error e → treeXml source' = .error e' →
      e'.fault = e.fault → e.token = ts[i]? → e'.token = us[i]? → EndAlike source source' ts us

theorem endAlike_of_items (items : (Lexer.ofString source).items.1 = ts.map .ok)
    (items' : (Lexer.ofString source').items.1 = us.map .ok)
    (same : ts.map (·.terminal) = us.map (·.terminal)) : EndAlike source source' ts us := by
  have logged : events source = _ := compileInto_of_lexes ⟨ts, items, rfl⟩ #[]
  have logged' : events source' = _ := compileInto_of_lexes ⟨us, items', same.symm⟩ #[]
  obtain ⟨-, read⟩ := Lexer.items_eq_map_ok_iff.1 items
  obtain ⟨-, read'⟩ := Lexer.items_eq_map_ok_iff.1 items'
  have text := compile_of_logged logged
  have text' := compile_of_logged logged'
  have tree := treeXml_of_logged logged
  have tree' := treeXml_of_logged logged'
  cases ended : (compileTerminals .log (ts.map (·.terminal)) none #[]).2 with
  | none =>
    rw [ended] at text text' tree tree'
    exact .compiled text text' tree tree'
  | some failure =>
    rw [ended] at text text' tree tree'
    refine .failed failure.site text text' tree tree' ?_ ?_ ?_
    · rw [Lexer.Reading.fault_locate, Lexer.Reading.fault_locate]
    · rw [Lexer.Reading.token_locate, read]
    · rw [Lexer.Reading.token_locate, read']

/-- A compilation looks one token ahead. What two of them tell before they ask for the item behind
tokens with the same terminals is the same; if one of them fails without asking for it, the other
fails as well, with the same fault at the same token; and if these tokens are all of both sources,
they end in the same way. -/
theorem compilation_is_online (items : (Lexer.ofString source).items.1 = ts.map .ok ++ rest)
    (items' : (Lexer.ofString source').items.1 = us.map .ok ++ rest')
    (same : ts.map (·.terminal) = us.map (·.terminal)) :
    (∀ text, (events text).1.toList = eventsOf (moments text).1 ∧
      ∃ n, asksOf (moments text).1 = List.range n) ∧
    AgreeUntil ts.length (moments source) (moments source') ∧
    (∀ log e, events source = (log, some e) → .asked ts.length ∉ (moments source).1 →
      ∃ i e', i < ts.length ∧ events source' = (log, some e') ∧ e'.fault = e.fault ∧
        e.token = ts[i]? ∧ e'.token = us[i]?) ∧
    (rest = [] → rest' = [] → EndAlike source source' ts us) := by
  refine ⟨fun text => ⟨?_, exists_asks_eq_range text⟩, moments_agree items items' same, ?_, ?_⟩
  · rw [events_eq_moments]
  · intro log e failed silent
    have agree := moments_agree items items' same
    rw [events_eq_moments] at failed ⊢
    generalize moments source = run, moments source' = run' at agree failed silent
    cases agree with
    | asked _ => exact absurd (List.mem_append_right _ (.head _)) silent
    | @whole _ failure _ blamed =>
      obtain ⟨rfl, located⟩ := Prod.mk.inj failed
      obtain ⟨⟨fault, i⟩, rfl, rfl⟩ := Option.map_eq_some_iff.1 located
      have before : i < ts.length := blamed _ rfl
      have after : i < us.length := by
        have lengths := congrArg List.length same
        rw [List.length_map, List.length_map] at lengths
        omega
      have iterates := Lexer.iterates_items (.ofString source)
      have iterates' := Lexer.iterates_items (.ofString source')
      rw [items] at iterates
      rw [items'] at iterates'
      obtain ⟨more, read⟩ := iterates.exists_tokens_eq_append
      obtain ⟨more', read'⟩ := iterates'.exists_tokens_eq_append
      refine ⟨i, _, before, rfl, ?_, ?_, ?_⟩
      · rw [Lexer.Reading.fault_locate, Lexer.Reading.fault_locate]
      · rw [Lexer.Reading.token_locate, read, List.getElem?_append_left before]
      · rw [Lexer.Reading.token_locate, read', List.getElem?_append_left after]
  · rintro rfl rfl
    rw [List.append_nil] at items items'
    exact endAlike_of_items items items' same

end

/-- The `let` cannot stand where it does, and is found so before the item behind it is read, which
is an error in the second source. -/
theorem compilation_is_online_before_error :
    (Lexer.ofString "class A \x7b let").items.1 =
        (Lexer.ofString "class A \x7b let").read.tokens.map .ok ++ [] ∧
      (Lexer.ofString "class A\x7b\nlet #").items.1 =
        (Lexer.ofString "class A\x7b\nlet #").read.tokens.map .ok ++
          [.error ⟨.unexpectedChar '#', ⟨13, 14⟩, 2⟩] ∧
      ∃ i e', i < 4 ∧
        events "class A\x7b\nlet #" = ((events "class A \x7b let").1, some e') ∧
        e'.fault = .expected (.symbol .rightBrace) ∧
        some ⟨.keyword .kwLet, "let", ⟨10, 13⟩, 1⟩ =
          (Lexer.ofString "class A \x7b let").read.tokens[i]? ∧
        e'.token = (Lexer.ofString "class A\x7b\nlet #").read.tokens[i]? := by
  have items : (Lexer.ofString "class A \x7b let").items.1 =
      (Lexer.ofString "class A \x7b let").read.tokens.map .ok ++ [] := by
    decide +kernel
  have items' : (Lexer.ofString "class A\x7b\nlet #").items.1 =
      (Lexer.ofString "class A\x7b\nlet #").read.tokens.map .ok ++
        [.error ⟨.unexpectedChar '#', ⟨13, 14⟩, 2⟩] := by
    decide +kernel
  have same : (Lexer.ofString "class A \x7b let").read.tokens.map (·.terminal) =
      (Lexer.ofString "class A\x7b\nlet #").read.tokens.map (·.terminal) := by
    decide +kernel
  have failed : events "class A \x7b let" = ((events "class A \x7b let").1,
      some ⟨.expected (.symbol .rightBrace),
        some ⟨.keyword .kwLet, "let", ⟨10, 13⟩, 1⟩, 1⟩) := by
    decide +kernel
  have silent : .asked (Lexer.ofString "class A \x7b let").read.tokens.length ∉
      (moments "class A \x7b let").1 := by
    decide +kernel
  have count : (Lexer.ofString "class A \x7b let").read.tokens.length = 4 := by decide +kernel
  obtain ⟨-, -, fails, -⟩ := compilation_is_online items items' same
  rw [count] at fails silent
  exact ⟨items, items', fails _ _ failed silent⟩

end JackToVm
