import JackToVm.Proofs.TreeLog

/-!
# Headway

A pass makes headway when it consumes a terminal. Between two terminals it only puts goals in the
place of others, and there is an order in which the rules of the goals can come up. Every rule has
a rank, and the ranks go down until the next terminal is consumed; so no rule comes up twice.

The goals behind the first one count as soon as those in front of them can be met without a
terminal. So the order is kept by the whole stack of goals (`Staged`): behind every goal only rules
come up that are lower than all that the goal ends with.

Results.
1. The goals that replace a goal keep the order (`Goal.action_keepsOrder`), and so does a pass
   (`Machine.Reaches.staged`).
2. As long as a pass makes no headway, what comes up stays below a bound
   (`Machine.Reaches.ranksBelow`). So from one rule to a later one a terminal is consumed or the
   rank goes down (`Machine.Reaches.rank_lt`).
3. A goal that cannot idle makes headway before it is met, and before any node closes that has to
   have a terminal in it (`Goal.action_bars`, `Machine.Reaches.bars`).
4. Both are seen in the log (`paced_events`): between two terminals nodes open in the order of their
   ranks, and only those that may be empty are opened and closed (`Paced.opened`, `Paced.closed`).
-/

namespace JackToVm

/-! ## Ranks -/

/-- The goal may be met though no terminal is consumed. -/
def Goal.idles : Goal → Bool
  | report _ | emit _ | endOfText | classVarDecs | declare .. | moreNames .. | subroutineDecs
  | parameterList | moreParameters | varDecs | prologue _ | statements | moreStatements | elsePart
  | returnValue | operators | stringConstant .. | characters .. | named .. | load .. => true
  | _ => false

/-- The ranks of the rules. Two acts, and the characters of a string constant, may come up any
number of times between two terminals; they have no rank. -/
def Goal.rank? : Goal → Option Nat
  | report _ | emit _ | characters .. => none
  | varDecs | named .. => some 4
  | subroutine .. | prologue _ | returnValue | stringConstant .. | load .. | element ..
  | expressionList .. => some 3
  | classVarDecs | declare .. | statements | assign .. | elsePart | expression | operators | call ..
  | dispatch .. => some 2
  | classDec | moreNames .. | subroutineDecs | returnType | parameterList | moreParameters
  | subroutineBody _ | moreStatements | assignTo _ | term | arguments .. | moreArguments .. =>
    some 1
  | _ => some 0

/-- The least rank that may come up behind the last terminal of a goal, until the goal is met. It
is more than all ranks for a goal that ends with a terminal. -/
def Goal.floor : Goal → Nat
  | endOfText => 0
  | type (.names _) | moreNames .. | subroutineDecs | parameterList | moreParameters | statements
  | moreStatements => 1
  | type .parameter | newName .. | declare .. | classVarDecs | elsePart | returnValue | expression
  | operators => 2
  | prologue _ | term | operand | stringConstant .. | named .. | load .. => 3
  | varDecs => 4
  | _ => 5

theorem Goal.idles_of_rank?_eq_none {g : Goal} (unranked : g.rank? = none) : g.idles := by
  cases g <;> first | rfl | cases unranked

/-! ## The order of goals -/

/-- The ranks of what comes up before the next terminal are below the bound, if those of what comes
up behind these goals are below the limit. -/
def RanksBelow (limit bound : Nat) : List Goal → Prop
  | [] => limit ≤ bound
  | g :: gs => (∀ r, g.rank? = some r → r < bound) ∧ (g.idles → RanksBelow limit bound gs)

/-- Behind every goal only rules come up that are lower than what the goal ends with. -/
def Staged (limit : Nat) : List Goal → Prop
  | [] => True
  | g :: gs => RanksBelow limit g.floor gs ∧ Staged limit gs

theorem RanksBelow.mono {limit bound bound' : Nat} {gs : List Goal} (le : bound ≤ bound')
    (below : RanksBelow limit bound gs) : RanksBelow limit bound' gs := by
  induction gs with
  | nil => exact Nat.le_trans below le
  | cons g gs ih =>
    exact ⟨fun r rank => Nat.lt_of_lt_of_le (below.1 r rank) le, fun idles => ih (below.2 idles)⟩

theorem RanksBelow.append {limit limit' bound : Nat} {gs hs : List Goal}
    (first : RanksBelow limit bound gs) (behind : RanksBelow limit' limit hs) :
    RanksBelow limit' bound (gs ++ hs) := by
  induction gs with
  | nil => exact behind.mono first
  | cons g gs ih => exact ⟨first.1, fun idles => ih (first.2 idles)⟩

theorem Staged.append {limit limit' : Nat} {gs hs : List Goal} (first : Staged limit gs)
    (behind : RanksBelow limit' limit hs) (staged : Staged limit' hs) :
    Staged limit' (gs ++ hs) := by
  induction gs with
  | nil => exact staged
  | cons g gs ih => exact ⟨first.1.append behind, ih first.2⟩

/-- Goals without a rank change nothing. -/
theorem RanksBelow.append_of_unranked {limit bound : Nat} {gs hs : List Goal}
    (unranked : ∀ g ∈ gs, g.rank? = none) (below : RanksBelow limit bound hs) :
    RanksBelow limit bound (gs ++ hs) := by
  induction gs with
  | nil => exact below
  | cons g gs ih =>
    obtain ⟨here, others⟩ := List.forall_mem_cons.1 unranked
    exact ⟨fun r rank => absurd (here.symm.trans rank) nofun, fun _ => ih others⟩

/-- The goals of an action keep the order, and they come up behind the goal that they replace. -/
def Action.KeepsOrder (g : Goal) : Action → Prop
  | expand _ next _ =>
    Staged g.floor next ∧ (∀ r, g.rank? = some r → RanksBelow g.floor r next) ∧
      (g.rank? = none → ∀ h ∈ next, h.rank? = none)
  | accept _ next _ => Staged g.floor next
  | emit _ => g.rank? = none
  | reject _ | refuse .. => True

theorem Goal.action_keepsOrder (goal : Goal) (env : Env) (here : Nat) (ahead : Option Terminal) :
    (goal.action env here ahead).KeepsOrder goal := by
  cases goal
  case prologue name =>
    simp only [action, Action.prologue]
    cases env.subroutineKind <;>
      simp [Action.KeepsOrder, Staged, RanksBelow, SubroutineKind.binding, rank?, idles, floor]
  all_goals
    simp only [action, Action.ofSymbol, Action.endOfText, Action.classDec, Action.classWord,
      Action.className, Action.classVarDecs, Action.classVarDecs.declaration, Action.type,
      Action.newName, Action.declare, Action.moreNames, Action.subroutineDecs,
      Action.subroutineDecs.declaration, Action.returnType, Action.subroutineName,
      Action.subroutine, Action.subroutine.receiver, Action.parameterList, Action.moreParameters,
      Action.subroutineBody, Action.varDecs, Action.statements,
      Action.moreStatements, Action.moreStatements.statement, Action.letTarget, Action.assign,
      Action.assignTo, Action.elsePart, Action.returnValue, Action.callee, Action.expression,
      Action.operators, Action.term, Action.operand, Action.stringConstant, Action.characters,
      Action.named, Action.load, Action.element, Action.call, Action.member, Action.dispatch,
      Action.arguments, Action.expressionList, Action.moreArguments, Action.ofName, Action.ofSlot]
    repeat' split
  all_goals
    try cases ‹TypeUse›
  all_goals
    simp [Action.KeepsOrder, Staged, RanksBelow, rank?, idles, floor, condition, block, ifStatement,
      whileStatement, doStatement, returnStatement, assignElement, endOfCall, TypeUse.goals]

/-! ## Goals that cannot idle -/

/-- The production may be read though there is no terminal in it. -/
def Node.mayBeEmpty : Node → Bool
  | statements | parameterList | expressionList => true
  | _ => false

/-- The rank of the goal that opens a node. -/
def Node.rank : Node → Nat
  | varDec => 4
  | expressionList => 3
  | classVarDec | statements | expression => 2
  | classDec | subroutineDec | parameterList | subroutineBody | letStatement | ifStatement
  | whileStatement | doStatement | returnStatement | term => 1

/-- The goal closes a node that has to have a terminal in it. -/
def Goal.closes : Goal → Bool
  | report (.closed n) => !n.mayBeEmpty
  | _ => false

/-- A terminal is consumed before the goals are met, and before any of them closes a node that has
to have a terminal in it. -/
def Bars : List Goal → Prop
  | [] => False
  | g :: gs => g.closes = false ∧ (g.idles → Bars gs)

theorem Bars.append {gs : List Goal} (bars : Bars gs) (hs : List Goal) : Bars (gs ++ hs) := by
  induction gs with
  | nil => exact bars.elim
  | cons g gs ih => exact ⟨bars.1, fun idles => ih (bars.2 idles)⟩

theorem Bars.append_of_closes_eq_false {gs hs : List Goal} (none : ∀ g ∈ gs, g.closes = false)
    (bars : Bars hs) : Bars (gs ++ hs) := by
  induction gs with
  | nil => exact bars
  | cons g gs ih =>
    obtain ⟨here, others⟩ := List.forall_mem_cons.1 none
    exact ⟨here, fun _ => ih others⟩

/-- What a goal tells when it is replaced: a node opens by a rule of its rank, and it has a terminal
in it if the goal cannot idle; a node closes only by the goal that is there for that. -/
def Goal.Tells (g : Goal) : Event → Prop
  | .opened n => g.rank? = some n.rank ∧ (n.mayBeEmpty ∨ ¬g.idles)
  | .closed n => g = .report (.closed n)
  | _ => True

/-- An action for a goal that cannot idle does not let it, and no other action closes a node on its
way. -/
def Action.Bars (g : Goal) : Action → Prop
  | expand events next _ =>
    (g.idles = false → JackToVm.Bars next) ∧ (g.idles → ∀ h ∈ next, h.closes = false) ∧
      (events = [] ∨ ∃ e, events = [e] ∧ g.Tells e)
  | accept events _ _ => events = [] ∨ ∃ n, events = [.opened n] ∧ g.rank? = some n.rank
  | emit _ => g.idles
  | reject _ | refuse .. => True

theorem Goal.action_bars {goal : Goal} (silent : goal.Reports Event.OpensNone) (env : Env)
    (here : Nat) (ahead : Option Terminal) : (goal.action env here ahead).Bars goal := by
  cases goal
  case report event =>
    cases event with
    | opened n => exact absurd rfl (silent n)
    | closed _ | consumed _ | emitted _ | declared _ | startedClass _ | startedSubroutine _ _ =>
      simp [action, Action.Bars, Tells, idles]
  case prologue name =>
    simp only [action, Action.prologue]
    cases env.subroutineKind <;>
      simp [Action.Bars, SubroutineKind.binding, idles, closes]
  all_goals
    simp only [action, Action.ofSymbol, Action.endOfText, Action.classDec, Action.classWord,
      Action.className, Action.classVarDecs, Action.classVarDecs.declaration, Action.type,
      Action.newName, Action.declare, Action.moreNames, Action.subroutineDecs,
      Action.subroutineDecs.declaration, Action.returnType, Action.subroutineName,
      Action.subroutine, Action.subroutine.receiver, Action.parameterList, Action.moreParameters,
      Action.subroutineBody, Action.varDecs, Action.statements,
      Action.moreStatements, Action.moreStatements.statement, Action.letTarget, Action.assign,
      Action.assignTo, Action.elsePart, Action.returnValue, Action.callee, Action.expression,
      Action.operators, Action.term, Action.operand, Action.stringConstant, Action.characters,
      Action.named, Action.load, Action.element, Action.call, Action.member, Action.dispatch,
      Action.arguments, Action.expressionList, Action.moreArguments, Action.ofName, Action.ofSlot]
    repeat' split
  all_goals
    simp [Action.Bars, Bars, Tells, closes, rank?, idles, Node.rank, Node.mayBeEmpty, endOfCall]

/-! ## Steps -/

section

variable {limit bound : Nat} {g : Goal} {gs next : List Goal} {events : List Event} {env : Env}

theorem Staged.expand (acted : (Action.expand events next env).KeepsOrder g)
    (staged : Staged limit (g :: gs)) : Staged limit (next ++ gs) :=
  acted.1.append staged.1 staged.2

theorem RanksBelow.expand (acted : (Action.expand events next env).KeepsOrder g)
    (staged : Staged limit (g :: gs)) (below : RanksBelow limit bound (g :: gs)) :
    RanksBelow limit bound (next ++ gs) := by
  cases rank : g.rank? with
  | none => exact .append_of_unranked (acted.2.2 rank) (below.2 (g.idles_of_rank?_eq_none rank))
  | some r => exact ((acted.2.1 r rank).append staged.1).mono (Nat.le_of_lt (below.1 r rank))

theorem Bars.expand (acted : (Action.expand events next env).Bars g) (bars : Bars (g :: gs)) :
    Bars (next ++ gs) := by
  cases idles : g.idles with
  | false => exact (acted.1 idles).append gs
  | true => exact .append_of_closes_eq_false (acted.2.1 idles) (bars.2 idles)

end

/-! ## Passes -/

namespace Machine

variable {ending : Option LexCause} {m z : Machine} {es : List Event} {limit bound : Nat}

theorem start_staged (terminals : List Terminal) : Staged 0 (start terminals).goals := by
  simp [start, Staged, RanksBelow, Goal.rank?, Goal.floor, Goal.idles]

/-- A pass keeps the order of its goals. -/
theorem Reaches.staged (reached : Reaches ending m es z) (staged : Staged limit m.goals) :
    Staged limit z.goals := by
  induction reached with
  | refl m => exact staged
  | emit _ _ ih => exact ih staged.2
  | @expand g k next ahead site env _ _ _ _ act _ ih =>
    have acted := g.action_keepsOrder env site ahead.head?
    rw [act] at acted
    exact ih (.expand acted staged)
  | @accept g k next t ahead site env _ _ _ _ act _ _ ih =>
    have acted := g.action_keepsOrder env site (some t)
    rw [act] at acted
    exact ih (Staged.append acted staged.1 staged.2)

/-- As long as no terminal is consumed, what comes up stays below the bound. -/
theorem Reaches.ranksBelow (reached : Reaches ending m es z) (staged : Staged limit m.goals)
    (below : RanksBelow limit bound m.goals) (idle : terminalsOf es = []) :
    RanksBelow limit bound z.goals := by
  induction reached with
  | refl m => exact below
  | @emit g k ahead site env i _ _ act _ ih =>
    have acted := g.action_keepsOrder env site ahead.head?
    rw [act] at acted
    exact ih staged.2 (below.2 (g.idles_of_rank?_eq_none acted)) idle
  | @expand g k next ahead site env _ _ _ _ act _ ih =>
    have acted := g.action_keepsOrder env site ahead.head?
    rw [act] at acted
    rw [terminalsOf_append] at idle
    exact ih (.expand acted staged) (.expand acted staged below) (List.append_eq_nil_iff.1 idle).2
  | accept _ _ _ _ => simp at idle

/-- From one rule to a later one a terminal is consumed, or the rank goes down. -/
theorem Reaches.rank_lt {g h : Goal} {k l : List Goal} {a b : Nat}
    (reached : Reaches ending m es z) (staged : Staged limit m.goals) (moved : m ≠ z)
    (here : m.goals = g :: k) (there : z.goals = h :: l) (rank : g.rank? = some a)
    (rank' : h.rank? = some b) (idle : terminalsOf es = []) : b < a := by
  cases reached with
  | refl => exact absurd rfl moved
  | @emit g' k' ahead site env i es _ act _ =>
    obtain ⟨rfl, rfl⟩ := List.cons.inj here
    have acted := g'.action_keepsOrder env site ahead.head?
    rw [act] at acted
    exact absurd (Eq.trans (Eq.symm acted) rank) nofun
  | @expand g' k' next ahead site env _ events es _ act rest =>
    obtain ⟨rfl, rfl⟩ := List.cons.inj here
    have acted := g'.action_keepsOrder env site ahead.head?
    rw [act] at acted
    rw [terminalsOf_append] at idle
    have below : RanksBelow limit a (next ++ k') := (acted.2.1 a rank).append staged.1
    have atEnd := rest.ranksBelow (.expand acted staged) below (List.append_eq_nil_iff.1 idle).2
    rw [there] at atEnd
    exact atEnd.1 b rank'
  | accept _ _ _ => simp at idle

/-- As long as no terminal is consumed, goals that cannot be met without one are not met. -/
theorem Reaches.bars {gs k : List Goal} (reached : Reaches ending m es z)
    (silent : ∀ g ∈ m.goals, g.Reports Event.OpensNone) (here : m.goals = gs ++ k)
    (bars : Bars gs) (idle : terminalsOf es = []) : ∃ gs', z.goals = gs' ++ k ∧ Bars gs' := by
  induction reached generalizing gs with
  | refl m => exact ⟨gs, here, bars⟩
  | @emit g _ ahead site env i _ _ act _ ih =>
    cases gs with
    | nil => exact bars.elim
    | cons g gs =>
      obtain ⟨rfl, rfl⟩ := List.cons.inj here
      obtain ⟨first, others⟩ := List.forall_mem_cons.1 silent
      have acted := Goal.action_bars first env site ahead.head?
      rw [act] at acted
      exact ih others rfl (bars.2 acted) idle
  | @expand g _ next ahead site env _ _ _ _ act _ ih =>
    cases gs with
    | nil => exact bars.elim
    | cons g gs =>
      obtain ⟨rfl, rfl⟩ := List.cons.inj here
      obtain ⟨first, others⟩ := List.forall_mem_cons.1 silent
      have acted := Goal.action_bars first env site ahead.head?
      have nested := Goal.action_nests first env site ahead.head?
      rw [act] at acted nested
      rw [terminalsOf_append] at idle
      exact ih (List.forall_mem_append.2 ⟨nested.1, others⟩) (List.append_assoc next gs k).symm
        (.expand acted bars) (List.append_eq_nil_iff.1 idle).2
  | accept _ _ _ _ => simp at idle

end Machine

/-! ## Events -/

/-- The nodes that were opened since the last terminal, after an event. -/
def Event.freshen (fresh : List Node) : Event → List Node
  | opened n => n :: fresh
  | consumed _ => []
  | closed _ | emitted _ | declared _ | startedClass _ | startedSubroutine .. => fresh

/-- An event that comes without a terminal behind the nodes `fresh`: only nodes of lower ranks open,
and only nodes close that may be empty. -/
def Event.KeepsPace (fresh : List Node) : Event → Prop
  | opened n => ∀ a ∈ fresh, n.rank < a.rank
  | closed n => n ∈ fresh → n.mayBeEmpty
  | consumed _ | emitted _ | declared _ | startedClass _ | startedSubroutine .. => True

def Paced (fresh : List Node) : List Event → Prop
  | [] => True
  | e :: es => e.KeepsPace fresh ∧ Paced (e.freshen fresh) es

/-- The goals left stay below the nodes that were opened since the last terminal, and close none of
them that has to have a terminal in it. -/
def Fresh (fresh : List Node) (goals : List Goal) : Prop :=
  ∀ n ∈ fresh, RanksBelow 0 n.rank goals ∧ (n.mayBeEmpty ∨ Bars goals)

theorem fresh_nil (goals : List Goal) : Fresh [] goals := fun _ mem => nomatch mem

section

variable {fresh : List Node} {g : Goal} {k next : List Goal} {events : List Event} {env : Env}
  {e : Event} {n : Node}

theorem Fresh.expand (order : (Action.expand events next env).KeepsOrder g)
    (acted : (Action.expand events next env).Bars g) (staged : Staged 0 (g :: k))
    (here : Fresh fresh (g :: k)) : Fresh fresh (next ++ k) := fun n mem =>
  ⟨.expand order staged (here n mem).1, (here n mem).2.imp_right (.expand acted)⟩

theorem Fresh.keepsPace_opened (here : Fresh fresh (g :: k)) (rank : g.rank? = some n.rank) :
    (Event.opened n).KeepsPace fresh :=
  fun a mem => (here a mem).1.1 _ rank

/-- What a goal tells keeps pace. -/
theorem Fresh.keepsPace (here : Fresh fresh (g :: k)) (tells : g.Tells e) :
    e.KeepsPace fresh := by
  cases e with
  | opened n => exact here.keepsPace_opened tells.1
  | closed n =>
    obtain rfl : g = .report (.closed n) := tells
    intro mem
    rcases (here n mem).2 with empty | bars
    · exact empty
    · simpa [Goal.closes] using bars.1
  | consumed _ | emitted _ | declared _ | startedClass _ | startedSubroutine _ _ => trivial

/-- The goals that replace a goal fit what it tells. -/
theorem Fresh.tell (order : (Action.expand events next env).KeepsOrder g)
    (acted : (Action.expand events next env).Bars g) (staged : Staged 0 (g :: k))
    (here : Fresh fresh (g :: k)) (tells : g.Tells e) : Fresh (e.freshen fresh) (next ++ k) := by
  have others := here.expand order acted staged
  cases e with
  | opened n =>
    obtain ⟨rank, filled⟩ := tells
    refine List.forall_mem_cons.2 ⟨⟨(order.2.1 _ rank).append staged.1, ?_⟩, others⟩
    exact filled.imp_right fun busy => (acted.1 (Bool.eq_false_iff.2 busy)).append k
  | consumed t => exact fresh_nil _
  | closed _ | emitted _ | declared _ | startedClass _ | startedSubroutine _ _ => exact others

end

namespace Machine

variable {ending : Option LexCause} {m z : Machine} {es last : List Event} {fresh : List Node}
  {failure : Failure}

/-- The events of a pass keep pace, and so do those behind them. -/
theorem Reaches.paced {behind : List Event} (reached : Reaches ending m es z)
    (silent : ∀ g ∈ m.goals, g.Reports Event.OpensNone) (staged : Staged 0 m.goals)
    (here : Fresh fresh m.goals)
    (paced : ∀ fresh', Fresh fresh' z.goals → Paced fresh' behind) :
    Paced fresh (es ++ behind) := by
  induction reached generalizing fresh with
  | refl m => exact paced fresh here
  | @emit g k ahead site env i es z act _ ih =>
    obtain ⟨first, others⟩ := List.forall_mem_cons.1 silent
    have order := g.action_keepsOrder env site ahead.head?
    have acted := Goal.action_bars first env site ahead.head?
    rw [act] at order acted
    have idles : g.idles := acted
    have here' : Fresh fresh k := fun n mem =>
      ⟨(here n mem).1.2 idles, (here n mem).2.imp_right fun bars => bars.2 idles⟩
    exact ⟨trivial, ih others staged.2 here' paced⟩
  | @expand g k next ahead site env _ events es z act _ ih =>
    obtain ⟨first, others⟩ := List.forall_mem_cons.1 silent
    have order := g.action_keepsOrder env site ahead.head?
    have acted := Goal.action_bars first env site ahead.head?
    have nested := Goal.action_nests first env site ahead.head?
    rw [act] at order acted nested
    have silent' := List.forall_mem_append.2 ⟨nested.1, others⟩
    rcases id acted.2.2 with rfl | ⟨e, rfl, tells⟩
    · exact ih silent' (.expand order staged) (here.expand order acted staged) paced
    · exact ⟨here.keepsPace tells,
        ih silent' (.expand order staged) (here.tell order acted staged tells) paced⟩
  | @accept g k next t ahead site env _ events es z act _ _ ih =>
    obtain ⟨first, others⟩ := List.forall_mem_cons.1 silent
    have order := g.action_keepsOrder env site (some t)
    have acted := Goal.action_bars first env site (some t)
    have nested := Goal.action_nests first env site (some t)
    rw [act] at order acted nested
    have silent' := List.forall_mem_append.2 ⟨nested.1, others⟩
    have rest := ih silent' (Staged.append order staged.1 staged.2) (fresh_nil _) paced
    rcases id acted with rfl | ⟨n, rfl, rank⟩
    · exact ⟨trivial, rest⟩
    · exact ⟨here.keepsPace_opened rank, trivial, rest⟩

theorem Fails.paced (fails : m.Fails ending last failure)
    (silent : ∀ g ∈ m.goals, g.Reports Event.OpensNone) (here : Fresh fresh m.goals) :
    Paced fresh last := by
  cases fails with
  | rejects _ => trivial
  | refuses _ => trivial
  | @lacks g k next t site env env' events cause act _ =>
    have acted := Goal.action_bars (silent g (.head _)) env site (some t)
    rw [act] at acted
    rcases id acted with rfl | ⟨n, rfl, rank⟩
    · trivial
    · exact ⟨here.keepsPace_opened rank, trivial⟩

end Machine

/-- The log of a compilation keeps pace. -/
theorem paced_events (source : String) : Paced [] (events source).1.toList := by
  have logged : events source = ((events source).1, (events source).2) := rfl
  rcases finishes_or_stops_of_events logged with ⟨⟨m, reaches, -⟩, -⟩ | ⟨failure, stops, -⟩
  · rw [← List.append_nil (events source).1.toList]
    exact reaches.reached.paced (Machine.start_opensNone _) (Machine.start_staged _) (fresh_nil _)
      fun _ _ => trivial
  · generalize (events source).1.toList = log at stops
    cases stops with
    | unread _ _ => trivial
    | stuck reaches fails =>
      exact reaches.reached.paced (Machine.start_opensNone _) (Machine.start_staged _) (fresh_nil _)
        fun _ here => fails.paced reaches.nests.1 here

section

variable {fresh : List Node} {es fs before inner after : List Event} {a b n : Node}

/-- Without a terminal no node is forgotten. -/
theorem Paced.of_append (paced : Paced fresh (es ++ fs)) :
    ∃ fresh', Paced fresh' fs ∧ (terminalsOf es = [] → fresh ⊆ fresh') := by
  induction es generalizing fresh with
  | nil => exact ⟨fresh, paced, fun _ => List.Subset.refl _⟩
  | cons e es ih =>
    obtain ⟨fresh', rest, kept⟩ := ih paced.2
    refine ⟨fresh', rest, fun idle => ?_⟩
    rw [terminalsOf_cons, List.append_eq_nil_iff] at idle
    cases e with
    | consumed t => cases idle.1
    | opened n => exact List.subset_of_cons_subset (kept idle.2)
    | closed _ | emitted _ | declared _ | startedClass _ | startedSubroutine _ _ =>
      exact kept idle.2

/-- A node that closes has a terminal in it, or it may be empty. -/
theorem Paced.closed (paced : Paced fresh (before ++ .opened n :: (inner ++ .closed n :: after))) :
    n.mayBeEmpty ∨ terminalsOf inner ≠ [] := by
  obtain ⟨_, rest, -⟩ := paced.of_append
  obtain ⟨fresh', closing, kept⟩ := rest.2.of_append
  by_cases idle : terminalsOf inner = []
  · exact .inl (closing.1 (kept idle (.head _)))
  · exact .inr idle

/-- From a node to one that opens later a terminal is consumed, or the rank goes down. -/
theorem Paced.opened (paced : Paced fresh (before ++ .opened a :: (inner ++ .opened b :: after))) :
    terminalsOf inner ≠ [] ∨ b.rank < a.rank := by
  obtain ⟨_, rest, -⟩ := paced.of_append
  obtain ⟨fresh', opening, kept⟩ := rest.2.of_append
  by_cases idle : terminalsOf inner = []
  · exact .inr (opening.1 a (kept idle (.head _)))
  · exact .inl idle

end

end JackToVm
