import JackToVm.Proofs.Derivation
import JackToVm.Proofs.Sinks

/-!
# The log is the parse tree

A compilation tells of the nodes that open and close and of the terminals that it consumes. The
goals that are left owe the closing of all nodes that are open: that is kept by every rule, and so
along every pass.

A terminal is told of only when the terminal behind it has been read. So a lexical error hides one
more token than it stops at.

Results.
1. The goals of an action owe what was owed and what its events open (`Goal.action_nests`), and the
   goals of a machine owe all nodes that are open (`Machine.Reaches.nests`). No node closes that
   is not the innermost open one, and at the end of a pass none is left (`Finishes.wellNested`).
2. Which terminals are in the log of a pass that stops (`Stops.terminals_of_expected`,
   `Stops.terminals_of_lexical`).
3. The log spells the one derivation that the tokens of the source have, or the part of it that was
   read (`events_spell_tree`).
-/

namespace JackToVm

/-! ## Open nodes -/

/-- The open nodes after an event, innermost first. Only the innermost one can close. -/
def Event.nest (stack : List Node) : Event → Option (List Node)
  | opened n => some (n :: stack)
  | closed n => if stack.head? = some n then some stack.tail else none
  | consumed _ | emitted _ | declared _ | startedClass _ | startedSubroutine .. => some stack

/-- The open nodes after some events. -/
def openNodes (stack : List Node) (events : List Event) : Option (List Node) :=
  events.foldlM Event.nest stack

/-- Every node that closes is the innermost open one, and none stays open. -/
def WellNested (events : List Event) : Prop :=
  openNodes [] events = some []

theorem openNodes_append (stack : List Node) (es fs : List Event) :
    openNodes stack (es ++ fs) = (openNodes stack es).bind (openNodes · fs) := by
  simp only [openNodes, List.foldlM_append]
  rfl

@[simp]
theorem openNodes_nil (stack : List Node) : openNodes stack [] = some stack := rfl

theorem openNodes_cons (stack : List Node) (e : Event) (es : List Event) :
    openNodes stack (e :: es) = (e.nest stack).bind (openNodes · es) := by
  simp only [openNodes, List.foldlM_cons]
  rfl

/-- Closing all open nodes makes the events balanced. -/
theorem wellNested_append_closed {es : List Event} {stack : List Node}
    (nested : openNodes [] es = some stack) : WellNested (es ++ stack.map .closed) := by
  have closing (stack : List Node) : openNodes stack (stack.map .closed) = some [] := by
    induction stack with
    | nil => rfl
    | cons n stack ih =>
      rw [List.map_cons, openNodes_cons]
      simpa [Event.nest] using ih
  rw [WellNested, openNodes_append, nested]
  exact closing stack

/-! ## What goals owe -/

/-- The nodes that a goal closes without opening them. The list of expressions that is open behind
one of its expressions is closed by the goal that reads the others. -/
def Goal.owes : Goal → List Node
  | report (.closed n) => [n]
  | moreArguments .. => [.expressionList]
  | _ => []

/-- The event opens no node. -/
def Event.OpensNone (e : Event) : Prop :=
  ∀ n, e ≠ .opened n

/-- The goals of an action, which open no node by themselves, owe what was owed and the nodes that
its events open. -/
def Action.Nests (owed : List Node) : Action → Prop
  | expand events next _ | accept events next _ =>
    (∀ g ∈ next, g.Reports Event.OpensNone) ∧
      ∀ stack, openNodes (owed ++ stack) events = some (next.flatMap Goal.owes ++ stack)
  | emit _ => owed = []
  | reject _ | refuse .. => True

theorem Goal.action_nests {goal : Goal} (silent : goal.Reports Event.OpensNone) (env : Env)
    (here : Nat) (ahead : Option Terminal) : (goal.action env here ahead).Nests goal.owes := by
  cases goal
  case report event =>
    refine ⟨by simp, fun stack => ?_⟩
    cases event with
    | opened n => exact absurd rfl (silent n)
    | closed n => simp [owes, openNodes_cons, Event.nest]
    | consumed _ | emitted _ | declared _ | startedClass _ | startedSubroutine _ _ =>
      simp [owes, openNodes_cons, Event.nest]
  all_goals
    simp only [action, Action.ofSymbol, Action.endOfText, Action.classDec, Action.classWord,
      Action.className, Action.classVarDecs, Action.classVarDecs.declaration, Action.type,
      Action.newName, Action.declare, Action.moreNames, Action.subroutineDecs,
      Action.subroutineDecs.declaration, Action.returnType, Action.subroutineName,
      Action.subroutine, Action.subroutine.receiver, Action.parameterList, Action.moreParameters,
      Action.subroutineBody, Action.varDecs, Action.prologue, Action.statements,
      Action.moreStatements, Action.moreStatements.statement, Action.letTarget, Action.assign,
      Action.assignTo, Action.elsePart, Action.returnValue, Action.callee, Action.expression,
      Action.operators, Action.term, Action.operand, Action.stringConstant, Action.characters,
      Action.named, Action.load, Action.element, Action.call, Action.member, Action.dispatch,
      Action.arguments, Action.expressionList, Action.moreArguments, Action.ofName, Action.ofSlot]
    repeat' split
  all_goals
    try cases ‹TypeUse›
  all_goals
    simp_all [Action.Nests, Reports, Event.OpensNone, owes, openNodes_cons, Event.nest, condition,
      block, ifStatement, whileStatement, doStatement, returnStatement, assignElement, endOfCall,
      TypeUse.goals]

namespace Machine

variable {ending : Option LexCause} {m z : Machine} {es last : List Event} {failure : Failure}

theorem start_opensNone (terminals : List Terminal) :
    ∀ g ∈ (start terminals).goals, g.Reports Event.OpensNone := by
  intro g mem
  simp only [start, List.mem_cons, List.not_mem_nil, or_false] at mem
  rcases mem with rfl | rfl <;> trivial

/-- All along a pass the goals owe the closing of the open nodes. -/
theorem Reaches.nests (reached : Reaches ending m es z)
    (silent : ∀ g ∈ m.goals, g.Reports Event.OpensNone) :
    (∀ g ∈ z.goals, g.Reports Event.OpensNone) ∧
      openNodes (m.goals.flatMap Goal.owes) es = some (z.goals.flatMap Goal.owes) := by
  induction reached with
  | refl m => exact ⟨silent, rfl⟩
  | @emit g k ahead site env i es z act _ ih =>
    obtain ⟨first, others⟩ := List.forall_mem_cons.1 silent
    have acted := Goal.action_nests first env site ahead.head?
    rw [act] at acted
    have owed : g.owes = [] := acted
    obtain ⟨rest, nested⟩ := ih others
    refine ⟨rest, ?_⟩
    rw [List.flatMap_cons, owed, List.nil_append, openNodes_cons]
    exact nested
  | @expand g k next ahead site env env' events es z act _ ih =>
    obtain ⟨first, others⟩ := List.forall_mem_cons.1 silent
    have acted := Goal.action_nests first env site ahead.head?
    rw [act] at acted
    obtain ⟨rest, nested⟩ := ih (List.forall_mem_append.2 ⟨acted.1, others⟩)
    refine ⟨rest, ?_⟩
    rw [List.flatMap_cons, openNodes_append, acted.2, ← List.flatMap_append]
    exact nested
  | @accept g k next t ahead site env env' events es z act _ _ ih =>
    obtain ⟨first, others⟩ := List.forall_mem_cons.1 silent
    have acted := Goal.action_nests first env site (some t)
    rw [act] at acted
    obtain ⟨rest, nested⟩ := ih (List.forall_mem_append.2 ⟨acted.1, others⟩)
    refine ⟨rest, ?_⟩
    rw [List.flatMap_cons, openNodes_append, acted.2, ← List.flatMap_append, Option.bind_some,
      openNodes_cons]
    exact nested

/-- The last events of a machine that fails close no node that is not open. -/
theorem Fails.nests (fails : m.Fails ending last failure)
    (silent : ∀ g ∈ m.goals, g.Reports Event.OpensNone) :
    ∃ stack, openNodes (m.goals.flatMap Goal.owes) last = some stack := by
  cases fails with
  | rejects _ => exact ⟨_, rfl⟩
  | refuses _ => exact ⟨_, rfl⟩
  | @lacks g k next t site env env' events cause act _ =>
    have acted := Goal.action_nests (silent g (.head _)) env site (some t)
    rw [act] at acted
    exact ⟨_, acted.2 _⟩

/-- The last events of a machine that fails consume no terminal. -/
theorem Fails.quiet (fails : m.Fails ending last failure) (quiet : ∀ g ∈ m.goals, g.Quiet) :
    terminalsOf last = [] := by
  cases fails with
  | rejects _ => rfl
  | refuses _ => rfl
  | @lacks g k next t site env env' events cause act _ =>
    have acted := Goal.action_quiet (quiet g (.head _)) env site (some t)
    rw [act] at acted
    exact acted.1

end Machine

/-! ## The log of a text -/

namespace Lexer.Reading

variable {r : Reading} {es : List Event} {m : Machine} {failure : Failure}

theorem Reaches.nests (reaches : r.Reaches es m) :
    (∀ g ∈ m.goals, g.Reports Event.OpensNone) ∧
      openNodes [] es = some (m.goals.flatMap Goal.owes) :=
  reaches.reached.nests (Machine.start_opensNone _)

theorem Finishes.wellNested (finishes : r.Finishes es) : WellNested es := by
  obtain ⟨m, reaches, done⟩ := finishes
  rw [WellNested, reaches.nests.2, done]
  rfl

theorem Stops.nests (stops : r.Stops es failure) : ∃ stack, openNodes [] es = some stack := by
  cases stops with
  | unread _ _ => exact ⟨[], rfl⟩
  | stuck reaches fails =>
    obtain ⟨silent, nested⟩ := reaches.nests
    rw [openNodes_append, nested]
    exact fails.nests silent

theorem Reaches.quiet (reaches : r.Reaches es m) : ∀ g ∈ m.goals, g.Quiet :=
  reaches.reached.reports (P := (·.terminal? = none)) ⟨fun _ => rfl, fun _ => rfl, fun _ => rfl,
    fun _ => rfl, fun _ _ => rfl⟩ (Machine.start_quiet _)

/-- What a pass that stops has consumed are the first tokens of the text. -/
theorem Stops.terminals (stops : r.Stops es failure) :
    ∃ ahead, r.tokens.map (·.terminal) = terminalsOf es ++ ahead := by
  cases stops with
  | unread empty _ => exact ⟨[], by rw [empty]; rfl⟩
  | stuck reaches fails =>
    rw [terminalsOf_append, fails.quiet reaches.quiet, List.append_nil]
    exact ⟨_, reaches.terminals.1⟩

/-- The tokens in front of one that cannot stand where it does are consumed, and no others. -/
theorem Stops.terminals_of_expected {what : Expectation} {site : Nat}
    (stops : r.Stops es ⟨.expected what, site⟩) :
    terminalsOf es = (r.tokens.take site).map (·.terminal) ∧
      (r.tokens[site]? = none → r.failure = none) := by
  obtain ⟨g, k, ahead, env, reaches, -⟩ := stops.rejected
  obtain ⟨tokens, count⟩ := reaches.terminals
  simp only at tokens count
  constructor
  · rw [List.map_take, tokens, count]
    exact List.take_left.symm
  · intro atEnd
    rw [List.getElem?_eq_none_iff] at atEnd
    refine reaches.failure_eq_none ?_
    have lengths := congrArg List.length tokens
    rw [List.length_map, List.length_append, ← count] at lengths
    exact List.eq_nil_of_length_eq_zero (show ahead.length = 0 by omega)

/-- In front of a lexical error all tokens but the last are consumed. -/
theorem Stops.terminals_of_lexical {cause : LexCause} {site : Nat}
    (stops : r.Stops es ⟨.lexical cause, site⟩) :
    terminalsOf es = r.tokens.dropLast.map (·.terminal) := by
  generalize atFault : Failure.mk (.lexical cause) site = failure at stops
  cases stops with
  | unread empty _ =>
    rw [empty]
    rfl
  | stuck reaches fails =>
    rw [terminalsOf_append, fails.quiet reaches.quiet, List.append_nil]
    cases fails with
    | rejects act => cases atFault
    | refuses act =>
      cases atFault
      rcases Goal.refuse_cases act with ⟨_, other⟩ | ⟨_, other⟩ <;> cases other
    | lacks act _ =>
      rw [List.map_dropLast, reaches.terminals.1]
      exact List.dropLast_concat.symm

end Lexer.Reading

/-! ## Sinks for the tree -/

/-- Keeps the instructions, and tells a receiver of parse trees the nodes and the terminals. -/
def Sink.codeWith {τ : Type} (tree : τ → Event → τ) : Sink (Array Instruction × τ) where
  report s e := if e.ofTree then (s.1, tree s.2 e) else s
  emit s i := ((s.1.push i, s.2), none)

theorem Sink.feed_codeWith {τ : Type} (tree : τ → Event → τ) (code : Array Instruction) (t : τ)
    (es : List Event) :
    (codeWith tree).feed (code, t) es =
      ((code ++ (instructionsOf es).toArray, (treeEvents es).foldl tree t), none) := by
  induction es generalizing code t with
  | nil => simp [feed]
  | cons e es ih =>
    cases e with
    | emitted i =>
      have told : (codeWith tree).feed (code, t) (.emitted i :: es) =
          (codeWith tree).feed (code.push i, t) es := rfl
      rw [told, ih]
      simp
    | opened _ | closed _ | consumed _ | declared _ | startedClass _ | startedSubroutine _ _ =>
      rw [feed_cons_of_silent rfl]
      simp [codeWith, ← ih]

/-- The depth of a tree that is being written is the number of open nodes. -/
theorem TreeText.depth_foldl {stack stack' : List Node} {es : List Event} {t : TreeText}
    (nested : openNodes stack es = some stack') (depth : t.depth = stack.length) :
    (es.foldl TreeText.report t).depth = stack'.length := by
  induction es generalizing stack t with
  | nil =>
    cases nested
    exact depth
  | cons e es ih =>
    rw [openNodes_cons, Option.bind_eq_some_iff] at nested
    obtain ⟨next, first, nested⟩ := nested
    refine ih nested ?_
    cases e with
    | opened n =>
      cases first
      simp [report, openNode, depth]
    | closed n =>
      obtain ⟨-, popped⟩ := Option.ite_none_right_eq_some.1 first
      cases popped
      simp [report, closeNode, depth]
    | consumed _ | emitted _ | declared _ | startedClass _ | startedSubroutine _ _ =>
      cases first
      exact depth

/-- A node that closes was open, so the depth of the tree in front of it is positive. -/
theorem TreeText.depth_pos_of_closed {before after : List Event} {n : Node} {stack : List Node}
    (nested : openNodes [] (before ++ .closed n :: after) = some stack) :
    0 < (before.foldl TreeText.report .empty).depth := by
  rw [openNodes_append, Option.bind_eq_some_iff] at nested
  obtain ⟨opened, first, closing⟩ := nested
  rw [depth_foldl first rfl]
  rw [openNodes_cons, Option.bind_eq_some_iff] at closing
  obtain ⟨_, closes, -⟩ := closing
  obtain ⟨head, -⟩ := Option.ite_none_right_eq_some.1 closes
  cases opened with
  | nil => cases head
  | cons m opened => exact Nat.succ_pos _

/-! ## The log and the parse tree -/

theorem terminalsOf_events (f : Forest) : terminalsOf f.events = f.leaves := by
  induction f with
  | nil => rfl
  | leaf t rest ih => simp [Forest.events, Forest.leaves, ih]
  | node n inner rest ih ih' => simp [Forest.events, Forest.leaves, nodeEvents, ih, ih']

theorem terminalsOf_treeEvents (es : List Event) :
    terminalsOf (treeEvents es) = terminalsOf es := by
  induction es with
  | nil => rfl
  | cons e es ih => cases e <;> simp [ih]

/-- The log of a source that compiles. It is balanced, and it spells the derivation of the tokens
of the source, of which there is one. -/
structure SpellsTree (source : String) (log : List Event) (f : Forest) (tokens : List Token) :
    Prop where
  nested : WellNested log
  events : treeEvents log = f.events
  root : f.row = [.node .classDec]
  derived : f.Derived
  unique : ∀ g : Forest, g.row = [.node .classDec] → g.Derived → g.leaves = f.leaves → g = f
  read : (Lexer.ofString source).items.1 = tokens.map .ok
  leaves : f.leaves = tokens.map (·.terminal)
  consumed : terminalsOf log = tokens.map (·.terminal)

/-- The log of a source that does not compile.

* Closing the nodes that are open at its end makes it balanced.
* The terminals that it has are the first of the source.
* Where a token cannot stand, they are those in front of it, or all at the end of the source.
* For a lexical error they are those in front of the last token before it. -/
structure SpellsPart (source : String) (log : List Event) (e : CompileError) : Prop where
  nested : ∃ stack, openNodes [] log = some stack ∧ WellNested (log ++ stack.map .closed)
  consumed : ∃ (read : List Token) (rest : List Item),
    (Lexer.ofString source).items.1 = read.map .ok ++ rest ∧
      terminalsOf log = read.map (·.terminal)
  expected : ∀ what, e.fault = .expected what → ∃ (read : List Token) (rest : List Item),
    (Lexer.ofString source).items.1 = read.map .ok ++ rest ∧
      terminalsOf log = read.map (·.terminal) ∧ rest.head? = e.token.map .ok
  lexical : ∀ cause, e.fault = .lexical cause →
    ∃ (read : List Token) (error : LexError) (rest : List Item),
      (Lexer.ofString source).items.1 = read.map .ok ++ .error error :: rest ∧
        error.cause = cause ∧ terminalsOf log = read.dropLast.map (·.terminal)

/-- What a log and its outcome say of the source and of all sinks.

* The source compiles if there is no error, and then the log spells its parse tree.
* The instructions are the same whatever is done with the tree, and a receiver of the tree is told
  the nodes and terminals of the log.
* Wherever a node closes while the tree is written as XML, the depth is positive. -/
structure LogSpells (source : String) (log : List Event) (outcome : Option CompileError) :
    Prop where
  compiles : (∃ text, compile source = .ok text) ↔ outcome = none
  tree : outcome = none → ∃ f tokens, SpellsTree source log f tokens
  part : ∀ e, outcome = some e → SpellsPart source log e
  code : compileInto .code source #[] = ((instructionsOf log).toArray, outcome)
  codeWith : ∀ {τ : Type} (tree : τ → Event → τ) (t : τ),
    compileInto (.codeWith tree) source (#[], t) =
      (((instructionsOf log).toArray, (treeEvents log).foldl tree t), outcome)
  xml : compileInto .xmlTree source .empty = (log.foldl TreeText.report .empty, outcome)
  depth : ∀ before n after, log = before ++ .closed n :: after →
    0 < (before.foldl TreeText.report .empty).depth

section

variable {source : String} {log : Array Event} {e : CompileError}

theorem exists_spellsTree (logged : events source = (log, none)) :
    ∃ f tokens, SpellsTree source log.toList f tokens := by
  obtain ⟨d, lexes, -, rfl⟩ := events_eq_iff.1 logged
  obtain ⟨tokens, read, written⟩ := id lexes
  have tree := d.treeEvents_events
  have leaves : d.forest.leaves = tokens.map (·.terminal) := d.leaves_forest.trans written.symm
  refine ⟨d.forest, tokens, ?_⟩
  constructor
  case nested =>
    rcases finishes_or_stops_of_events logged with ⟨finishes, -⟩ | ⟨failure, -, some⟩
    · exact finishes.wellNested
    · cases some
  case events => exact tree
  case root => rfl
  case derived => exact d.derived_forest
  case unique =>
    intro g root derived same
    exact Forest.derivation_unique root derived rfl d.derived_forest same
  case read => exact read
  case leaves => exact leaves
  case consumed => rw [← terminalsOf_treeEvents, tree, terminalsOf_events, leaves]

/-- The items of a source, split behind some of the tokens in front of its first error. -/
theorem exists_items_split (source : String) (k : Nat) :
    ∃ rest : List Item, (Lexer.ofString source).items.1 =
        ((Lexer.ofString source).read.tokens.take k).map .ok ++ rest ∧
      (k < (Lexer.ofString source).read.tokens.length ∨
          (Lexer.ofString source).read.failure = none →
        rest.head? = (Lexer.ofString source).read.tokens[k]?.map .ok) := by
  obtain ⟨behind, all, last⟩ : ∃ behind : List Item, (Lexer.ofString source).items.1 =
      (Lexer.ofString source).read.tokens.map .ok ++ behind ∧
        ((Lexer.ofString source).read.failure = none → behind = []) := by
    rcases (Lexer.ofString source).exists_items_eq_append with ⟨-, all⟩ | ⟨error, rest, some, all⟩
    · exact ⟨[], all.trans (List.append_nil _).symm, fun _ => rfl⟩
    · exact ⟨_, all, fun none => absurd (some.symm.trans none) nofun⟩
  refine ⟨((Lexer.ofString source).read.tokens.drop k).map .ok ++ behind, ?_, fun inside => ?_⟩
  · rw [all, ← List.append_assoc, ← List.map_append, List.take_append_drop]
  · rw [← List.head?_drop, ← List.head?_map]
    rcases inside with more | none
    · have some : (((Lexer.ofString source).read.tokens.drop k).map .ok : List Item) ≠ [] := by
        simpa using more
      exact List.head?_append_of_ne_nil _ some
    · rw [last none, List.append_nil]

theorem spellsPart_of_events (logged : events source = (log, some e)) :
    SpellsPart source log.toList e := by
  rcases finishes_or_stops_of_events logged with ⟨-, none⟩ | ⟨⟨fault, site⟩, stops, located⟩
  · cases none
  cases located
  constructor
  case nested =>
    obtain ⟨stack, nested⟩ := stops.nests
    exact ⟨stack, nested, wellNested_append_closed nested⟩
  case consumed =>
    obtain ⟨ahead, tokens⟩ := stops.terminals
    obtain ⟨rest, items, -⟩ := exists_items_split source (terminalsOf log.toList).length
    refine ⟨_, rest, items, ?_⟩
    rw [List.map_take, tokens, List.take_left]
  case expected =>
    rw [Lexer.Reading.fault_locate, Lexer.Reading.token_locate]
    rintro what rfl
    obtain ⟨consumed, atEnd⟩ := stops.terminals_of_expected
    obtain ⟨rest, items, next⟩ := exists_items_split source site
    refine ⟨_, rest, items, consumed, next ?_⟩
    by_cases more : site < (Lexer.ofString source).read.tokens.length
    · exact .inl more
    · exact .inr (atEnd (List.getElem?_eq_none (Nat.not_lt.1 more)))
  case lexical =>
    rw [Lexer.Reading.fault_locate]
    rintro cause rfl
    obtain ⟨error, rest, -, same, all⟩ := Lexer.exists_items_of_failure stops.lexical.2
    exact ⟨_, error, rest, all, same, stops.terminals_of_lexical⟩

/-- The log of a compilation is the parse tree of its source, or the part of it that was read. -/
theorem events_spell_tree (source : String) :
    LogSpells source (events source).1.toList (events source).2 := by
  have logged : events source = ((events source).1, (events source).2) := rfl
  generalize (events source).1 = log, (events source).2 = outcome at logged
  have nested : ∃ stack, openNodes [] log.toList = some stack := by
    rcases finishes_or_stops_of_events logged with ⟨finishes, -⟩ | ⟨failure, stops, -⟩
    · exact ⟨[], finishes.wellNested⟩
    · exact stops.nests
  constructor
  case compiles =>
    rw [compile_of_logged logged]
    cases outcome <;> simp
  case tree =>
    rintro rfl
    exact exists_spellsTree logged
  case part =>
    rintro e rfl
    exact spellsPart_of_events logged
  case code =>
    have fed := Sink.feed_code #[] log.toList
    rw [Array.empty_append] at fed
    exact compileInto_of_fed logged fed
  case codeWith =>
    intro τ tree t
    have fed := Sink.feed_codeWith tree #[] t log.toList
    rw [Array.empty_append] at fed
    exact compileInto_of_fed logged fed
  case xml => exact compileInto_of_fed logged (Sink.feed_xmlTree .empty log.toList)
  case depth =>
    intro before n after parts
    obtain ⟨stack, nested⟩ := nested
    rw [parts] at nested
    exact TreeText.depth_pos_of_closed nested

end

/-- The list of parameters is there though it is empty; a type and a block are no nodes. -/
example : treeEvents (events "class A { function void f() { return; } }").1.toList =
    (Forest.node .classDec
      (.leaf (.keyword .kwClass) (.leaf (.identifier "A") (.leaf (.symbol .leftBrace)
        (.node .subroutineDec
          (.leaf (.keyword .kwFunction) (.leaf (.keyword .kwVoid) (.leaf (.identifier "f")
            (.leaf (.symbol .leftParen) (.node .parameterList .nil (.leaf (.symbol .rightParen)
              (.node .subroutineBody
                (.leaf (.symbol .leftBrace) (.node .statements
                  (.node .returnStatement
                    (.leaf (.keyword .kwReturn) (.leaf (.symbol .semicolon) .nil)) .nil)
                  (.leaf (.symbol .rightBrace) .nil))) .nil)))))))
          (.leaf (.symbol .rightBrace) .nil))))) .nil).events := by
  decide +kernel

end JackToVm
