import JackToVm.Proofs.Locations
import JackToVm.Proofs.Runs

/-!
# Checks that never fail

A program that compiles a class checks more than it has to. A production that is chosen by its first
word looks for that word again, and asks for the kind of variable that the word declares. The text
of a program is written to memory like to a file that may be full, and it is read back from bytes
that may be no text. Here is a compilation with all of these checks (`compileGuarded`). None of them
ever fails.

Results.
1. What a guarded machine does is what the machine does (`Machine.guardedMove_eq`,
   `Machine.guardedRun_eq`), so a guarded compilation is a compilation (`compileGuarded_eq`).
2. Few symbols are ever demanded (`Machine.Reaches.demands`), so few terminals are ever expected, and
   a pass stops for few reasons (`Lexer.Reading.Stops.possible`).
3. No name that is read is a keyword, so the receiver of a method can always be declared
   (`Scan.Violates.ne_keyword`, `Lexer.Reading.Reaches.declares_this`).
4. Every stretch that is cut out of a source lies between two of its characters
   (`sliced_of_mem_items`).
-/

namespace JackToVm

/-! ## Productions and their first words -/

/-- The productions that others choose by their first word. -/
inductive Production
  | classVarDec | varDec | subroutineDec
  | letStatement | ifStatement | whileStatement | doStatement | returnStatement
deriving DecidableEq, Repr

/-- The kind of subroutine behind a word, which may be any. -/
def SubroutineKind.ofKeyword : Keyword → SubroutineKind
  | .kwConstructor => constructor
  | .kwMethod => method
  | _ => function

namespace Production

def node : Production → Node
  | classVarDec => .classVarDec
  | varDec => .varDec
  | subroutineDec => .subroutineDec
  | letStatement => .letStatement
  | ifStatement => .ifStatement
  | whileStatement => .whileStatement
  | doStatement => .doStatement
  | returnStatement => .returnStatement

/-- The words that start the production. -/
def words : Production → List Keyword
  | classVarDec => [.kwStatic, .kwField]
  | varDec => [.kwVar]
  | subroutineDec => [.kwConstructor, .kwFunction, .kwMethod]
  | letStatement => [.kwLet]
  | ifStatement => [.kwIf]
  | whileStatement => [.kwWhile]
  | doStatement => [.kwDo]
  | returnStatement => [.kwReturn]

/-- What is asked for where none of the words stands. -/
def expected : Production → String
  | classVarDec => "static` or `field"
  | varDec => "var"
  | subroutineDec => "constructor`, `function` or `method"
  | letStatement => "let"
  | ifStatement => "if"
  | whileStatement => "while"
  | doStatement => "do"
  | returnStatement => "return"

/-- What is to be done behind the first word. A word that stands for no kind of variable is an
error. -/
def behind (p : Production) (env : Env) (word : Keyword) :
    Except SymbolError (List Goal × Env) :=
  match p with
  | classVarDec =>
    (Kind.ofKeyword word).map fun kind => ([.type (.names kind), .symbol .semicolon], env)
  | varDec => .ok ([.type (.names .localVar), .symbol .semicolon], env)
  | subroutineDec =>
    .ok ([.returnType, .subroutineName], { env with subroutineKind := .ofKeyword word })
  | letStatement => .ok ([.letTarget], env)
  | ifStatement =>
    .ok (Goal.ifStatement (env.label "IF_ELSE" env.labels) (env.label "IF_END" env.labels),
      { env with labels := env.labels + 1 })
  | whileStatement =>
    .ok (Goal.whileStatement (env.label "WHILE_EXP" env.labels) (env.label "WHILE_END" env.labels),
      { env with labels := env.labels + 1 })
  | doStatement => .ok (Goal.doStatement, env)
  | returnStatement => .ok (Goal.returnStatement, env)

/-- The goal that chooses the production, and chooses again behind it. -/
def chooser : Production → Goal
  | classVarDec => .classVarDecs
  | varDec => .varDecs
  | subroutineDec => .subroutineDecs
  | _ => .moreStatements

end Production

/-- The production that a goal chooses for the terminal ahead, if it chooses one. -/
def Goal.production? : Goal → Option Terminal → Option Production
  | classVarDecs, some (.keyword word) =>
    if word ∈ [.kwStatic, .kwField] then some .classVarDec else none
  | varDecs, some (.keyword word) => if word ∈ [.kwVar] then some .varDec else none
  | subroutineDecs, some (.keyword word) =>
    if word ∈ [.kwConstructor, .kwFunction, .kwMethod] then some .subroutineDec else none
  | moreStatements, some (.keyword word) =>
    match word with
    | .kwLet => some .letStatement
    | .kwIf => some .ifStatement
    | .kwWhile => some .whileStatement
    | .kwDo => some .doStatement
    | .kwReturn => some .returnStatement
    | _ => none
  | _, _ => none

/-- A goal chooses a production only by one of its words, and does what the production does. -/
theorem Goal.action_of_production? {goal : Goal} {ahead : Option Terminal} {p : Production}
    (chosen : goal.production? ahead = some p) (env : Env) (here : Nat) :
    ∃ word next env', ahead = some (.keyword word) ∧ word ∈ p.words ∧
      p.behind env word = .ok (next, env') ∧
      goal.action env here ahead =
        .accept [.opened p.node] (next ++ [.report (.closed p.node), p.chooser]) env' := by
  unfold production? at chosen
  split at chosen
  case h_5 => cases chosen
  all_goals
    next word =>
      cases word <;> cases chosen <;>
        exact ⟨_, _, _, rfl, by decide, rfl, rfl⟩

/-! ## Guarded machines -/

/-- A check that does not hold: a word does not stand where it was seen, or it stands for no kind of
variable. -/
inductive Breach
  | expected (what : String)
  | symbol (error : SymbolError)
deriving DecidableEq, Repr

/-- What a guarded machine does next. -/
inductive GuardedMove
  | breaks (events : List Event) (breach : Breach) (site : Nat)
  | goesOn (move : Move)

namespace Machine

/-- A production is begun: its node opens, one of its words is consumed, and it goes on behind the
word. -/
def begin (ending : Option LexCause) (m : Machine) (p : Production) (goals : List Goal) :
    GuardedMove :=
  match m.ahead.head? with
  | some (.keyword word) =>
    if word ∈ p.words then
      match p.behind m.env word with
      | .ok (next, env) =>
        .goesOn (m.consume ending [.opened p.node]
          (next ++ [.report (.closed p.node), p.chooser] ++ goals) env)
      | .error e =>
        match m.consume ending [.opened p.node] goals m.env with
        | .moves events _ => .breaks events (.symbol e) m.site
        | move => .goesOn move
    else .breaks [.opened p.node] (.expected p.expected) m.site
  | _ => .breaks [.opened p.node] (.expected p.expected) m.site

/-- One move. A production that is chosen is begun with all of its checks. -/
def guardedMove (ending : Option LexCause) (m : Machine) : GuardedMove :=
  match m.goals with
  | [] => .goesOn .finishes
  | goal :: goals =>
    match goal.production? m.ahead.head? with
    | some p => m.begin ending p goals
    | none => .goesOn (m.move ending)

/-- No check fails: the terminal ahead is still the one that the production was chosen by. -/
theorem guardedMove_eq (ending : Option LexCause) (m : Machine) :
    m.guardedMove ending = .goesOn (m.move ending) := by
  obtain ⟨goals, ahead, site, env⟩ := m
  cases goals with
  | nil => rfl
  | cons goal goals =>
    simp only [guardedMove]
    split
    · next p chosen =>
      -- the word that the production was chosen by is still ahead
      obtain ⟨word, next, env', here, known, behind, act⟩ :=
        Goal.action_of_production? chosen env site
      rw [here] at act
      simp only [begin, here, if_pos known, behind, move, act]
    · rfl

/-- A production that is begun at another word is stopped. -/
example : begin none ⟨[], [.keyword .kwVar], 0, .start⟩ .classVarDec [] =
    .breaks [.opened .classVarDec] (.expected "static` or `field") 0 := by
  rfl

/-- How a guarded pass ends if it does not meet its goals. -/
inductive Halt
  | breach (breach : Breach) (site : Nat)
  | failure (failure : Failure)
deriving DecidableEq, Repr

/-- Runs a machine to its end, with all checks. -/
def guardedRun {σ : Type} (sink : Sink σ) (ending : Option LexCause) (m : Machine) (s : σ) :
    σ × Option Halt :=
  match _h : m.guardedMove ending with
  | .breaks events breach site => (sink.reportAll s events, some (.breach breach site))
  | .goesOn .finishes => (s, none)
  | .goesOn (.fails events failure) => (sink.reportAll s events, some (.failure failure))
  | .goesOn (.emits i next) =>
    match sink.emit s i with
    | (s, none) => guardedRun sink ending next s
    | (s, some reason) => (s, some (.failure ⟨.emission reason, m.site⟩))
  | .goesOn (.moves events next) => guardedRun sink ending next (sink.reportAll s events)
termination_by m.weight
decreasing_by
  · rw [guardedMove_eq] at _h
    exact weight_of_emits (GuardedMove.goesOn.inj _h)
  · rw [guardedMove_eq] at _h
    exact weight_of_moves (GuardedMove.goesOn.inj _h)

/-- A guarded run is a run. -/
theorem guardedRun_eq {σ : Type} (sink : Sink σ) (ending : Option LexCause) (m : Machine) (s : σ) :
    m.guardedRun sink ending s =
      ((m.run sink ending s).1, (m.run sink ending s).2.map .failure) := by
  fun_induction guardedRun sink ending m s with
  | case1 m s events breach site h =>
    rw [guardedMove_eq] at h
    cases h
  | case2 m s h =>
    rw [guardedMove_eq] at h
    rw [run_of_finishes (GuardedMove.goesOn.inj h)]
    rfl
  | case3 m s events failure h =>
    rw [guardedMove_eq] at h
    rw [run_of_fails (GuardedMove.goesOn.inj h)]
    rfl
  | case4 m s i next h t taken ih =>
    rw [guardedMove_eq] at h
    rw [run_of_emits (GuardedMove.goesOn.inj h) taken, ih]
  | case5 m s i next h t reason refused =>
    rw [guardedMove_eq] at h
    rw [run_of_refused (GuardedMove.goesOn.inj h) refused]
    rfl
  | case6 m s events next h ih =>
    rw [guardedMove_eq] at h
    rw [run_of_moves (GuardedMove.goesOn.inj h), ih]

end Machine

/-! ## Guarded compilations -/

/-- Why a guarded compilation has no text: an error of the class, a check that does not hold, or the
text could not be written to memory or read back from there. -/
inductive Mishap
  | parse (error : CompileError)
  | breach (breach : Breach) (token : Option Token)
  | notWritten (reason : String)
  | notText (bytes : ByteArray)

/-- Compiles a class given as terminals, with all checks. -/
def guardedTerminals {σ : Type} (sink : Sink σ) (terminals : List Terminal)
    (ending : Option LexCause) (s : σ) : σ × Option Machine.Halt :=
  match terminals, ending with
  | [], some cause => (s, some (.failure ⟨.lexical cause, 0⟩))
  | _, _ => (Machine.start terminals).guardedRun sink ending s

/-- Compiles a class to text, with all checks. -/
def compileGuarded (source : String) : Except Mishap String :=
  let r := (Lexer.ofString source).read
  match guardedTerminals .code (r.tokens.map (·.terminal)) (r.failure.map (·.cause)) #[] with
  | (_, some (.breach breach site)) => .error (.breach breach r.tokens[site]?)
  | (_, some (.failure failure)) => .error (.parse (r.locate failure))
  | (code, none) =>
    match Writer.emitAll ⟨.empty, none⟩ code.toList with
    | (_, some reason) => .error (.notWritten reason)
    | (w, none) =>
      match String.fromUTF8? w.written with
      | some text => .ok text
      | none => .error (.notText w.written)

theorem guardedTerminals_eq {σ : Type} (sink : Sink σ) (terminals : List Terminal)
    (ending : Option LexCause) (s : σ) :
    guardedTerminals sink terminals ending s =
      ((compileTerminals sink terminals ending s).1,
        (compileTerminals sink terminals ending s).2.map .failure) := by
  match terminals, ending with
  | [], some _ => rfl
  | [], none | _ :: _, _ => exact Machine.guardedRun_eq ..

/-- A guarded compilation has the text of the class or its error. -/
theorem compileGuarded_eq (source : String) :
    compileGuarded source = (compile source).mapError .parse := by
  simp only [compileGuarded, guardedTerminals_eq, compile, instructions, compileInto]
  cases (compileTerminals Sink.code ((Lexer.ofString source).read.tokens.map (·.terminal))
    ((Lexer.ofString source).read.failure.map (·.cause)) #[]) with
  | mk code failure =>
    cases failure with
    | some failure => rfl
    | none =>
      simp only [Option.map_none, Writer.emitAll_unlimited, FileTree.fromUTF8?_toUTF8]
      rfl

/-! ## What is demanded -/

/-- The symbols that are demanded somewhere; any other may stand where it does or be left out. -/
def Symbol.demanded : List Symbol :=
  [.leftBrace, .rightBrace, .leftParen, .rightParen, .rightBracket, .equals, .semicolon]

def Expectation.demanded : List Expectation :=
  [.classWord, .identifier, .type, .term, .endOfText] ++ Symbol.demanded.map .symbol

/-- What an error says of them. -/
def Expectation.demandedTexts : List String :=
  ["class", "<identifier>", "<type>", "<term>", "\x7b", "\x7d", "(", ")", "]", "=", ";", "<eof>"]

theorem Expectation.text_of_demanded : ∀ what ∈ demanded, what.text ∈ demandedTexts := by
  decide

/-- The goal demands no other symbol. -/
def Goal.Demands : Goal → Prop
  | symbol s => s ∈ Symbol.demanded
  | _ => True

/-- The action demands nothing else, now or later. -/
def Action.Demands : Action → Prop
  | reject what => what ∈ Expectation.demanded
  | expand _ next _ | accept _ next _ => ∀ g ∈ next, g.Demands
  | _ => True

theorem Goal.action_demands {goal : Goal} (demands : goal.Demands) (env : Env) (here : Nat)
    (ahead : Option Terminal) : (goal.action env here ahead).Demands := by
  cases goal
  all_goals
    simp only [action, Action.ofSymbol, Action.endOfText, Action.classDec, Action.classWord,
      Action.className, Action.classVarDecs, Action.classVarDecs.declaration, Action.type,
      Action.newName, Action.declare, Action.moreNames, Action.subroutineDecs,
      Action.subroutineDecs.declaration, Action.returnType, Action.subroutineName,
      Action.subroutine, Action.subroutine.receiver, Action.parameterList, Action.moreParameters,
      Action.subroutineBody, Action.varDecs, Action.prologue, Action.statements,
      Action.moreStatements, Action.moreStatements.statement, Action.letTarget, Action.assign,
      Action.assignTo, Action.elsePart, Action.returnValue, Action.callee, Action.expression,
      Action.operators, Action.term, Action.operand, Action.stringConstant, Action.characters,
      Action.named, Action.load, Action.element, Action.call, Action.member, Action.dispatch,
      Action.arguments, Action.expressionList, Action.moreArguments, Action.ofName, Action.ofSlot]
    repeat' split
  all_goals
    try cases ‹TypeUse›
  all_goals
    simp_all [Action.Demands, Demands, Symbol.demanded, Expectation.demanded, condition, block,
      ifStatement, whileStatement, doStatement, returnStatement, assignElement, endOfCall,
      TypeUse.goals]

namespace Machine

variable {ending : Option LexCause} {m z : Machine} {es : List Event}

/-- A machine that moves goes on to demand few symbols. -/
theorem Reaches.demands (reached : Reaches ending m es z) (demands : ∀ g ∈ m.goals, g.Demands) :
    ∀ g ∈ z.goals, g.Demands := by
  induction reached with
  | refl m => exact demands
  | emit _ _ ih => exact ih (List.forall_mem_cons.1 demands).2
  | @expand g k next ahead site env _ _ _ _ act _ ih =>
    obtain ⟨first, others⟩ := List.forall_mem_cons.1 demands
    have acted := Goal.action_demands first env site ahead.head?
    rw [act] at acted
    exact ih (List.forall_mem_append.2 ⟨acted, others⟩)
  | @accept g k next t ahead site env _ _ _ _ act _ _ ih =>
    obtain ⟨first, others⟩ := List.forall_mem_cons.1 demands
    have acted := Goal.action_demands first env site (some t)
    rw [act] at acted
    exact ih (List.forall_mem_append.2 ⟨acted, others⟩)

theorem start_demands (terminals : List Terminal) : ∀ g ∈ (start terminals).goals, g.Demands := by
  simp [start, Goal.Demands]

end Machine

/-- What can be wrong with a class: its text has an error, a terminal is missing that is demanded
somewhere, or a terminal that can be read violates a rule for names and constants. -/
inductive Fault.Possible : Fault → Prop
  | lexical (cause : LexCause) : Possible (.lexical cause)
  | expected {what : Expectation} : what ∈ Expectation.demanded → Possible (.expected what)
  | violation {s : Scan} {next : Option Terminal} {t : Terminal} {fault : Fault} : t.Readable →
      s.Violates next t fault → Possible fault

/-- A pass stops for no other reason. -/
theorem Lexer.Reading.Stops.possible {r : Lexer.Reading} {es : List Event} {failure : Failure}
    (stops : r.Stops es failure) (readable : ∀ t ∈ r.tokens.map (·.terminal), t.Readable) :
    failure.fault.Possible := by
  cases stops with
  | unread _ _ => exact .lexical _
  | stuck reaches fails =>
    cases fails with
    | lacks _ _ => exact .lexical _
    | @rejects g k ahead site env what act =>
      have demands := reaches.reached.demands (Machine.start_demands _) g (.head _)
      have acted := Goal.action_demands demands env site ahead.head?
      rw [act] at acted
      exact .expected acted
    | refuses act =>
      obtain ⟨-, _, _, _, read, violates⟩ := reaches.exists_violation readable act
      exact .violation read violates

/-! ## Names of keywords -/

theorem not_isName_text (word : Keyword) : ¬IsName word.text := by
  rintro ⟨other, -⟩
  rw [Keyword.ofText?_text] at other
  cases other

/-- What is said of a name is not said of a keyword. -/
theorem Scan.Violates.ne_keyword {s : Scan} {next : Option Terminal} {t : Terminal}
    {error : SymbolError} (violates : s.Violates next t (.symbol error)) (readable : t.Readable)
    (word : Keyword) :
    error ≠ .unresolved word.text ∧ ∀ kind, error ≠ .duplicate word.text kind := by
  have named {x : String} (isName : IsName x) : x ≠ word.text := by
    rintro rfl
    exact not_isName_text word isName
  cases violates with
  | unresolved _ _ _ => simp [named readable]
  | duplicate _ _ => simp [named readable]
  | fieldWithoutReceiver _ _ _ _ => simp

/-- Where a pass declares the receiver of a method, the subroutine has no variable of that name. -/
theorem Lexer.Reading.Reaches.declares_this {r : Lexer.Reading} {es : List Event} {m : Machine}
    {kind : Kind} {ty : String} {site : Nat} {goals : List Goal} (reaches : r.Reaches es m)
    (readable : ∀ t ∈ r.tokens.map (·.terminal), t.Readable)
    (next : m.goals = .declare kind ty Keyword.kwThis.text site :: goals) :
    ∃ v symbols, m.env.symbols.declare Keyword.kwThis.text ty kind = .ok (v, symbols) := by
  obtain ⟨_, ahead, here, env⟩ := m
  obtain rfl : _ = _ := next
  cases declared : env.symbols.declare Keyword.kwThis.text ty kind with
  | ok made => exact ⟨made.1, made.2, rfl⟩
  | error error =>
    obtain ⟨earlier, -, rfl⟩ := SymbolTable.declare_eq_error_iff.1 declared
    have act : (Goal.declare kind ty Keyword.kwThis.text site).action env here ahead.head? =
        .refuse (.symbol (.duplicate Keyword.kwThis.text earlier.kind)) site := by
      simp only [Goal.action, Action.declare, declared]
    obtain ⟨-, _, _, _, read, violates⟩ := reaches.exists_violation readable act
    exact absurd rfl ((violates.ne_keyword read .kwThis).2 earlier.kind)

/-! ## Stretches of a source -/

/-- Splits a text behind some bytes, if two characters meet there or the text ends. -/
def splitBytes? (count : Nat) : List Char → Option (List Char × List Char)
  | [] => if count = 0 then some ([], []) else none
  | c :: cs =>
    if count = 0 then some ([], c :: cs)
    else if c.utf8Size ≤ count then
      (splitBytes? (count - c.utf8Size) cs).map fun parts => (c :: parts.1, parts.2)
    else none

/-- Cuts a stretch out of a source. This fails if its ends are not in order, or if one of them lies
inside a character or behind the text. -/
def slice? (source : String) (s : Span) : Option String :=
  if s.start ≤ s.stop then
    (splitBytes? s.start source.toList).bind fun parts =>
      (splitBytes? (s.stop - s.start) parts.2).map fun parts => String.ofList parts.1
  else none

theorem splitBytes?_append (front behind : List Char) :
    splitBytes? (String.ofList front).utf8ByteSize (front ++ behind) = some (front, behind) := by
  induction front with
  | nil => cases behind <;> rfl
  | cons c cs ih =>
    have wide := c.utf8Size_pos
    rw [utf8ByteSize_ofList_cons, List.cons_append, splitBytes?, if_neg (by omega),
      if_pos (Nat.le_add_right _ _), Nat.add_sub_cancel_left, ih]
    rfl

/-- A stretch of a source is cut out of it. -/
theorem slice?_of_append {source : String} {s : Span} (front cut behind : List Char)
    (all : source.toList = front ++ cut ++ behind)
    (start : s.start = (String.ofList front).utf8ByteSize)
    (stop : s.stop = (String.ofList (front ++ cut)).utf8ByteSize) :
    slice? source s = some (String.ofList cut) := by
  rw [utf8ByteSize_ofList_append] at stop
  rw [slice?, if_pos (by omega), all, List.append_assoc, start, splitBytes?_append, Option.bind_some,
    stop, Nat.add_sub_cancel_left, splitBytes?_append, Option.map_some]

/-- A stretch that ends inside a character cannot be cut out. -/
example : slice? "ü" ⟨0, 1⟩ = none := by
  decide

/-- The stretches of an item that the lexer and the reports cut out of a source, with what they get:
the text in front of the item, the item, its spelling if it is a token, a string constant without
its quotes, and the digits of an integer that is too large. -/
structure Sliced (source : String) (item : Item) : Prop where
  front : ∃ front, slice? source ⟨0, item.span.start⟩ = some front
  whole : ∃ covered, slice? source item.span = some covered
  lexeme : ∀ t, item = .ok t → slice? source t.span = some t.lexeme
  content : ∀ t text, item = .ok t → t.terminal = .string text →
    slice? source ⟨t.span.start + 1, t.span.stop - 1⟩ = some text
  digits : ∀ e digits, item = .error e → e.cause = .integerOutOfRange digits →
    slice? source e.span = some digits

theorem sliced_of_mem_items {source : String} {item : Item}
    (mem : item ∈ (Lexer.ofString source).items.1) : Sliced source item := by
  obtain ⟨before, covered, after, all, stands⟩ := exists_before_of_mem_items mem
  have whole := slice?_of_append _ _ _ all stands.start stands.stop
  constructor
  case front =>
    refine ⟨_, slice?_of_append [] before (covered ++ after) ?_ rfl stands.start⟩
    rw [all, List.nil_append, List.append_assoc]
  case whole => exact ⟨_, whole⟩
  case lexeme =>
    rintro t rfl
    rw [stands.lexeme t rfl]
    exact whole
  case content =>
    rintro t text rfl isString
    have reads := stands.reads
    have start : t.span.start = _ := stands.start
    have stop : t.span.stop = _ := stands.stop
    rw [Item.outcome, isString] at reads
    cases reads with
    | @string text _ _ =>
      -- both quotes are one byte long
      have quote : (String.ofList ['"']).utf8ByteSize = 1 := by decide
      have opened := utf8ByteSize_ofList_append before ['"']
      have closed := utf8ByteSize_ofList_append (before ++ ['"'] ++ text) ['"']
      refine slice?_of_append (before ++ ['"']) text (['"'] ++ after) ?_ ?_ ?_
      · rw [all]
        simp
      · rw [opened, start, quote]
      · have same : before ++ '"' :: (text ++ ['"']) = before ++ ['"'] ++ text ++ ['"'] := by simp
        rw [same, closed, quote] at stop
        rw [stop, Nat.add_sub_cancel]
  case digits =>
    rintro e digits rfl tooLarge
    have reads := stands.reads
    rw [Item.outcome, tooLarge] at reads
    cases reads with
    | tooLarge _ _ _ => exact whole

/-! ## All checks -/

theorem possible_of_compile_eq_error {source : String} {e : CompileError}
    (failed : compile source = .error e) : e.fault.Possible := by
  obtain ⟨_, failure, stops, rfl⟩ := exists_stops_of_compile_eq_error failed
  rw [Lexer.Reading.fault_locate]
  exact stops.possible fun _ => Lexer.readable_of_mem_read

/-- No error is about the name of the receiver. -/
theorem ne_this_of_compile_eq_error {source : String} {e : CompileError} {error : SymbolError}
    (failed : compile source = .error e) (isSymbol : e.fault = .symbol error) :
    error ≠ .unresolved "this" ∧ ∀ kind, error ≠ .duplicate "this" kind := by
  have possible := possible_of_compile_eq_error failed
  rw [isSymbol] at possible
  cases possible with
  | violation readable violates => exact violates.ne_keyword readable .kwThis

/-- The checks of a compilation hold.

* A guarded compilation has the text of the class or its error.
* No instruction is refused, and no word is taken for a kind of variable that is none.
* There are twelve things that are ever expected.
* Nothing is wrong with the name of the receiver of a method, which can be declared.
* What is cut out of the source lies between two characters, and so does the token of an error,
  which is one of the items. -/
structure ChecksHold (source : String) : Prop where
  guarded : compileGuarded source = (compile source).mapError .parse
  emission : ∀ e, compile source = .error e → ∀ reason, e.fault ≠ .emission reason
  invalidKind : ∀ e, compile source = .error e → ∀ word, e.fault ≠ .symbol (.invalidKind word)
  expected : ∀ e, compile source = .error e → ∀ what, e.fault = .expected what →
    what.text ∈ Expectation.demandedTexts
  receiver : ∀ e, compile source = .error e →
    e.fault ≠ .symbol (.unresolved "this") ∧ ∀ kind, e.fault ≠ .symbol (.duplicate "this" kind)
  declares : ∀ es m, (Lexer.ofString source).read.Reaches es m → ∀ kind ty site goals,
    m.goals = .declare kind ty "this" site :: goals →
    ∃ v symbols, m.env.symbols.declare "this" ty kind = .ok (v, symbols)
  sliced : ∀ item ∈ (Lexer.ofString source).items.1, Sliced source item
  blamed : ∀ e, compile source = .error e → ∀ t, e.token = some t →
    .ok t ∈ (Lexer.ofString source).items.1

/-- In every compilation all checks hold. -/
theorem checks_hold (source : String) : ChecksHold source := by
  constructor
  case guarded => exact compileGuarded_eq source
  case emission =>
    intro e failed reason isEmission
    have possible := possible_of_compile_eq_error failed
    rw [isEmission] at possible
    cases possible with
    | violation _ violates => cases violates
  case invalidKind =>
    intro e failed word isInvalid
    have possible := possible_of_compile_eq_error failed
    rw [isInvalid] at possible
    cases possible with
    | violation _ violates => cases violates
  case expected =>
    intro e failed what isExpected
    have possible := possible_of_compile_eq_error failed
    rw [isExpected] at possible
    cases possible with
    | expected demanded => exact Expectation.text_of_demanded what demanded
    | violation _ violates => cases violates
  case receiver =>
    intro e failed
    constructor
    · intro isUnresolved
      exact (ne_this_of_compile_eq_error failed isUnresolved).1 rfl
    · intro kind isDuplicate
      exact (ne_this_of_compile_eq_error failed isDuplicate).2 kind rfl
  case declares =>
    exact fun es m reaches kind ty site goals =>
      reaches.declares_this fun _ => Lexer.readable_of_mem_read
  case sliced => exact fun item => sliced_of_mem_items
  case blamed => exact fun e failed t => mem_items_of_compile_eq_error failed

end JackToVm
