import JackToVm.Proofs.Translation

/-!
# Traces of syntax trees

The events of a compilation in one pass, by recursion on the tree of the class: nodes open and
close, terminals are consumed, variables are declared, and instructions come out as soon as a part
of the tree is read.

Results.
1. The instructions of a trace are the code of the tree (`ClassDec.instructions_events`): reading
   and translating in one pass gives what translating the whole tree gives.
-/

namespace JackToVm

/-! ## Expressions -/

/-- The events of some instructions. -/
def emissions (code : List Instruction) : List Event :=
  code.map .emitted

/-- The events of a node of the parse tree. -/
def nodeEvents (node : Node) (inner : List Event) : List Event :=
  .opened node :: (inner ++ [.closed node])

/-- `'(' expressionList ')'` and the call itself. -/
def argumentEvents (inner : List Event) (target : String) (count : Nat) : List Event :=
  .consumed (.symbol .leftParen) ::
    (nodeEvents .expressionList inner ++
      [.consumed (.symbol .rightParen), .emitted (.call target count)])

mutual

def Expression.events (c : Context) : Expression → List Event
  | .of t ops => nodeEvents .expression (nodeEvents .term (t.events c) ++ ops.events c)

def Operations.events (c : Context) : Operations → List Event
  | .nil => []
  | .cons o t ops =>
    .consumed (.symbol o.symbol) ::
      (nodeEvents .term (t.events c) ++ .emitted o.code :: ops.events c)

/-- The events of a term within its node. -/
def Term.events (c : Context) : Term → List Event
  | .integer n => [.consumed (.integer n), .emitted (.push .constant n)]
  | .text s => .consumed (.string s) :: emissions (textCode s)
  | .word w => .consumed (.keyword w.keyword) :: emissions w.code
  | .var x => [.consumed (.identifier x), .emitted (.load (c.slot x))]
  | .element x e =>
    .consumed (.identifier x) :: .consumed (.symbol .leftBracket) ::
      (e.events c ++ .consumed (.symbol .rightBracket) ::
        emissions [.load (c.slot x), .arithmetic .add, .pop .pointer 1, .push .that 0])
  | .call call => .consumed (.identifier call.head) :: call.events c
  | .group e =>
    .consumed (.symbol .leftParen) :: (e.events c ++ [.consumed (.symbol .rightParen)])
  | .unary o t =>
    .consumed (.symbol o.symbol) :: (nodeEvents .term (t.events c) ++ [.emitted o.code])

/-- The events of a call behind its first name. -/
def Call.events (c : Context) : Call → List Event
  | .own m as =>
    .emitted (.push .pointer 0) ::
      argumentEvents (as.events c) (c.memberName m) (as.count + 1)
  | .dotted x m as =>
    .consumed (.symbol .dot) :: .consumed (.identifier m) ::
      (emissions (c.receiverCode x) ++
        argumentEvents (as.events c) (c.target x m) (as.count + (c.receiverCode x).length))

def Arguments.events (c : Context) : Arguments → List Event
  | .nil => []
  | .cons e as => e.events c ++ as.moreEvents c

/-- The events of arguments behind another one. -/
def Arguments.moreEvents (c : Context) : Arguments → List Event
  | .nil => []
  | .cons e as => .consumed (.symbol .comma) :: (e.events c ++ as.moreEvents c)

end

/-! ## Statements -/

/-- `'{' statement* '}'` -/
def blockEvents (inner : List Event) : List Event :=
  .consumed (.symbol .leftBrace) ::
    (nodeEvents .statements inner ++ [.consumed (.symbol .rightBrace)])

/-- `'(' expression ')'` and a jump if the value is false. -/
def conditionEvents (inner : List Event) (target : String) : List Event :=
  .consumed (.symbol .leftParen) ::
    (inner ++ .consumed (.symbol .rightParen) :: emissions [.arithmetic .not, .ifGoto target])

/-- The node of a statement. -/
def Statement.node : Statement → Node
  | letVariable .. | letElement .. => .letStatement
  | ifThen .. | ifElse .. => .ifStatement
  | whileDo .. => .whileStatement
  | doCall _ => .doStatement
  | returnNothing | returnValue _ => .returnStatement

mutual

/-- The events of a statement within its node. -/
def Statement.events (c : Context) (n : Nat) : Statement → List Event
  | .letVariable x e =>
    .consumed (.keyword .kwLet) :: .consumed (.identifier x) :: .consumed (.symbol .equals) ::
      (e.events c ++ [.consumed (.symbol .semicolon), .emitted (.store (c.slot x))])
  | .letElement x i e =>
    .consumed (.keyword .kwLet) :: .consumed (.identifier x) ::
      .consumed (.symbol .leftBracket) ::
        (i.events c ++ .consumed (.symbol .rightBracket) :: .emitted (.load (c.slot x)) ::
          .emitted (.arithmetic .add) :: .consumed (.symbol .equals) ::
            (e.events c ++ .consumed (.symbol .semicolon) ::
              emissions [.pop .temp 0, .pop .pointer 1, .push .temp 0, .pop .that 0]))
  | .ifThen e body =>
    .consumed (.keyword .kwIf) ::
      (conditionEvents (e.events c) (c.label "IF_ELSE" n) ++
        (blockEvents (body.events c (n + 1)) ++
          emissions [.goto (c.label "IF_END" n), .label (c.label "IF_ELSE" n),
            .label (c.label "IF_END" n)]))
  | .ifElse e body other =>
    .consumed (.keyword .kwIf) ::
      (conditionEvents (e.events c) (c.label "IF_ELSE" n) ++
        (blockEvents (body.events c (n + 1)) ++ .emitted (.goto (c.label "IF_END" n)) ::
          .emitted (.label (c.label "IF_ELSE" n)) :: .consumed (.keyword .kwElse) ::
            (blockEvents (other.events c (n + 1 + body.constructs)) ++
              [.emitted (.label (c.label "IF_END" n))])))
  | .whileDo e body =>
    .consumed (.keyword .kwWhile) :: .emitted (.label (c.label "WHILE_EXP" n)) ::
      (conditionEvents (e.events c) (c.label "WHILE_END" n) ++
        (blockEvents (body.events c (n + 1)) ++
          emissions [.goto (c.label "WHILE_EXP" n), .label (c.label "WHILE_END" n)]))
  | .doCall call =>
    .consumed (.keyword .kwDo) :: .consumed (.identifier call.head) ::
      (call.events c ++ [.consumed (.symbol .semicolon), .emitted (.pop .temp 0)])
  | .returnNothing =>
    [.consumed (.keyword .kwReturn), .emitted (.push .constant 0),
      .consumed (.symbol .semicolon), .emitted .ret]
  | .returnValue e =>
    .consumed (.keyword .kwReturn) ::
      (e.events c ++ [.consumed (.symbol .semicolon), .emitted .ret])

def Statements.events (c : Context) (n : Nat) : Statements → List Event
  | .nil => []
  | .cons s ss => nodeEvents s.node (s.events c n) ++ ss.events c (n + s.constructs)

end

/-! ## Declarations -/

namespace Names

/-- The events of names behind another one, all of one kind and type. -/
def moreEvents (kind : Kind) (type : String) (before : List Declaration) :
    List String → List Event
  | [] => []
  | name :: names =>
    let d : Declaration := ⟨kind, type, name⟩
    .consumed (.symbol .comma) :: .consumed (.identifier name) ::
      .declared (d.toVariable before) :: moreEvents kind type (before ++ [d]) names

def events (kind : Kind) (before : List Declaration) (names : Names) : List Event :=
  let d : Declaration := ⟨kind, names.type.text, names.first⟩
  .consumed names.type.terminal :: .consumed (.identifier names.first) ::
    .declared (d.toVariable before) :: moreEvents kind names.type.text (before ++ [d]) names.more

/-- The events of some declarations of locals. -/
def localEvents (before : List Declaration) : List Names → List Event
  | [] => []
  | names :: more =>
    nodeEvents .varDec
        (.consumed (.keyword .kwVar) ::
          (names.events .localVar before ++ [.consumed (.symbol .semicolon)])) ++
      localEvents (before ++ names.declarations .localVar) more

end Names

/-- The events of some declarations of statics and fields. -/
def ClassVarDec.events (before : List Declaration) : List ClassVarDec → List Event
  | [] => []
  | d :: ds =>
    nodeEvents .classVarDec
        (.consumed (.keyword d.kind.keyword) ::
          (d.names.events d.kind before ++ [.consumed (.symbol .semicolon)])) ++
      events (before ++ d.declarations) ds

namespace Parameter

/-- The events of parameters behind another one. -/
def moreEvents (before : List Declaration) : List Parameter → List Event
  | [] => []
  | p :: ps =>
    .consumed (.symbol .comma) :: .consumed p.type.terminal :: .consumed (.identifier p.name) ::
      .declared (p.declaration.toVariable before) :: moreEvents (before ++ [p.declaration]) ps

def events (before : List Declaration) : List Parameter → List Event
  | [] => []
  | p :: ps =>
    .consumed p.type.terminal :: .consumed (.identifier p.name) ::
      .declared (p.declaration.toVariable before) :: moreEvents (before ++ [p.declaration]) ps

end Parameter

/-! ## Classes -/

namespace SubroutineDec

/-- The declaration of the receiver of a method, which no terminal stands for. -/
def receiverEvents (className : String) (s : SubroutineDec) : List Event :=
  (s.receiver className).map fun d => .declared (d.toVariable [])

/-- `'{' varDec* statement* '}'`, with the `function` instruction between them. -/
def bodyEvents (d : ClassDec) (n : Nat) (s : SubroutineDec) : List Event :=
  let arguments := s.receiver d.name ++ s.parameters.map Parameter.declaration
  .consumed (.symbol .leftBrace) ::
    (Names.localEvents arguments s.locals ++
      .emitted (.function (d.name ++ "." ++ s.name) (countKind .localVar s.declarations)) ::
        (emissions (s.prologueCode d) ++
          (nodeEvents .statements (s.body.events (d.context s) n) ++
            [.consumed (.symbol .rightBrace)])))

def events (d : ClassDec) (n : Nat) (s : SubroutineDec) : List Event :=
  nodeEvents .subroutineDec
    (.consumed (.keyword s.kind.keyword) :: .consumed (TypeName.resultTerminal s.result) ::
      .consumed (.identifier s.name) ::
        .startedSubroutine s.kind (d.name ++ "." ++ s.name) ::
          (s.receiverEvents d.name ++ .consumed (.symbol .leftParen) ::
            (nodeEvents .parameterList (Parameter.events (s.receiver d.name) s.parameters) ++
              .consumed (.symbol .rightParen) :: nodeEvents .subroutineBody (s.bodyEvents d n))))

end SubroutineDec

namespace ClassDec

/-- The events of some subroutines, the first with constructs from `n` on. -/
def subroutineEvents (d : ClassDec) (n : Nat) : List SubroutineDec → List Event
  | [] => []
  | s :: ss => s.events d n ++ d.subroutineEvents (n + s.body.constructs) ss

/-- The events of a compilation of a class. -/
def events (d : ClassDec) : List Event :=
  nodeEvents .classDec
    (.consumed (.keyword .kwClass) :: .consumed (.identifier d.name) :: .startedClass d.name ::
      .consumed (.symbol .leftBrace) ::
        (ClassVarDec.events [] d.classVars ++
          (d.subroutineEvents 0 d.subroutines ++ [.consumed (.symbol .rightBrace)])))

end ClassDec

/-! ## The instructions of a trace -/

@[simp]
def Event.instruction? : Event → Option Instruction
  | emitted i => some i
  | opened _ | closed _ | consumed _ | declared _ | startedClass _ | startedSubroutine .. => none

/-- The instructions among some events. -/
def instructionsOf (events : List Event) : List Instruction :=
  events.filterMap Event.instruction?

@[simp]
theorem instructionsOf_nil : instructionsOf [] = [] := rfl

@[simp]
theorem instructionsOf_append (es fs : List Event) :
    instructionsOf (es ++ fs) = instructionsOf es ++ instructionsOf fs :=
  List.filterMap_append

@[simp]
theorem instructionsOf_cons (e : Event) (es : List Event) :
    instructionsOf (e :: es) = e.instruction?.toList ++ instructionsOf es := by
  cases e <;> rfl

@[simp]
theorem instructionsOf_emissions (code : List Instruction) :
    instructionsOf (emissions code) = code := by
  induction code with
  | nil => rfl
  | cons i code ih => simpa [emissions] using ih

@[simp]
theorem instructionsOf_nodeEvents (node : Node) (inner : List Event) :
    instructionsOf (nodeEvents node inner) = instructionsOf inner := by
  simp [nodeEvents]

@[simp]
theorem instructionsOf_argumentEvents (inner : List Event) (target : String) (count : Nat) :
    instructionsOf (argumentEvents inner target count) =
      instructionsOf inner ++ [.call target count] := by
  simp [argumentEvents]

@[simp]
theorem instructionsOf_blockEvents (inner : List Event) :
    instructionsOf (blockEvents inner) = instructionsOf inner := by
  simp [blockEvents]

@[simp]
theorem instructionsOf_conditionEvents (inner : List Event) (target : String) :
    instructionsOf (conditionEvents inner target) =
      instructionsOf inner ++ [.arithmetic .not, .ifGoto target] := by
  simp [conditionEvents]

mutual

theorem Expression.instructions_events (c : Context) (e : Expression) :
    instructionsOf (e.events c) = e.code c := by
  cases e with
  | of t ops =>
    simp [Expression.events, Expression.code, t.instructions_events c, ops.instructions_events c]

theorem Operations.instructions_events (c : Context) (ops : Operations) :
    instructionsOf (ops.events c) = ops.code c := by
  cases ops with
  | nil => rfl
  | cons o t ops =>
    simp [Operations.events, Operations.code, t.instructions_events c, ops.instructions_events c]

theorem Term.instructions_events (c : Context) (t : Term) :
    instructionsOf (t.events c) = t.code c := by
  cases t with
  | integer n => rfl
  | text s => simp [Term.events, Term.code]
  | word w => simp [Term.events, Term.code]
  | var x => rfl
  | element x e => simp [Term.events, Term.code, e.instructions_events c]
  | call call => simp [Term.events, Term.code, call.instructions_events c]
  | group e => simp [Term.events, Term.code, e.instructions_events c]
  | unary o t => simp [Term.events, Term.code, t.instructions_events c]

theorem Call.instructions_events (c : Context) (call : Call) :
    instructionsOf (call.events c) = call.code c := by
  cases call with
  | own m as => simp [Call.events, Call.code, as.instructions_events c]
  | dotted x m as => simp [Call.events, Call.code, as.instructions_events c]

theorem Arguments.instructions_events (c : Context) (as : Arguments) :
    instructionsOf (as.events c) = as.code c := by
  cases as with
  | nil => rfl
  | cons e as =>
    simp [Arguments.events, Arguments.code, e.instructions_events c,
      as.instructions_moreEvents c]

theorem Arguments.instructions_moreEvents (c : Context) (as : Arguments) :
    instructionsOf (as.moreEvents c) = as.code c := by
  cases as with
  | nil => rfl
  | cons e as =>
    simp [Arguments.moreEvents, Arguments.code, e.instructions_events c,
      as.instructions_moreEvents c]

end

mutual

theorem Statement.instructions_events (c : Context) (n : Nat) (s : Statement) :
    instructionsOf (s.events c n) = s.code c n := by
  cases s with
  | letVariable x e => simp [Statement.events, Statement.code, e.instructions_events c]
  | letElement x i e =>
    simp [Statement.events, Statement.code, i.instructions_events c, e.instructions_events c]
  | ifThen e body =>
    simp [Statement.events, Statement.code, e.instructions_events c, body.instructions_events c]
  | ifElse e body other =>
    simp [Statement.events, Statement.code, e.instructions_events c, body.instructions_events c,
      other.instructions_events c]
  | whileDo e body =>
    simp [Statement.events, Statement.code, e.instructions_events c, body.instructions_events c]
  | doCall call => simp [Statement.events, Statement.code, call.instructions_events c]
  | returnNothing => rfl
  | returnValue e => simp [Statement.events, Statement.code, e.instructions_events c]

theorem Statements.instructions_events (c : Context) (n : Nat) (ss : Statements) :
    instructionsOf (ss.events c n) = ss.code c n := by
  cases ss with
  | nil => rfl
  | cons s ss =>
    simp [Statements.events, Statements.code, s.instructions_events c,
      ss.instructions_events c]

end

/-! Declarations emit nothing. -/

theorem Names.instructions_moreEvents (kind : Kind) (type : String) (before : List Declaration)
    (names : List String) : instructionsOf (moreEvents kind type before names) = [] := by
  induction names generalizing before with
  | nil => rfl
  | cons name names ih => simp [moreEvents, ih]

theorem Names.instructions_events (kind : Kind) (before : List Declaration) (names : Names) :
    instructionsOf (names.events kind before) = [] := by
  simp [events, instructions_moreEvents]

theorem Names.instructions_localEvents (before : List Declaration) (ds : List Names) :
    instructionsOf (localEvents before ds) = [] := by
  induction ds generalizing before with
  | nil => rfl
  | cons d ds ih => simp [localEvents, instructions_events, ih]

theorem ClassVarDec.instructions_events (before : List Declaration) (ds : List ClassVarDec) :
    instructionsOf (events before ds) = [] := by
  induction ds generalizing before with
  | nil => rfl
  | cons d ds ih => simp [events, Names.instructions_events, ih]

theorem Parameter.instructions_moreEvents (before : List Declaration) (ps : List Parameter) :
    instructionsOf (moreEvents before ps) = [] := by
  induction ps generalizing before with
  | nil => rfl
  | cons p ps ih => simp [moreEvents, ih]

theorem Parameter.instructions_events (before : List Declaration) (ps : List Parameter) :
    instructionsOf (events before ps) = [] := by
  cases ps with
  | nil => rfl
  | cons p ps => simp [events, instructions_moreEvents]

theorem SubroutineDec.instructions_receiverEvents (className : String) (s : SubroutineDec) :
    instructionsOf (s.receiverEvents className) = [] := by
  unfold receiverEvents receiver
  split <;> rfl

theorem SubroutineDec.instructions_events (d : ClassDec) (n : Nat) (s : SubroutineDec) :
    instructionsOf (s.events d n) = s.code d n := by
  simp [events, bodyEvents, code, instructions_receiverEvents, Parameter.instructions_events,
    Names.instructions_localEvents, Statements.instructions_events]

theorem ClassDec.instructions_subroutineEvents (d : ClassDec) (n : Nat)
    (ss : List SubroutineDec) :
    instructionsOf (d.subroutineEvents n ss) = (d.blocksFrom n ss).flatten := by
  induction ss generalizing n with
  | nil => rfl
  | cons s ss ih => simp [subroutineEvents, blocksFrom, SubroutineDec.instructions_events, ih]

/-- The instructions that come out while a class is read are those of its whole tree. -/
theorem ClassDec.instructions_events (d : ClassDec) : instructionsOf d.events = d.code := by
  simp [events, code, blocks, ClassVarDec.instructions_events, instructions_subroutineEvents]

end JackToVm
