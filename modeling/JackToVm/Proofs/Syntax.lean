import JackToVm.Event

/-!
# Syntax trees

The Jack grammar as trees, and the terminals that a tree is written with. A list of terminals is a
sentence of the grammar if some tree is written with it.

    class          ::= 'class' name '{' classVarDec* subroutineDec* '}'
    classVarDec    ::= ('static' | 'field') type name (',' name)* ';'
    type           ::= 'int' | 'char' | 'boolean' | name
    subroutineDec  ::= ('constructor' | 'function' | 'method') ('void' | type) name
                       '(' parameterList ')' subroutineBody
    parameterList  ::= (type name (',' type name)*)?
    subroutineBody ::= '{' varDec* statement* '}'
    varDec         ::= 'var' type name (',' name)* ';'
    statement      ::= let | if | while | do | return
    let            ::= 'let' name ('[' expression ']')? '=' expression ';'
    if             ::= 'if' '(' expression ')' '{' statement* '}' ('else' '{' statement* '}')?
    while          ::= 'while' '(' expression ')' '{' statement* '}'
    do             ::= 'do' call ';'
    return         ::= 'return' expression? ';'
    expression     ::= term (op term)*
    term           ::= integer | string | 'true' | 'false' | 'null' | 'this'
                     | name | name '[' expression ']' | call
                     | '(' expression ')' | ('-' | '~') term
    call           ::= name '(' expressionList ')' | name '.' name '(' expressionList ')'
    expressionList ::= (expression (',' expression)*)?
-/

namespace JackToVm

/-! ## Operators and words -/

inductive BinaryOperator
  | plus | minus | times | divide | and | or | less | greater | equals
deriving DecidableEq, Repr

def BinaryOperator.symbol : BinaryOperator → Symbol
  | plus => .plus
  | minus => .minus
  | times => .star
  | divide => .slash
  | and => .ampersand
  | or => .bar
  | less => .less
  | greater => .greater
  | equals => .equals

inductive UnaryOperator
  | negate | complement
deriving DecidableEq, Repr

def UnaryOperator.symbol : UnaryOperator → Symbol
  | negate => .minus
  | complement => .tilde

/-- The keywords that are terms. -/
inductive ConstantWord
  | trueWord | falseWord | nullWord | thisWord
deriving DecidableEq, Repr

def ConstantWord.keyword : ConstantWord → Keyword
  | trueWord => .kwTrue
  | falseWord => .kwFalse
  | nullWord => .kwNull
  | thisWord => .kwThis

/-! ## Expressions -/

mutual

/-- A term and the operations on it, from left to right. -/
inductive Expression
  | of (first : Term) (more : Operations)

inductive Operations
  | nil
  | cons (operator : BinaryOperator) (operand : Term) (more : Operations)

inductive Term
  | integer (value : Nat)
  | text (text : String)
  | word (word : ConstantWord)
  | var (name : String)
  | element (name : String) (index : Expression)
  | call (call : Call)
  | group (inner : Expression)
  | unary (operator : UnaryOperator) (operand : Term)

/-- A call of a method of the class itself, or a call with a dot. -/
inductive Call
  | own (name : String) (arguments : Arguments)
  | dotted (receiver member : String) (arguments : Arguments)

inductive Arguments
  | nil
  | cons (first : Expression) (more : Arguments)

end

mutual

def Expression.terminals : Expression → List Terminal
  | .of t ops => t.terminals ++ ops.terminals

def Operations.terminals : Operations → List Terminal
  | .nil => []
  | .cons o t ops => .symbol o.symbol :: (t.terminals ++ ops.terminals)

def Term.terminals : Term → List Terminal
  | .integer n => [.integer n]
  | .text s => [.string s]
  | .word w => [.keyword w.keyword]
  | .var x => [.identifier x]
  | .element x e =>
    .identifier x :: .symbol .leftBracket :: (e.terminals ++ [.symbol .rightBracket])
  | .call c => c.terminals
  | .group e => .symbol .leftParen :: (e.terminals ++ [.symbol .rightParen])
  | .unary o t => .symbol o.symbol :: t.terminals

def Call.terminals : Call → List Terminal
  | .own m as =>
    .identifier m :: .symbol .leftParen :: (as.terminals ++ [.symbol .rightParen])
  | .dotted x m as =>
    .identifier x :: .symbol .dot :: .identifier m :: .symbol .leftParen ::
      (as.terminals ++ [.symbol .rightParen])

def Arguments.terminals : Arguments → List Terminal
  | .nil => []
  | .cons e as => e.terminals ++ as.moreTerminals

/-- The arguments behind another one. -/
def Arguments.moreTerminals : Arguments → List Terminal
  | .nil => []
  | .cons e as => .symbol .comma :: (e.terminals ++ as.moreTerminals)

end

namespace Call

/-- The name that a call starts with. -/
def head : Call → String
  | own m _ => m
  | dotted x _ _ => x

/-- What stands behind that name. -/
def moreTerminals : Call → List Terminal
  | own _ as => .symbol .leftParen :: (as.terminals ++ [.symbol .rightParen])
  | dotted _ m as =>
    .symbol .dot :: .identifier m :: .symbol .leftParen ::
      (as.terminals ++ [.symbol .rightParen])

theorem terminals_eq_cons (call : Call) :
    call.terminals = .identifier call.head :: call.moreTerminals := by
  cases call <;> rfl

end Call

/-! ## Statements -/

mutual

inductive Statement
  | letVariable (name : String) (value : Expression)
  | letElement (name : String) (index value : Expression)
  | ifThen (condition : Expression) (body : Statements)
  | ifElse (condition : Expression) (body other : Statements)
  | whileDo (condition : Expression) (body : Statements)
  | doCall (call : Call)
  | returnNothing
  | returnValue (value : Expression)

inductive Statements
  | nil
  | cons (first : Statement) (more : Statements)

end

mutual

def Statement.terminals : Statement → List Terminal
  | .letVariable x e =>
    .keyword .kwLet :: .identifier x :: .symbol .equals :: (e.terminals ++ [.symbol .semicolon])
  | .letElement x i e =>
    .keyword .kwLet :: .identifier x :: .symbol .leftBracket ::
      (i.terminals ++ .symbol .rightBracket :: .symbol .equals ::
        (e.terminals ++ [.symbol .semicolon]))
  | .ifThen e body =>
    .keyword .kwIf :: .symbol .leftParen ::
      (e.terminals ++ .symbol .rightParen :: .symbol .leftBrace ::
        (body.terminals ++ [.symbol .rightBrace]))
  | .ifElse e body other =>
    .keyword .kwIf :: .symbol .leftParen ::
      (e.terminals ++ .symbol .rightParen :: .symbol .leftBrace ::
        (body.terminals ++ .symbol .rightBrace :: .keyword .kwElse :: .symbol .leftBrace ::
          (other.terminals ++ [.symbol .rightBrace])))
  | .whileDo e body =>
    .keyword .kwWhile :: .symbol .leftParen ::
      (e.terminals ++ .symbol .rightParen :: .symbol .leftBrace ::
        (body.terminals ++ [.symbol .rightBrace]))
  | .doCall c => .keyword .kwDo :: (c.terminals ++ [.symbol .semicolon])
  | .returnNothing => [.keyword .kwReturn, .symbol .semicolon]
  | .returnValue e => .keyword .kwReturn :: (e.terminals ++ [.symbol .semicolon])

def Statements.terminals : Statements → List Terminal
  | .nil => []
  | .cons s ss => s.terminals ++ ss.terminals

end

/-! ## Declarations -/

inductive TypeName
  | int | char | boolean
  | named (name : String)
deriving DecidableEq, Repr

namespace TypeName

def terminal : TypeName → Terminal
  | int => .keyword .kwInt
  | char => .keyword .kwChar
  | boolean => .keyword .kwBoolean
  | named name => .identifier name

def text (t : TypeName) : String := t.terminal.text

/-- The type of a result; there may be none. -/
def resultTerminal : Option TypeName → Terminal
  | none => .keyword .kwVoid
  | some t => t.terminal

end TypeName

/-- `type name (',' name)*` -/
structure Names where
  type : TypeName
  first : String
  more : List String
deriving DecidableEq, Repr

namespace Names

/-- Names behind another one. -/
def moreTerminals (names : List String) : List Terminal :=
  names.flatMap fun name => [.symbol .comma, .identifier name]

def terminals (d : Names) : List Terminal :=
  d.type.terminal :: .identifier d.first :: moreTerminals d.more

end Names

/-- A declaration of statics or of fields. -/
structure ClassVarDec where
  kind : Kind
  ofClass : kind.belongsToClass = true
  names : Names
deriving DecidableEq, Repr

def Kind.keyword : Kind → Keyword
  | .static => .kwStatic
  | .field => .kwField
  | .argument | .localVar => .kwVar

def ClassVarDec.terminals (d : ClassVarDec) : List Terminal :=
  .keyword d.kind.keyword :: (d.names.terminals ++ [.symbol .semicolon])

/-- A declaration of locals. -/
def Names.localTerminals (d : Names) : List Terminal :=
  .keyword .kwVar :: (d.terminals ++ [.symbol .semicolon])

structure Parameter where
  type : TypeName
  name : String
deriving DecidableEq, Repr

namespace Parameter

/-- Parameters behind another one. -/
def moreTerminals (ps : List Parameter) : List Terminal :=
  ps.flatMap fun p => [.symbol .comma, p.type.terminal, .identifier p.name]

def listTerminals : List Parameter → List Terminal
  | [] => []
  | p :: ps => p.type.terminal :: .identifier p.name :: moreTerminals ps

end Parameter

/-- A subroutine; `result` is its type, if it is not `void`. -/
structure SubroutineDec where
  kind : SubroutineKind
  result : Option TypeName
  name : String
  parameters : List Parameter
  locals : List Names
  body : Statements

def SubroutineKind.keyword : SubroutineKind → Keyword
  | constructor => .kwConstructor
  | function => .kwFunction
  | method => .kwMethod

namespace SubroutineDec

/-- What stands behind the name of a subroutine. -/
def moreTerminals (s : SubroutineDec) : List Terminal :=
  .symbol .leftParen ::
    (Parameter.listTerminals s.parameters ++ .symbol .rightParen :: .symbol .leftBrace ::
      (s.locals.flatMap Names.localTerminals ++ (s.body.terminals ++ [.symbol .rightBrace])))

def terminals (s : SubroutineDec) : List Terminal :=
  .keyword s.kind.keyword :: TypeName.resultTerminal s.result :: .identifier s.name ::
    s.moreTerminals

end SubroutineDec

structure ClassDec where
  name : String
  classVars : List ClassVarDec
  subroutines : List SubroutineDec

def ClassDec.terminals (d : ClassDec) : List Terminal :=
  .keyword .kwClass :: .identifier d.name :: .symbol .leftBrace ::
    (d.classVars.flatMap ClassVarDec.terminals ++
      (d.subroutines.flatMap SubroutineDec.terminals ++ [.symbol .rightBrace]))

end JackToVm
