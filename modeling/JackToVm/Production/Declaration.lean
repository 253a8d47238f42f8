import JackToVm.Goal

/-!
# Declarations

The class, its variables and its subroutines.

    class          ::= 'class' name '{' classVarDec* subroutineDec* '}'
    classVarDec    ::= ('static' | 'field') type name (',' name)* ';'
    type           ::= 'int' | 'char' | 'boolean' | name
    subroutineDec  ::= ('constructor' | 'function' | 'method') ('void' | type) name
                       '(' parameterList ')' subroutineBody
    parameterList  ::= (type name (',' type name)*)?
    subroutineBody ::= '{' varDec* statements '}'
    varDec         ::= 'var' type name (',' name)* ';'

A subroutine starts with a `function` instruction that has the number of its locals. A constructor
then allocates an object for the fields of the class and binds it; a method binds its receiver,
which is its first argument.
-/

namespace JackToVm

/-! ## Terminals -/

/-- One symbol, and no other terminal. -/
def Action.ofSymbol (env : Env) (s : Symbol) (ahead : Option Terminal) : Action :=
  if ahead = some (.symbol s) then .accept [] [] env else .reject (.symbol s)

/-- The end of the text. -/
def Action.endOfText (env : Env) (ahead : Option Terminal) : Action :=
  match ahead with
  | none => .expand [] [] env
  | some _ => .reject .endOfText

/-! ## The class -/

/-- `class ::= 'class' name '{' classVarDec* subroutineDec* '}'` -/
def Action.classDec (env : Env) : Action :=
  .expand [.opened .classDec]
    [.classWord, .className, .symbol .leftBrace, .classVarDecs, .subroutineDecs,
      .symbol .rightBrace, .report (.closed .classDec)] env

def Action.classWord (env : Env) (ahead : Option Terminal) : Action :=
  if ahead = some (.keyword .kwClass) then .accept [] [] env else .reject .classWord

/-- The name of the class is remembered for labels and subroutine names. -/
def Action.className (env : Env) (ahead : Option Terminal) : Action :=
  .ofName ahead fun name =>
    .accept [] [.report (.startedClass name)] { env with className := name }

/-- `classVarDec ::= ('static' | 'field') type name (',' name)* ';'`, any number of times. -/
def Action.classVarDecs (env : Env) (ahead : Option Terminal) : Action :=
  match ahead with
  | some (.keyword .kwStatic) => declaration .static
  | some (.keyword .kwField) => declaration .field
  | _ => .expand [] [] env
where
  declaration (kind : Kind) : Action :=
    .accept [.opened .classVarDec]
      [.type (.names kind), .symbol .semicolon, .report (.closed .classVarDec),
        .classVarDecs] env

/-! ## Types and names -/

/-- What follows a type, by what the type is for. -/
def TypeUse.goals (type : String) : TypeUse → List Goal
  | names kind => [.newName kind type, .moreNames kind type]
  | parameter => [.newName .argument type]
  | result => []

/-- `type ::= 'int' | 'char' | 'boolean' | name` -/
def Action.type (env : Env) (use : TypeUse) (ahead : Option Terminal) : Action :=
  match ahead with
  | some (.keyword .kwInt) => .accept [] (use.goals Keyword.kwInt.text) env
  | some (.keyword .kwChar) => .accept [] (use.goals Keyword.kwChar.text) env
  | some (.keyword .kwBoolean) => .accept [] (use.goals Keyword.kwBoolean.text) env
  | some (.identifier name) => .accept [] (use.goals name) env
  | _ => .reject .type

/-- The name of a new variable. -/
def Action.newName (env : Env) (kind : Kind) (type : String) (site : Nat)
    (ahead : Option Terminal) : Action :=
  .ofName ahead fun name => .accept [] [.declare kind type name site] env

/-- Enters a variable into the symbol table. -/
def Action.declare (env : Env) (kind : Kind) (type name : String) (site : Nat) : Action :=
  match env.symbols.declare name type kind with
  | .ok (v, symbols) => .expand [.declared v] [] { env with symbols }
  | .error e => .refuse (.symbol e) site

/-- `(',' name)*` -/
def Action.moreNames (env : Env) (kind : Kind) (type : String) (ahead : Option Terminal) :
    Action :=
  match ahead with
  | some (.symbol .comma) => .accept [] [.newName kind type, .moreNames kind type] env
  | _ => .expand [] [] env

/-! ## Subroutines -/

/-- `subroutineDec ::= ('constructor' | 'function' | 'method') ('void' | type) name …`, any number
of times. -/
def Action.subroutineDecs (env : Env) (ahead : Option Terminal) : Action :=
  match ahead with
  | some (.keyword .kwConstructor) => declaration .constructor
  | some (.keyword .kwFunction) => declaration .function
  | some (.keyword .kwMethod) => declaration .method
  | _ => .expand [] [] env
where
  declaration (kind : SubroutineKind) : Action :=
    .accept [.opened .subroutineDec]
      [.returnType, .subroutineName, .report (.closed .subroutineDec), .subroutineDecs]
      { env with subroutineKind := kind }

/-- `'void' | type` -/
def Action.returnType (env : Env) (ahead : Option Terminal) : Action :=
  if ahead = some (.keyword .kwVoid) then .accept [] [] env
  else .expand [] [.type .result] env

def Action.subroutineName (env : Env) (site : Nat) (ahead : Option Terminal) : Action :=
  .ofName ahead fun name => .accept [] [.subroutine name site] env

/-- `… '(' parameterList ')' subroutineBody`. The arguments and locals of the subroutine before
are forgotten; the receiver of a method becomes argument 0, under a name that no identifier
has. -/
def Action.subroutine (env : Env) (name : String) (site : Nat) : Action :=
  .expand [.startedSubroutine env.subroutineKind (env.memberName name)]
    (receiver ++
      [.symbol .leftParen, .parameterList, .symbol .rightParen, .subroutineBody name])
    { env with symbols := env.symbols.enterSubroutine }
where
  receiver : List Goal :=
    if env.subroutineKind = .method then
      [.declare .argument env.className Keyword.kwThis.text site]
    else []

/-- `parameterList ::= (type name (',' type name)*)?` -/
def Action.parameterList (env : Env) (ahead : Option Terminal) : Action :=
  .expand [.opened .parameterList]
    (if ahead = some (.symbol .rightParen) then [.report (.closed .parameterList)]
    else [.type .parameter, .moreParameters, .report (.closed .parameterList)]) env

/-- `(',' type name)*` -/
def Action.moreParameters (env : Env) (ahead : Option Terminal) : Action :=
  match ahead with
  | some (.symbol .comma) => .accept [] [.type .parameter, .moreParameters] env
  | _ => .expand [] [] env

/-- `subroutineBody ::= '{' varDec* statements '}'` -/
def Action.subroutineBody (env : Env) (name : String) : Action :=
  .expand [.opened .subroutineBody]
    [.symbol .leftBrace, .varDecs, .prologue name, .statements, .symbol .rightBrace,
      .report (.closed .subroutineBody)] env

/-- `varDec ::= 'var' type name (',' name)* ';'`, any number of times. -/
def Action.varDecs (env : Env) (ahead : Option Terminal) : Action :=
  if ahead = some (.keyword .kwVar) then
    .accept [.opened .varDec]
      [.type (.names .localVar), .symbol .semicolon, .report (.closed .varDec), .varDecs] env
  else .expand [] [] env

/-- The instructions that bind the object a subroutine works on. -/
def SubroutineKind.binding (fields : Nat) : SubroutineKind → List Instruction
  | constructor => [.push .constant fields, .call "Memory.alloc" 1, .pop .pointer 0]
  | method => [.push .argument 0, .pop .pointer 0]
  | function => []

/-- What a subroutine does before its first statement. -/
def Action.prologue (env : Env) (name : String) : Action :=
  .expand []
    ((Instruction.function (env.memberName name) (env.symbols.count .localVar) ::
      env.subroutineKind.binding (env.symbols.count .field)).map .emit) env

end JackToVm
