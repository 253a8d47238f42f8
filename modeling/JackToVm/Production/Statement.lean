import JackToVm.Goal

/-!
# Statements

    statements ::= (let | if | while | do | return)*
    let        ::= 'let' name ('[' expression ']')? '=' expression ';'
    if         ::= 'if' '(' expression ')' '{' statements '}' ('else' '{' statements '}')?
    while      ::= 'while' '(' expression ')' '{' statements '}'
    do         ::= 'do' call ';'
    return     ::= 'return' expression? ';'

A statement leaves the stack as it finds it. The constructs that jump are numbered over the class
in the order of their first words, and the labels of a construct carry its number.
-/

namespace JackToVm

/-! ## The five statements -/

/-- `'(' expression ')'` and a jump if the value is false. -/
def Goal.condition (target : String) : List Goal :=
  [.symbol .leftParen, .expression, .symbol .rightParen, .emit (.arithmetic .not),
    .emit (.ifGoto target)]

/-- `'{' statements '}'` -/
def Goal.block : List Goal :=
  [.symbol .leftBrace, .statements, .symbol .rightBrace]

/-- An `if` jumps over its first block to the second, and from the end of the first to the end. -/
def Goal.ifStatement (elseLabel endLabel : String) : List Goal :=
  condition elseLabel ++ block ++
    [.emit (.goto endLabel), .emit (.label elseLabel), .elsePart, .emit (.label endLabel)]

/-- A `while` tests its condition at its head and jumps back there from its end. -/
def Goal.whileStatement (headLabel endLabel : String) : List Goal :=
  [.emit (.label headLabel)] ++ condition endLabel ++ block ++
    [.emit (.goto headLabel), .emit (.label endLabel)]

/-- A `do` drops the value that every call leaves. -/
def Goal.doStatement : List Goal :=
  [.callee, .symbol .semicolon, .emit (.pop .temp 0)]

def Goal.returnStatement : List Goal :=
  [.returnValue, .symbol .semicolon, .emit .ret]

/-- `statements ::= (let | if | while | do | return)*` -/
def Action.statements (env : Env) : Action :=
  .expand [.opened .statements] [.moreStatements, .report (.closed .statements)] env

/-- The next statement, told by its first word, or the end of the statements. -/
def Action.moreStatements (env : Env) (ahead : Option Terminal) : Action :=
  match ahead with
  | some (.keyword .kwLet) => statement .letStatement [.letTarget] env
  | some (.keyword .kwIf) =>
    statement .ifStatement
      (Goal.ifStatement (env.label "IF_ELSE" env.labels) (env.label "IF_END" env.labels))
      { env with labels := env.labels + 1 }
  | some (.keyword .kwWhile) =>
    statement .whileStatement
      (Goal.whileStatement (env.label "WHILE_EXP" env.labels) (env.label "WHILE_END" env.labels))
      { env with labels := env.labels + 1 }
  | some (.keyword .kwDo) => statement .doStatement Goal.doStatement env
  | some (.keyword .kwReturn) => statement .returnStatement Goal.returnStatement env
  | _ => .expand [] [] env
where
  statement (node : Node) (goals : List Goal) (env : Env) : Action :=
    .accept [.opened node] (goals ++ [.report (.closed node), .moreStatements]) env

/-! ## Parts of statements -/

/-- The name that a `let` assigns to. -/
def Action.letTarget (env : Env) (site : Nat) (ahead : Option Terminal) : Action :=
  .ofName ahead fun name => .accept [] [.assign name site] env

def Action.assign (env : Env) (name : String) (site : Nat) : Action :=
  .ofSlot env name site fun slot => .expand [] [.assignTo slot] env

/-- An element of an array is assigned to: its address waits on the stack while the value is
computed, which may bind `that` to other arrays. -/
def Goal.assignElement (base : Slot) : List Goal :=
  [.expression, .symbol .rightBracket, .emit (.load base), .emit (.arithmetic .add),
    .symbol .equals, .expression, .symbol .semicolon,
    .emit (.pop .temp 0), .emit (.pop .pointer 1), .emit (.push .temp 0), .emit (.pop .that 0)]

/-- `('[' expression ']')? '=' expression ';'` -/
def Action.assignTo (env : Env) (target : Slot) (ahead : Option Terminal) : Action :=
  match ahead with
  | some (.symbol .leftBracket) => .accept [] (Goal.assignElement target) env
  | _ =>
    .expand [] [.symbol .equals, .expression, .symbol .semicolon, .emit (.store target)] env

/-- `('else' '{' statements '}')?` -/
def Action.elsePart (env : Env) (ahead : Option Terminal) : Action :=
  if ahead = some (.keyword .kwElse) then .accept [] Goal.block env else .expand [] [] env

/-- `expression?`; a `return` without one returns 0. -/
def Action.returnValue (env : Env) (ahead : Option Terminal) : Action :=
  if ahead = some (.symbol .semicolon) then .expand [] [.emit (.push .constant 0)] env
  else .expand [] [.expression] env

/-- The first name of the call in a `do`. -/
def Action.callee (env : Env) (site : Nat) (ahead : Option Terminal) : Action :=
  .ofName ahead fun name => .accept [] [.call name site] env

end JackToVm
