import JackToVm.Goal

/-!
# Expressions

    expression     ::= term (op term)*
    op             ::= '+' | '-' | '*' | '/' | '&' | '|' | '<' | '>' | '='
    term           ::= integer | string | 'true' | 'false' | 'null' | 'this'
                     | name | name '[' expression ']' | call
                     | '(' expression ')' | ('-' | '~') term
    call           ::= name '(' expressionList ')' | name '.' name '(' expressionList ')'
    expressionList ::= (expression (',' expression)*)?

An expression leaves its value on the stack. All binary operators have one precedence and
associate to the left.
-/

namespace JackToVm

/-! ## Operators -/

/-- What a symbol does as a binary operator. Products and quotients are calls. -/
def Symbol.binary? : Symbol → Option Instruction
  | plus => some (.arithmetic .add)
  | minus => some (.arithmetic .sub)
  | star => some (.call "Math.multiply" 2)
  | slash => some (.call "Math.divide" 2)
  | ampersand => some (.arithmetic .and)
  | bar => some (.arithmetic .or)
  | less => some (.arithmetic .lt)
  | greater => some (.arithmetic .gt)
  | equals => some (.arithmetic .eq)
  | _ => none

/-- `expression ::= term (op term)*` -/
def Action.expression (env : Env) : Action :=
  .expand [.opened .expression] [.term, .operators, .report (.closed .expression)] env

/-- `(op term)*`. An operator comes out behind its second operand. -/
def Action.operators (env : Env) (ahead : Option Terminal) : Action :=
  match ahead with
  | some (.symbol s) =>
    match s.binary? with
    | some operation => .accept [] [.term, .emit operation, .operators] env
    | none => .expand [] [] env
  | _ => .expand [] [] env

/-! ## Terms -/

def Action.term (env : Env) : Action :=
  .expand [.opened .term] [.operand, .report (.closed .term)] env

/-- A term, told by its first terminal. True is a word of ones. -/
def Action.operand (env : Env) (site : Nat) (ahead : Option Terminal) : Action :=
  match ahead with
  | some (.integer value) => .accept [] [.emit (.push .constant value)] env
  | some (.string text) => .accept [] [.stringConstant text site] env
  | some (.keyword .kwTrue) =>
    .accept [] [.emit (.push .constant 0), .emit (.arithmetic .not)] env
  | some (.keyword .kwFalse) => .accept [] [.emit (.push .constant 0)] env
  | some (.keyword .kwNull) => .accept [] [.emit (.push .constant 0)] env
  | some (.keyword .kwThis) => .accept [] [.emit (.push .pointer 0)] env
  | some (.symbol .leftParen) => .accept [] [.expression, .symbol .rightParen] env
  | some (.symbol .minus) => .accept [] [.term, .emit (.arithmetic .neg)] env
  | some (.symbol .tilde) => .accept [] [.term, .emit (.arithmetic .not)] env
  | some (.identifier name) => .accept [] [.named name site] env
  | _ => .reject .term

/-- A string is made when the program runs: with its length, then character by character. -/
def Action.stringConstant (env : Env) (text : String) (site : Nat) : Action :=
  if text.length ≤ maxConstant then
    .expand []
      [.emit (.push .constant text.length), .emit (.call "String.new" 1),
        .characters text.toList site] env
  else .refuse (.constantOutOfRange text.length) site

def Action.characters (env : Env) (text : List Char) (site : Nat) : Action :=
  match text with
  | [] => .expand [] [] env
  | c :: text =>
    if c.toNat ≤ maxConstant then
      .expand []
        [.emit (.push .constant c.toNat), .emit (.call "String.appendChar" 2),
          .characters text site] env
    else .refuse (.constantOutOfRange c.toNat) site

/-! ## Terms that start with a name -/

/-- What a name means, told by the terminal behind it. -/
def Action.named (env : Env) (name : String) (site : Nat) (ahead : Option Terminal) : Action :=
  match ahead with
  | some (.symbol .leftBracket) => .accept [] [.element name site] env
  | some (.symbol .leftParen) => .expand [] [.call name site] env
  | some (.symbol .dot) => .expand [] [.call name site] env
  | _ => .expand [] [.load name site] env

/-- A variable alone. -/
def Action.load (env : Env) (name : String) (site : Nat) : Action :=
  .ofSlot env name site fun slot => .expand [] [.emit (.load slot)] env

/-- `… expression ']'`, an element of an array: `that` is bound to its address. -/
def Action.element (env : Env) (name : String) (site : Nat) : Action :=
  .ofSlot env name site fun base =>
    .expand []
      [.expression, .symbol .rightBracket, .emit (.load base), .emit (.arithmetic .add),
        .emit (.pop .pointer 1), .emit (.push .that 0)] env

/-! ## Calls -/

/-- A call behind its first name. Without a dot it calls a method of the class on the object that
is bound. -/
def Action.call (env : Env) (name : String) (site : Nat) (ahead : Option Terminal) : Action :=
  match ahead with
  | some (.symbol .dot) => .accept [] [.member name site] env
  | _ => .expand [] [.emit (.push .pointer 0), .arguments (env.memberName name) 1] env

/-- The name behind the dot. -/
def Action.member (env : Env) (receiver : String) (site : Nat) (ahead : Option Terminal) :
    Action :=
  .ofName ahead fun name => .accept [] [.dispatch receiver site name] env

/-- With a variable before the dot, a method of its type is called on its object; with any other
name, a subroutine of the class of that name. -/
def Action.dispatch (env : Env) (receiver : String) (site : Nat) (member : String) : Action :=
  match env.symbols.find? receiver with
  | some v =>
    .ofSlot env receiver site fun slot =>
      .expand [] [.emit (.load slot), .arguments (v.type ++ "." ++ member) 1] env
  | none => .expand [] [.arguments (receiver ++ "." ++ member) 0] env

/-- `'(' expressionList ')'` of a call that has `count` arguments already. -/
def Action.arguments (env : Env) (target : String) (count : Nat) : Action :=
  .expand [] [.symbol .leftParen, .expressionList target count] env

/-- The end of a list of expressions and of the call that it belongs to. -/
def Goal.endOfCall (target : String) (count : Nat) : List Goal :=
  [.report (.closed .expressionList), .symbol .rightParen, .emit (.call target count)]

/-- `expressionList ::= (expression (',' expression)*)?` -/
def Action.expressionList (env : Env) (target : String) (count : Nat)
    (ahead : Option Terminal) : Action :=
  .expand [.opened .expressionList]
    (if ahead = some (.symbol .rightParen) then Goal.endOfCall target count
    else [.expression, .moreArguments target (count + 1)]) env

/-- `(',' expression)*` -/
def Action.moreArguments (env : Env) (target : String) (count : Nat)
    (ahead : Option Terminal) : Action :=
  match ahead with
  | some (.symbol .comma) => .accept [] [.expression, .moreArguments target (count + 1)] env
  | _ => .expand [] (Goal.endOfCall target count) env

end JackToVm
