import JackToVm.Diagnostic
import JackToVm.Event

/-!
# Goals

What a compilation has yet to do is a stack of goals. A goal is a part of the grammar that is
still to be read, with what is to be known of what was read before it; or it is a single act, such
as an instruction to emit.

The first goal is done by looking at one terminal, the first that is not consumed. It is met by
one of the moves of `Action`: it may consume that terminal or leave it, and it may put goals in
its own place.

Every goal has a weight and every terminal a budget: the goals that replace one weigh less, or a
terminal is consumed whose budget pays for them. So a compilation ends.
-/

namespace JackToVm

/-! ## What a compilation remembers -/

structure Env where
  symbols : SymbolTable
  className : String
  subroutineKind : SubroutineKind
  labels : Nat
deriving DecidableEq, Repr

namespace Env

def start : Env := ⟨.empty, "", .function, 0⟩

/-- The name of a member of the class. -/
def memberName (env : Env) (name : String) : String :=
  env.className ++ "." ++ name

/-- A label: the class, what the label is for, and the number of the construct. -/
def label (env : Env) (purpose : String) (number : Nat) : String :=
  env.className ++ "." ++ purpose ++ toString number

/-- The cell of the variable that a name stands for. In a `function` no object is bound, so there
a name cannot stand for a field. -/
def slotOf (env : Env) (name : String) : Except SymbolError Slot :=
  match env.symbols.get name with
  | .error e => .error e
  | .ok v =>
    if v.kind = .field ∧ env.subroutineKind = .function then .error (.fieldWithoutReceiver name)
    else .ok v.slot

end Env

/-! ## Goals and moves -/

/-- What a type is read for: the names of variables of a kind, one parameter, or the result of a
subroutine. -/
inductive TypeUse
  | names (kind : Kind)
  | parameter
  | result
deriving DecidableEq, Repr

/-- The parts of a compilation. `site` is the index of the token to blame if the goal fails for a
name or a constant that was read before. -/
inductive Goal
  -- acts
  | report (event : Event)
  | emit (instruction : Instruction)
  -- terminals
  | symbol (symbol : Symbol)
  | endOfText
  -- declarations
  | classDec
  | classWord
  | className
  | classVarDecs
  | type (use : TypeUse)
  | newName (kind : Kind) (type : String)
  | declare (kind : Kind) (type name : String) (site : Nat)
  | moreNames (kind : Kind) (type : String)
  | subroutineDecs
  | returnType
  | subroutineName
  | subroutine (name : String) (site : Nat)
  | parameterList
  | moreParameters
  | subroutineBody (name : String)
  | varDecs
  | prologue (name : String)
  -- statements
  | statements
  | moreStatements
  | letTarget
  | assign (name : String) (site : Nat)
  | assignTo (target : Slot)
  | elsePart
  | returnValue
  | callee
  -- expressions
  | expression
  | operators
  | term
  | operand
  | stringConstant (text : String) (site : Nat)
  | characters (text : List Char) (site : Nat)
  | named (name : String) (site : Nat)
  | load (name : String) (site : Nat)
  | element (name : String) (site : Nat)
  | call (name : String) (site : Nat)
  | member (receiver : String) (site : Nat)
  | dispatch (receiver : String) (site : Nat) (member : String)
  | arguments (target : String) (count : Nat)
  | expressionList (target : String) (count : Nat)
  | moreArguments (target : String) (count : Nat)
deriving DecidableEq, Repr

/-- How a goal is met, given the terminal ahead:
* `reject`: that terminal cannot stand here;
* `refuse`: something read before is at fault;
* `emit`: an instruction comes out;
* `expand`: events happen and goals replace this one, the terminal stays;
* `accept`: events happen, the terminal is consumed and goals replace this one. -/
inductive Action
  | reject (what : Expectation)
  | refuse (fault : Fault) (site : Nat)
  | emit (instruction : Instruction)
  | expand (events : List Event) (goals : List Goal) (env : Env)
  | accept (events : List Event) (goals : List Goal) (env : Env)

/-- Accepts an identifier. -/
def Action.ofName (ahead : Option Terminal) (use : String → Action) : Action :=
  match ahead with
  | some (.identifier name) => use name
  | _ => .reject .identifier

/-- Goes on with the cell of a variable, or blames the site of its name. -/
def Action.ofSlot (env : Env) (name : String) (site : Nat) (use : Slot → Action) : Action :=
  match env.slotOf name with
  | .ok slot => use slot
  | .error e => .refuse (.symbol e) site

/-! ## Weights -/

/-- More than all goals weigh that can replace a goal without a terminal being consumed. -/
def Goal.weight : Goal → Nat
  | classDec => 8
  | returnType => 2
  | subroutine .. => 22
  | parameterList => 4
  | subroutineBody _ => 13
  | prologue _ => 5
  | statements => 3
  | assign .. => 11
  | assignTo _ => 10
  | returnValue => 7
  | expression => 6
  | term => 3
  | stringConstant text _ => 3 * text.length + 4
  | characters text _ => 3 * text.length + 1
  | named .. => 17
  | load .. => 2
  | element .. => 12
  | call .. => 15
  | dispatch .. => 15
  | arguments .. => 13
  | expressionList .. => 11
  | moreArguments .. => 4
  | _ => 1

/-- The weight of a stack of goals. -/
def Goal.weights (goals : List Goal) : Nat :=
  goals.foldr (fun g total => g.weight + total) 0

/-- What consuming a terminal pays for. -/
def Terminal.budget : Terminal → Nat
  | string text => 3 * text.length + 32
  | _ => 32

end JackToVm
