import JackToVm.Instruction

/-!
# Events of a compilation

Compiling a class is seen from outside as a sequence of events: nodes of the parse tree open and
close, terminals are consumed, variables are declared, instructions come out. A sink receives the
events as they happen. It takes every event but one: it may refuse an instruction, and then the
compilation ends.
-/

namespace JackToVm

/-! ## Nodes of the parse tree -/

/-- The productions that are nodes of the parse tree. Types, blocks and calls are none. -/
inductive Node
  | classDec | classVarDec | subroutineDec | parameterList | subroutineBody | varDec
  | statements | letStatement | ifStatement | whileStatement | doStatement | returnStatement
  | expression | term | expressionList
deriving DecidableEq, Repr

namespace Node

def all : List Node :=
  [classDec, classVarDec, subroutineDec, parameterList, subroutineBody, varDec, statements,
    letStatement, ifStatement, whileStatement, doStatement, returnStatement, expression, term,
    expressionList]

def name : Node → String
  | classDec => "class"
  | classVarDec => "classVarDec"
  | subroutineDec => "subroutineDec"
  | parameterList => "parameterList"
  | subroutineBody => "subroutineBody"
  | varDec => "varDec"
  | statements => "statements"
  | letStatement => "letStatement"
  | ifStatement => "ifStatement"
  | whileStatement => "whileStatement"
  | doStatement => "doStatement"
  | returnStatement => "returnStatement"
  | expression => "expression"
  | term => "term"
  | expressionList => "expressionList"

end Node

/-! ## Events -/

inductive SubroutineKind
  | constructor | function | method
deriving DecidableEq, Repr

inductive Event
  | opened (node : Node)
  | closed (node : Node)
  | consumed (terminal : Terminal)
  | emitted (instruction : Instruction)
  | declared (v : Variable)
  | startedClass (name : String)
  | startedSubroutine (kind : SubroutineKind) (name : String)
deriving DecidableEq, Repr

/-! ## Sinks -/

/-- A receiver of events with states in `σ`. An instruction that is refused leaves a state too,
and the reason for the refusal. -/
structure Sink (σ : Type) where
  report : σ → Event → σ
  emit : σ → Instruction → σ × Option String

namespace Sink

/-- The state after some events, none of them an instruction. -/
def reportAll {σ : Type} (sink : Sink σ) (s : σ) (events : List Event) : σ :=
  events.foldl sink.report s

/-- Keeps all events, in their order. -/
def log : Sink (Array Event) where
  report events e := events.push e
  emit events i := (events.push (.emitted i), none)

/-- Keeps all events and takes at most `limit` instructions; the next one is refused for the
given reason. -/
def logUpTo (limit : Nat) (reason : String) : Sink (Array Event × Nat) where
  report s e := (s.1.push e, s.2)
  emit s i := if s.2 < limit then ((s.1.push (.emitted i), s.2 + 1), none) else (s, some reason)

/-- Keeps the instructions alone. -/
def code : Sink (Array Instruction) where
  report code _ := code
  emit code i := (code.push i, none)

end Sink

end JackToVm
