import JackToVm.Compile
import JackToVm.Text.Quoted

/-!
# The log of a run

What a run reports of its progress, each line at a level and from a part of the program. A token
is scanned one step before the token in front of it is consumed, because a compilation looks one
terminal ahead; the log has the lines in that order.
-/

namespace JackToVm

/-! ## Lines -/

/-- The levels, from the most to the least important. -/
inductive Level
  | error | warn | info | debug | trace
deriving DecidableEq, Repr

namespace Level

def name : Level → String
  | error => "ERROR"
  | warn => "WARN"
  | info => "INFO"
  | debug => "DEBUG"
  | trace => "TRACE"

/-- How much must be asked for to see the level. -/
def rank : Level → Nat
  | error => 0
  | warn => 0
  | info => 1
  | debug => 2
  | trace => 3

end Level

/-- The parts of the program that report. -/
inductive Origin
  | program | lexer | parser | symbolTable
deriving DecidableEq, Repr

def Origin.name : Origin → String
  | program => "jackc"
  | lexer => "jackc::lexer"
  | parser => "jackc::parser"
  | symbolTable => "jackc::symbol_table"

structure LogLine where
  level : Level
  origin : Origin
  message : String
deriving DecidableEq, Repr

/-- The line with the name of its level filled up to five characters. -/
def LogLine.text (l : LogLine) : String :=
  l.level.name ++ String.ofList (List.replicate (5 - l.level.name.length) ' ') ++
    " [" ++ l.origin.name ++ "] " ++ l.message

/-! ## Tokens and events -/

/-- A word with its first letter as a capital. -/
def capitalized (word : String) : String :=
  match word.toList with
  | [] => ""
  | c :: cs => String.ofList (c.toUpper :: cs)

/-- A terminal as the log shows it, with its kind. -/
def Terminal.described : Terminal → String
  | keyword word => "Keyword(" ++ capitalized word.text ++ ")"
  | symbol s => "Symbol(" ++ quoteChar s.char ++ ")"
  | identifier name => "Identifier(" ++ quoteText name ++ ")"
  | integer value => "IntConst(" ++ toString value ++ ")"
  | string text => "StringConst(" ++ quoteText text ++ ")"

def SubroutineKind.name : SubroutineKind → String
  | constructor => "Constructor"
  | function => "Function"
  | method => "Method"

/-- The line for a token that was scanned. -/
def Token.scanned (t : Token) : LogLine :=
  ⟨.trace, .lexer, "token " ++ t.terminal.described ++ " at line " ++ toString t.line⟩

/-- The line for an event, if it has one. -/
def Event.logLine? : Event → Option LogLine
  | emitted i => some ⟨.trace, .parser, "emit " ++ i.text⟩
  | declared v =>
    some ⟨.trace, .symbolTable,
      "define " ++ v.kind.text ++ " " ++ v.type ++ " " ++ v.name ++ " -> " ++ toString v.index⟩
  | startedClass name => some ⟨.debug, .parser, "compiling class " ++ name⟩
  | startedSubroutine kind name =>
    some ⟨.debug, .parser, "compiling " ++ kind.name ++ " " ++ name⟩
  | opened _ => none
  | closed _ => none
  | consumed _ => none

/-- The lines of a compilation from some point on; `tokens` are those that are not scanned yet. -/
def logFrom (tokens : List Token) (events : List Event) : List LogLine :=
  match events with
  | [] => []
  | .consumed _ :: events =>
    match tokens with
    | [] => logFrom [] events
    | t :: tokens => t.scanned :: logFrom tokens events
  | event :: events =>
    match event.logLine? with
    | none => logFrom tokens events
    | some line => line :: logFrom tokens events

/-- The lines of a compilation: the first token is scanned before anything else. -/
def compilationLog (tokens : List Token) (events : List Event) : List LogLine :=
  match tokens with
  | [] => logFrom [] events
  | t :: tokens => t.scanned :: logFrom tokens events

end JackToVm
