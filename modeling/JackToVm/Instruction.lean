import JackToVm.SymbolTable

/-!
# Instructions of the stack machine

The machine has a stack, eight memory segments, nine stack commands, jumps to labels and
subroutine calls. An instruction has one text, and a program is written with one instruction on a
line (`vmText`).
-/

namespace JackToVm

/-! ## Segments -/

inductive Segment
  | constant | argument | localVar | static | this | that | pointer | temp
deriving DecidableEq, Repr

def Segment.text : Segment → String
  | constant => "constant"
  | argument => "argument"
  | localVar => "local"
  | static => "static"
  | this => "this"
  | that => "that"
  | pointer => "pointer"
  | temp => "temp"

/-- The segment that the variables of a kind live in. A field is found through `this`, which has
to be bound to an object. -/
def Kind.segment : Kind → Segment
  | static => .static
  | field => .this
  | argument => .argument
  | localVar => .localVar

/-- A cell of a segment. -/
structure Slot where
  segment : Segment
  index : Nat
deriving DecidableEq, Repr

/-- The cell that holds a variable. -/
def Variable.slot (v : Variable) : Slot := ⟨v.kind.segment, v.index⟩

/-! ## Instructions -/

/-- The commands that work on the stack alone. -/
inductive Operation
  | add | sub | neg | eq | gt | lt | and | or | not
deriving DecidableEq, Repr

def Operation.text : Operation → String
  | add => "add"
  | sub => "sub"
  | neg => "neg"
  | eq => "eq"
  | gt => "gt"
  | lt => "lt"
  | and => "and"
  | or => "or"
  | not => "not"

inductive Instruction
  | push (segment : Segment) (index : Nat)
  | pop (segment : Segment) (index : Nat)
  | arithmetic (command : Operation)
  | label (name : String)
  | goto (target : String)
  | ifGoto (target : String)
  | call (name : String) (arguments : Nat)
  | function (name : String) (locals : Nat)
  | ret
deriving DecidableEq, Repr

namespace Instruction

def text : Instruction → String
  | push segment index => "push " ++ segment.text ++ " " ++ toString index
  | pop segment index => "pop " ++ segment.text ++ " " ++ toString index
  | arithmetic command => command.text
  | label name => "label " ++ name
  | goto target => "goto " ++ target
  | ifGoto target => "if-goto " ++ target
  | call name arguments => "call " ++ name ++ " " ++ toString arguments
  | function name locals => "function " ++ name ++ " " ++ toString locals
  | ret => "return"

/-- The text with its line feed. -/
def line (i : Instruction) : String := i.text ++ "\n"

/-- The value of a cell goes onto the stack. -/
def load (s : Slot) : Instruction := push s.segment s.index

/-- The value on the stack goes into a cell. -/
def store (s : Slot) : Instruction := pop s.segment s.index

end Instruction

/-- A program as text, one instruction on a line. -/
def vmText (code : List Instruction) : String :=
  String.join (code.map Instruction.line)

end JackToVm
