import JackToVm.Machine

/-!
# Compiling a class

From a source to the events, the instructions or the text of its class. A failure of the machine
names a site; here the site becomes the token that stands there and its line.
-/

namespace JackToVm

/-! ## Any sink -/

/-- Compiles a class given as terminals, which end with the text or before an error. -/
def compileTerminals {σ : Type} (sink : Sink σ) (terminals : List Terminal)
    (ending : Option LexCause) (s : σ) : σ × Option Failure :=
  match terminals, ending with
  | [], some cause => (s, some ⟨.lexical cause, 0⟩)
  | _, _ => (Machine.start terminals).run sink ending s

/-- The line of a failure that has no token: that of the lexical error, or the last of the
text. -/
def Lexer.Reading.lastLine (r : Lexer.Reading) : Nat :=
  match r.failure with
  | some e => e.line
  | none => r.finish.line

/-- A failure as it is reported for a text. -/
def Lexer.Reading.locate (r : Lexer.Reading) (f : Failure) : CompileError :=
  match r.tokens[f.site]? with
  | some t => ⟨f.fault, some t, t.line⟩
  | none => ⟨f.fault, none, r.lastLine⟩

/-- Compiles a class into a sink. -/
def compileInto {σ : Type} (sink : Sink σ) (source : String) (s : σ) : σ × Option CompileError :=
  let r := (Lexer.ofString source).read
  let (s, failure) := compileTerminals sink (r.tokens.map (·.terminal)) (r.failure.map (·.cause)) s
  (s, failure.map r.locate)

/-! ## Events, instructions and text -/

/-- The events of a compilation to its end or its failure. -/
def events (source : String) : Array Event × Option CompileError :=
  compileInto .log source #[]

/-- The instructions of a class. -/
def instructions (source : String) : Except CompileError (Array Instruction) :=
  match compileInto .code source #[] with
  | (code, none) => .ok code
  | (_, some e) => .error e

/-- The text of a class for the machine. There is none unless the whole class compiles. -/
def compile (source : String) : Except CompileError String :=
  (instructions source).map fun code => vmText code.toList

end JackToVm
