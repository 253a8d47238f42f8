import JackToVm.Lexer
import JackToVm.SymbolTable

/-!
# Why a class does not compile

A compilation fails at a site, which is the index of a token, or the number of all tokens for the
end of the text.
-/

namespace JackToVm

/-- What should stand at a place. -/
inductive Expectation
  | classWord | identifier | type | term | symbol (symbol : Symbol) | endOfText | token
deriving DecidableEq, Repr

def Expectation.text : Expectation → String
  | classWord => "class"
  | identifier => "<identifier>"
  | type => "<type>"
  | term => "<term>"
  | symbol s => s.char.toString
  | endOfText => "<eof>"
  | token => "<token>"

/-- What is wrong:
* the token cannot stand here in any class;
* the text has no token here;
* a name is used against the rules of declarations;
* a string constant needs a number that no word holds;
* an instruction was refused. -/
inductive Fault
  | expected (what : Expectation)
  | lexical (cause : LexCause)
  | symbol (error : SymbolError)
  | constantOutOfRange (value : Nat)
  | emission (reason : String)
deriving DecidableEq, Repr

/-- A fault and the site where it is reported. -/
structure Failure where
  fault : Fault
  site : Nat
deriving DecidableEq, Repr

/-- A failure as it is reported, with the token at its site; there is none at the end of the text
and at a lexical error. -/
structure CompileError where
  fault : Fault
  token : Option Token
  line : Nat
deriving DecidableEq, Repr

/-- What a message says of a fault at a token. -/
def Fault.message (found : Option Token) : Fault → String
  | expected what =>
    "expected `" ++ what.text ++ "`, got " ++
      match found with
      | some t => "`" ++ t.lexeme ++ "`"
      | none => "<eof>"
  | lexical cause => cause.message
  | symbol error => error.message
  | constantOutOfRange value => "constant " ++ toString value ++ " does not fit in a VM word"
  | emission reason => "failed to emit instruction: " ++ reason

def CompileError.message (e : CompileError) : String :=
  "ParseError at line " ++ toString e.line ++ ": " ++ e.fault.message e.token

end JackToVm
