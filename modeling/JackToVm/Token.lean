/-!
# Tokens

The terminals of the Jack grammar and the places where they stand in a source.

A terminal is one of five kinds: a keyword, a symbol, an identifier, an integer constant or a
string constant. A token is a terminal with its spelling, its span in bytes and its line.

Results.
1. A keyword or a symbol is found by its spelling (`Keyword.ofText?_text`, `Symbol.ofChar?_char`),
   and only by it (`Keyword.ofText?_eq_some_iff`, `Symbol.ofChar?_eq_some_iff`).
-/

namespace JackToVm

/-! ## Keywords -/

/-- The reserved words. -/
inductive Keyword
  | kwClass | kwConstructor | kwFunction | kwMethod | kwField | kwStatic | kwVar
  | kwInt | kwChar | kwBoolean | kwVoid | kwTrue | kwFalse | kwNull | kwThis
  | kwLet | kwDo | kwIf | kwElse | kwWhile | kwReturn
deriving DecidableEq, Repr

namespace Keyword

def all : List Keyword :=
  [kwClass, kwConstructor, kwFunction, kwMethod, kwField, kwStatic, kwVar, kwInt, kwChar,
    kwBoolean, kwVoid, kwTrue, kwFalse, kwNull, kwThis, kwLet, kwDo, kwIf, kwElse, kwWhile,
    kwReturn]

/-- The word as it is written. -/
def text : Keyword → String
  | kwClass => "class"
  | kwConstructor => "constructor"
  | kwFunction => "function"
  | kwMethod => "method"
  | kwField => "field"
  | kwStatic => "static"
  | kwVar => "var"
  | kwInt => "int"
  | kwChar => "char"
  | kwBoolean => "boolean"
  | kwVoid => "void"
  | kwTrue => "true"
  | kwFalse => "false"
  | kwNull => "null"
  | kwThis => "this"
  | kwLet => "let"
  | kwDo => "do"
  | kwIf => "if"
  | kwElse => "else"
  | kwWhile => "while"
  | kwReturn => "return"

/-- The keyword that a word spells, if it spells one. -/
def ofText? (word : String) : Option Keyword :=
  all.find? (·.text = word)

theorem mem_all (k : Keyword) : k ∈ all := by
  cases k <;> decide

theorem ofText?_text (k : Keyword) : ofText? k.text = some k := by
  cases k <;> decide

theorem text_injective {k l : Keyword} (h : k.text = l.text) : k = l := by
  have found := ofText?_text k
  rw [h, ofText?_text] at found
  exact (Option.some.inj found).symm

theorem ofText?_eq_some_iff {word : String} {k : Keyword} :
    ofText? word = some k ↔ k.text = word := by
  constructor
  · intro found
    simpa using List.find?_some found
  · rintro rfl
    exact ofText?_text k

end Keyword

/-! ## Symbols -/

/-- The nineteen symbols. -/
inductive Symbol
  | leftBrace | rightBrace | leftParen | rightParen | leftBracket | rightBracket
  | dot | comma | semicolon | plus | minus | star | slash
  | ampersand | bar | less | greater | equals | tilde
deriving DecidableEq, Repr

namespace Symbol

def all : List Symbol :=
  [leftBrace, rightBrace, leftParen, rightParen, leftBracket, rightBracket, dot, comma, semicolon,
    plus, minus, star, slash, ampersand, bar, less, greater, equals, tilde]

/-- The character that the symbol is written with. -/
def char : Symbol → Char
  | leftBrace => '{'
  | rightBrace => '}'
  | leftParen => '('
  | rightParen => ')'
  | leftBracket => '['
  | rightBracket => ']'
  | dot => '.'
  | comma => ','
  | semicolon => ';'
  | plus => '+'
  | minus => '-'
  | star => '*'
  | slash => '/'
  | ampersand => '&'
  | bar => '|'
  | less => '<'
  | greater => '>'
  | equals => '='
  | tilde => '~'

/-- The symbol that a character stands for, if it stands for one. -/
def ofChar? (c : Char) : Option Symbol :=
  all.find? (·.char = c)

theorem mem_all (s : Symbol) : s ∈ all := by
  cases s <;> decide

theorem ofChar?_char (s : Symbol) : ofChar? s.char = some s := by
  cases s <;> decide

theorem ofChar?_eq_some_iff {c : Char} {s : Symbol} : ofChar? c = some s ↔ s.char = c := by
  constructor
  · intro found
    simpa using List.find?_some found
  · rintro rfl
    exact ofChar?_char s

end Symbol

/-! ## Terminals and tokens -/

/-- The kinds of terminals. -/
inductive TerminalKind
  | keyword | symbol | identifier | integer | string
deriving DecidableEq, Repr

/-- A terminal of the grammar. The text of a string constant is without its quotes. -/
inductive Terminal
  | keyword (word : Keyword)
  | symbol (symbol : Symbol)
  | identifier (name : String)
  | integer (value : Nat)
  | string (text : String)
deriving DecidableEq, Repr

namespace Terminal

def kind : Terminal → TerminalKind
  | keyword _ => .keyword
  | symbol _ => .symbol
  | identifier _ => .identifier
  | integer _ => .integer
  | string _ => .string

/-- The terminal as it is written in a source; a string constant has its quotes. -/
def text : Terminal → String
  | keyword word => word.text
  | symbol s => s.char.toString
  | identifier name => name
  | integer value => toString value
  | string text => "\"" ++ text ++ "\""

end Terminal

/-- A stretch of a source: the offsets in bytes of its first byte and of the byte after it. -/
structure Span where
  start : Nat
  stop : Nat
deriving DecidableEq, Repr

/-- A terminal where it stands: its spelling, its span and the line on which it starts. -/
structure Token where
  terminal : Terminal
  lexeme : String
  span : Span
  line : Nat
deriving DecidableEq, Repr

end JackToVm
