import JackToVm.Text.Blank
import JackToVm.Text.Letter
import JackToVm.Text.Quoted
import JackToVm.Token

/-!
# The lexer

A source is read as items, each a token or an error, with trivia before, between and after them.

Trivia are blanks, comments from `//` to the end of the line and comments from `/*` to the first
`*/`; a comment that is not closed reaches to the end of the text. The first character of an item
decides what it is:
* one of the nineteen symbols stands alone;
* a double quote opens a string constant, which ends at the next double quote;
* a digit starts an integer constant, the longest run of digits;
* a letter or an underscore starts a word, the longest run of letters, numbers and underscores;
  a word is a keyword if it spells one, else an identifier;
* any other character is an error of its own.

What an item covers stays consumed, also when the item is an error, so reading can go on after it.

Results.
1. An item covers at least one character and nothing else is lost (`Munch.covered_append_rest`,
   `Munch.covered_ne_nil`).
2. Skipping trivia never goes back, and an item moves on (`skipTrivia_length_le`,
   `next_length_lt`), so a lexer reaches its end.
-/

namespace JackToVm

/-! ## Items -/

/-- Why no token stands at a place. -/
inductive LexCause
  | unexpectedEnd
  | integerOutOfRange (digits : String)
  | unexpectedChar (c : Char)
deriving DecidableEq, Repr

/-- The largest constant: the largest positive number of a word of the machine. -/
def maxConstant : Nat := 32767

/-- What a message says of the cause. -/
def LexCause.message : LexCause → String
  | .unexpectedEnd => "unexpected EOF"
  | .integerOutOfRange digits =>
    "integer constant " ++ digits ++ " is out of range (max " ++ toString maxConstant ++ ")"
  | .unexpectedChar c => "expected start of token, found " ++ quoteChar c

/-- A place where no token could be read: the span of what was consumed in the attempt, and the
line on which it starts. -/
structure LexError where
  cause : LexCause
  span : Span
  line : Nat
deriving DecidableEq, Repr

def LexError.message (e : LexError) : String :=
  "LexerError at line " ++ toString e.line ++ ": " ++ e.cause.message

/-- What reading yields: a token or an error. -/
abbrev Item := Except LexError Token

/-! ## One item -/

/-- An item cut off the front of a text: the characters that it covers, what is left, and the
terminal that it spells. -/
structure Munch where
  covered : List Char
  rest : List Char
  outcome : Except LexCause Terminal

/-- The string constant whose opening quote stands before `cs`. -/
def munchString (cs : List Char) : Munch :=
  let text := cs.takeWhile (· ≠ '"')
  match cs.dropWhile (· ≠ '"') with
  | [] => ⟨'"' :: text, [], .error .unexpectedEnd⟩
  | quote :: rest => ⟨'"' :: text ++ [quote], rest, .ok (.string (String.ofList text))⟩

/-- The integer constant with the digits `c` and those at the front of `cs`. -/
def munchInteger (c : Char) (cs : List Char) : Munch :=
  let digits := c :: cs.takeWhile isDigit
  let value := Nat.ofDigitChars 10 digits 0
  ⟨digits, cs.dropWhile isDigit,
    if value ≤ maxConstant then .ok (.integer value)
    else .error (.integerOutOfRange (String.ofList digits))⟩

/-- The terminal that a word stands for. -/
def Terminal.ofWord (word : String) : Terminal :=
  match Keyword.ofText? word with
  | some k => .keyword k
  | none => .identifier word

/-- The word that starts with `c` and goes on at the front of `cs`. -/
def munchWord (c : Char) (cs : List Char) : Munch :=
  let word := c :: cs.takeWhile continuesName
  ⟨word, cs.dropWhile continuesName, .ok (.ofWord (String.ofList word))⟩

/-- The item at the front of the text `c :: cs`. -/
def munch (c : Char) (cs : List Char) : Munch :=
  match Symbol.ofChar? c with
  | some s => ⟨[c], cs, .ok (.symbol s)⟩
  | none =>
    if c = '"' then munchString cs
    else if isDigit c then munchInteger c cs
    else if startsName c then munchWord c cs
    else ⟨[c], cs, .error (.unexpectedChar c)⟩

/-! ## Places in a source -/

/-- A place: the number of bytes before it and its line, counted from 1. -/
structure Position where
  offset : Nat
  line : Nat
deriving DecidableEq, Repr

namespace Position

def start : Position := ⟨0, 1⟩

/-- The place behind one character; only a line feed starts a new line. -/
def after (p : Position) (c : Char) : Position :=
  ⟨p.offset + c.utf8Size, if c = '\n' then p.line + 1 else p.line⟩

/-- The place behind some characters. -/
def afterAll (p : Position) (cs : List Char) : Position :=
  cs.foldl after p

end Position

/-! ## The lexer and its calls -/

/-- What is left of a source, and where that starts. -/
structure Lexer where
  rest : List Char
  position : Position

/-- What a stretch of trivia is made of at some point. -/
inductive Trivia
  | blank | lineComment | blockComment
deriving DecidableEq, Repr

/-- The lexer behind the trivia at the front of a text. -/
def skipTrivia : Trivia → Position → List Char → Lexer
  | .blank, p, '/' :: '/' :: cs => skipTrivia .lineComment ((p.after '/').after '/') cs
  | .blank, p, '/' :: '*' :: cs => skipTrivia .blockComment ((p.after '/').after '*') cs
  | .blank, p, c :: cs => if isBlank c then skipTrivia .blank (p.after c) cs else ⟨c :: cs, p⟩
  | .lineComment, p, c :: cs =>
    skipTrivia (if c = '\n' then .blank else .lineComment) (p.after c) cs
  | .blockComment, p, '*' :: '/' :: cs => skipTrivia .blank ((p.after '*').after '/') cs
  | .blockComment, p, c :: cs => skipTrivia .blockComment (p.after c) cs
  | _, p, [] => ⟨[], p⟩

namespace Lexer

def ofString (source : String) : Lexer := ⟨source.toList, .start⟩

/-- The line on which the lexer stands. -/
def line (l : Lexer) : Nat := l.position.line

/-- The lexer behind the trivia that it stands before. -/
def skip (l : Lexer) : Lexer := skipTrivia .blank l.position l.rest

/-- Whether an item is left; what is before it is skipped. -/
def more (l : Lexer) : Bool × Lexer :=
  (!l.skip.rest.isEmpty, l.skip)

/-- The item that an outcome makes of the characters from one place to another. -/
def itemAt (start stop : Position) (covered : List Char) : Except LexCause Terminal → Item
  | .ok terminal => .ok ⟨terminal, String.ofList covered, ⟨start.offset, stop.offset⟩, start.line⟩
  | .error cause => .error ⟨cause, ⟨start.offset, stop.offset⟩, start.line⟩

/-- Reads the item that starts with `c`, at the place `p`. -/
def scan (p : Position) (c : Char) (cs : List Char) : Item × Lexer :=
  let m := munch c cs
  let stop := p.afterAll m.covered
  (itemAt p stop m.covered m.outcome, ⟨m.rest, stop⟩)

/-- The next item, or nothing at the end of the text. -/
def next (l : Lexer) : Option Item × Lexer :=
  match l.skip with
  | ⟨[], p⟩ => (none, ⟨[], p⟩)
  | ⟨c :: cs, p⟩ => let (item, l) := scan p c cs; (some item, l)

/-- The next item; at the end of the text it is an error with an empty span. -/
def take (l : Lexer) : Item × Lexer :=
  match l.next with
  | (some item, l) => (item, l)
  | (none, l) => (.error ⟨.unexpectedEnd, ⟨l.position.offset, l.position.offset⟩, l.line⟩, l)

end Lexer

/-! ## Progress -/

theorem munchString_covered_append_rest (cs : List Char) :
    (munchString cs).covered ++ (munchString cs).rest = '"' :: cs := by
  have whole := List.takeWhile_append_dropWhile (p := (· ≠ '"')) (l := cs)
  unfold munchString
  split
  · next unclosed => rw [unclosed] at whole; simpa using whole
  · next quote rest closed => rw [closed] at whole; simpa using whole

theorem Munch.covered_append_rest (c : Char) (cs : List Char) :
    (munch c cs).covered ++ (munch c cs).rest = c :: cs := by
  unfold munch
  split
  · rfl
  · split
    · next quoted => rw [munchString_covered_append_rest, quoted]
    · split
      · simp [munchInteger]
      · split <;> simp [munchWord]

theorem Munch.covered_ne_nil (c : Char) (cs : List Char) : (munch c cs).covered ≠ [] := by
  unfold munch munchString munchInteger munchWord
  repeat' split
  all_goals simp

theorem munch_rest_length_lt (c : Char) (cs : List Char) :
    (munch c cs).rest.length < (c :: cs).length := by
  have whole := congrArg List.length (Munch.covered_append_rest c cs)
  have covered := List.length_pos_iff.2 (Munch.covered_ne_nil c cs)
  simp only [List.length_append] at whole
  omega

theorem skipTrivia_length_le (t : Trivia) (p : Position) (cs : List Char) :
    (skipTrivia t p cs).rest.length ≤ cs.length := by
  fun_induction skipTrivia t p cs <;> simp <;> omega

namespace Lexer

theorem next_length_lt {l m : Lexer} {item : Item} (h : l.next = (some item, m)) :
    m.rest.length < l.rest.length := by
  have skipped := skipTrivia_length_le .blank l.position l.rest
  unfold next at h
  split at h
  · simp at h
  · next c cs p here =>
    obtain ⟨-, rfl⟩ := Prod.mk.inj h
    have moved := munch_rest_length_lt c cs
    have eq : (skipTrivia .blank l.position l.rest).rest = c :: cs := by
      simpa [skip] using congrArg Lexer.rest here
    rw [eq] at skipped
    exact Nat.lt_of_lt_of_le moved skipped

/-! ## All items -/

/-- The items to the end of the text, put behind those in `before`, newest first; and the lexer at
the end. -/
def itemsFrom (before : List Item) (l : Lexer) : List Item × Lexer :=
  match _h : l.next with
  | (none, l) => (before.reverse, l)
  | (some item, l) => itemsFrom (item :: before) l
termination_by l.rest.length
decreasing_by exact next_length_lt _h

/-- All items to the end of the text, and the lexer there. -/
def items (l : Lexer) : List Item × Lexer :=
  itemsFrom [] l

/-- What a text yields up to its first error: the tokens before it, the error, and the lexer behind
it or at the end. -/
structure Reading where
  tokens : List Token
  failure : Option LexError
  finish : Lexer

/-- Reads on to the first error or the end, with the tokens in `before` read already, newest
first. -/
def readFrom (before : List Token) (l : Lexer) : Reading :=
  match _h : l.next with
  | (none, l) => ⟨before.reverse, none, l⟩
  | (some (.error e), l) => ⟨before.reverse, some e, l⟩
  | (some (.ok t), l) => readFrom (t :: before) l
termination_by l.rest.length
decreasing_by exact next_length_lt _h

/-- Reads on to the first error or the end. -/
def read (l : Lexer) : Reading :=
  readFrom [] l

/-- All tokens to the end of the text, or the first error; then the lexer stands behind it. -/
def tokens (l : Lexer) : Except LexError (List Token) × Lexer :=
  let r := l.read
  match r.failure with
  | none => (.ok r.tokens, r.finish)
  | some e => (.error e, r.finish)

end Lexer

end JackToVm
