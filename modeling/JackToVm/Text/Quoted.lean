import JackToVm.Text.Printable

/-!
# Quoted text

How a character or a text is shown between quotes in a message:
* `\0`, `\t`, `\r`, `\n` and the backslash have two-character forms;
* the enclosing quote, and only that one, has a backslash in front;
* a character that is combining, ignorable or not printable is `\u` with its code point in braces,
  in hexadecimal digits of lower case without leading zeros;
* every other character stands for itself.
-/

namespace JackToVm

/-- The form of one character between two marks `quote`. -/
def escapeChar (quote c : Char) : List Char :=
  if c = '\x00' then ['\\', '0']
  else if c = '\t' then ['\\', 't']
  else if c = '\r' then ['\\', 'r']
  else if c = '\n' then ['\\', 'n']
  else if c = '\\' then ['\\', '\\']
  else if c = quote then ['\\', quote]
  else if isCombining c || isIgnorable c || !isPrintable c then
    ['\\', 'u', '{'] ++ Nat.toDigits 16 c.toNat ++ ['}']
  else [c]

/-- A character between single quotes. -/
def quoteChar (c : Char) : String :=
  String.ofList (['\''] ++ escapeChar '\'' c ++ ['\''])

/-- A text between double quotes. -/
def quoteText (s : String) : String :=
  String.ofList (['"'] ++ s.toList.flatMap (escapeChar '"') ++ ['"'])

example : (quoteChar '\'').toList = ['\'', '\\', '\'', '\''] ∧
    (quoteChar '"').toList = ['\'', '"', '\''] := by decide +kernel

end JackToVm
