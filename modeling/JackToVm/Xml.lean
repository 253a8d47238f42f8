import JackToVm.Compile

/-!
# XML of tokens and parse trees

A terminal is an element with its text between single spaces; a string constant is without its
quotes. The characters that XML reserves are written as entities. A document of tokens has one
terminal on a line; a parse tree has one tag or terminal on a line, indented by two spaces for
each node that is open.
-/

namespace JackToVm

/-! ## Elements -/

def TerminalKind.tag : TerminalKind → String
  | keyword => "keyword"
  | symbol => "symbol"
  | identifier => "identifier"
  | integer => "integerConstant"
  | string => "stringConstant"

/-- A character as it is written in XML. -/
def escapeXmlChar (c : Char) : List Char :=
  if c = '<' then "&lt;".toList
  else if c = '>' then "&gt;".toList
  else if c = '&' then "&amp;".toList
  else if c = '"' then "&quot;".toList
  else [c]

/-- A text as it is written in XML. -/
def escapeXml (text : String) : String :=
  String.ofList (text.toList.flatMap escapeXmlChar)

def openTag (name : String) : String := "<" ++ name ++ ">"

def closeTag (name : String) : String := "</" ++ name ++ ">"

/-- The element of a kind with some text. -/
def xmlElement (kind : TerminalKind) (text : String) : String :=
  openTag kind.tag ++ " " ++ escapeXml text ++ " " ++ closeTag kind.tag

/-- What an element shows of a terminal. -/
def Terminal.content : Terminal → String
  | string text => text
  | t => t.text

def Terminal.element (t : Terminal) : String :=
  xmlElement t.kind t.content

/-! ## Documents of tokens -/

def tokensDocument (terminals : List Terminal) : String :=
  "<tokens>\n" ++ String.join (terminals.map fun t => t.element ++ "\n") ++ "</tokens>\n"

/-- The document of the tokens of a source, unless one of them cannot be read. -/
def tokenXml (source : String) : Except LexError String :=
  (Lexer.ofString source).tokens.1.map fun tokens => tokensDocument (tokens.map (·.terminal))

/-! ## Parse trees -/

/-- A tree that is being written, with the number of open nodes. -/
structure TreeText where
  text : String
  depth : Nat
deriving DecidableEq, Repr

namespace TreeText

def empty : TreeText := ⟨"", 0⟩

/-- A line of the tree, indented for its depth. -/
def indented (depth : Nat) (content : String) : String :=
  String.ofList (List.replicate (2 * depth) ' ') ++ content ++ "\n"

def openNode (t : TreeText) (name : String) : TreeText :=
  ⟨t.text ++ indented t.depth (openTag name), t.depth + 1⟩

/-- Closes a node; the depth stays 0 if no node is open. -/
def closeNode (t : TreeText) (name : String) : TreeText :=
  ⟨t.text ++ indented (t.depth - 1) (closeTag name), t.depth - 1⟩

def addElement (t : TreeText) (kind : TerminalKind) (text : String) : TreeText :=
  ⟨t.text ++ indented t.depth (xmlElement kind text), t.depth⟩

def addTerminal (t : TreeText) (terminal : Terminal) : TreeText :=
  t.addElement terminal.kind terminal.content

/-- The tree after an event; only nodes and terminals belong to it. -/
def report (t : TreeText) : Event → TreeText
  | .opened node => t.openNode node.name
  | .closed node => t.closeNode node.name
  | .consumed terminal => t.addTerminal terminal
  | _ => t

end TreeText

/-- The sink that writes the parse tree and drops the instructions. -/
def Sink.xmlTree : Sink TreeText where
  report := TreeText.report
  emit t _ := (t, none)

/-- The parse tree of a class, which has to compile. -/
def treeXml (source : String) : Except CompileError String :=
  match compileInto .xmlTree source .empty with
  | (t, none) => .ok t.text
  | (_, some e) => .error e

end JackToVm
