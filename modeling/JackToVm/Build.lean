import JackToVm.FileTree
import JackToVm.Log
import JackToVm.Xml

/-!
# Sources and outputs

A path names the sources of a run: itself, or every file with the extension `jack` that is
directly in it, unless the path of that file is too long. Of a source three outputs can be made:
its code, the document of its tokens and its parse tree. An output stands beside its source and is
written only when all of it is known.
-/

namespace JackToVm

/-! ## Sources -/

/-- Why a path names no sources. -/
inductive PathError
  | missing (path : String)
  | notSource (path : String)
  | noSources (path : String)
deriving DecidableEq, Repr

def PathError.message : PathError → String
  | missing path => "input file or directory does not exist: " ++ path
  | notSource path => "input file must have a .jack extension: " ++ path
  | noSources path => "no .jack files found in directory: " ++ path

def isSourceName (path : String) : Bool :=
  Path.hasExtension "jack" path

/-- The sources that a path names; those of a folder are sorted by name. -/
def sources (t : FileTree) (path : String) : Except PathError (List String) :=
  match t.locate? path with
  | none => .error (.missing path)
  | some place =>
    match t.entry? place with
    | none => .error (.missing path)
    | some (.file _) => if isSourceName path then .ok [path] else .error (.notSource path)
    | some .folder =>
      match (t.names place).filter fun n => isSourceName n && t.isFile (Path.join path n) with
      | [] => .error (.noSources path)
      | names => .ok ((names.mergeSort (· ≤ ·)).map (Path.join path))

/-! ## Outputs -/

/-- The kinds of outputs. -/
inductive Output
  | code | tokens | tree
deriving DecidableEq, Repr

/-- Why an output is not made. -/
inductive OutputError
  | cannotRead (path : String)
  | cannotWrite (path : String)
  | lexical (error : LexError)
  | parse (error : CompileError)
deriving DecidableEq, Repr

def OutputError.message : OutputError → String
  | cannotRead path => "failed to read " ++ path
  | cannotWrite path => "failed to write " ++ path
  | lexical e => e.message
  | parse e => e.message

namespace Output

/-- What the log says was done. -/
def verb : Output → String
  | code => "compiled"
  | tokens => "tokenized"
  | tree => "parsed"

/-- Where the output of a source goes. -/
def path (source : String) : Output → String
  | code => Path.withExtension source "vm"
  | tokens => Path.withFileName source (Path.stem source ++ "T.xml")
  | tree => Path.withExtension source "xml"

/-- The text of the output. -/
def render (text : String) : Output → Except OutputError String
  | code => (compile text).mapError .parse
  | tokens => (tokenXml text).mapError .lexical
  | tree => (treeXml text).mapError .parse

/-- What rendering reports. -/
def log (text : String) : Output → List LogLine
  | tokens => (Lexer.ofString text).read.tokens.map Token.scanned
  | tree => compilation
  | code =>
    compilation ++
      match instructions text with
      | .ok program =>
        [⟨.debug, .program, "generated " ++ toString program.size ++ " instructions"⟩]
      | .error _ => []
where
  compilation : List LogLine :=
    compilationLog (Lexer.ofString text).read.tokens (events text).1.toList

/-- Makes an output of a source: the path of the output and the tree with it. -/
def make (output : Output) (t : FileTree) (source : String) :
    Except OutputError (String × FileTree) × List LogLine :=
  match t.read? source with
  | none => (.error (.cannotRead source), [])
  | some text =>
    match output.render text with
    | .error e => (.error e, output.log text)
    | .ok result =>
      let target := output.path source
      match t.write? target result with
      | none => (.error (.cannotWrite target), output.log text)
      | some t =>
        (.ok (target, t),
          output.log text ++
            [⟨.info, .program, output.verb ++ " " ++ source ++ " -> " ++ target⟩])

end Output

end JackToVm
