import JackToVm.Build

/-!
# The command line

A run takes one path and flags. It makes the outputs that are asked for of each source in turn;
the first output that fails ends the work on its source and is reported, and the run goes on with
the next one. A run fails if a source fails or if there is none.
-/

namespace JackToVm

/-! ## Options -/

/-- What a run is asked to do. -/
structure Options where
  path : String
  verbosity : Nat
  tokens : Bool
  tree : Bool
deriving DecidableEq, Repr

namespace Options

/-- What is known of the options while the arguments are read. -/
structure Draft where
  path : Option String
  verbosity : Nat
  tokens : Bool
  tree : Bool

/-- A path; there is only one. -/
def Draft.addPath (d : Draft) (path : String) : Option Draft :=
  match d.path with
  | none => if path = "" then none else some { d with path := some path }
  | some _ => none

/-- An argument before any `--`: a flag, or the path. The two outputs are asked for once at
most, the verbosity rises with each `v`. -/
def Draft.add (d : Draft) (argument : String) : Option Draft :=
  if argument = "--tokens" then if d.tokens then none else some { d with tokens := true }
  else if argument = "--xml" then if d.tree then none else some { d with tree := true }
  else if argument = "--verbose" then some { d with verbosity := d.verbosity + 1 }
  else
    match argument.toList with
    | '-' :: c :: flags =>
      if (c :: flags).all (· = 'v') then
        some { d with verbosity := d.verbosity + (c :: flags).length }
      else none
    | _ => d.addPath argument

/-- Reads arguments. Behind `--` every argument is a path. -/
def Draft.addAll (d : Draft) : List String → Option Draft
  | [] => some d
  | argument :: rest =>
    if argument = "--" then rest.foldlM addPath d else (d.add argument).bind (addAll · rest)

/-- The options that the arguments give, if they make sense. -/
def parse (arguments : List String) : Option Options := do
  let d ← Draft.addAll ⟨none, 0, false, false⟩ arguments
  let path ← d.path
  return ⟨path, d.verbosity, d.tokens, d.tree⟩

/-- The outputs that are asked for, in the order in which they are made. -/
def outputs (o : Options) : List Output :=
  (if o.tokens then [.tokens] else []) ++ (if o.tree then [.tree] else []) ++ [.code]

end Options

/-! ## Reports -/

/-- The offset behind the last line feed before `offset`, of the text `cs` that starts at `here`
in a line that starts at `start`. -/
def lineStartFrom (offset here start : Nat) : List Char → Nat
  | [] => start
  | c :: cs =>
    if offset ≤ here then start
    else
      lineStartFrom offset (here + c.utf8Size) (if c = '\n' then here + c.utf8Size else start) cs

/-- The column of a place: its distance in bytes from the start of its line, counted from 1. -/
def column (text : String) (offset : Nat) : Nat :=
  offset - lineStartFrom offset 0 0 text.toList + 1

/-- Where an error in a source lies, as far as it is known. -/
def location (source text : String) : OutputError → String
  | .parse ⟨_, some t, line⟩ =>
    source ++ ":" ++ toString line ++ ":" ++ toString (column text t.span.start) ++
      " (at " ++ quoteText t.lexeme ++ ")"
  | .parse ⟨_, none, line⟩ => source ++ ":" ++ toString line
  | _ => source

/-- The report of an error in a source. -/
def report (t : FileTree) (source : String) (e : OutputError) : String :=
  "Error " ++ location source ((t.read? source).getD "") e ++ ":: " ++ e.message ++ "\n"

/-! ## Runs -/

/-- What a run leaves behind. -/
structure Outcome where
  exit : Nat
  log : List LogLine
  errors : String
  tree : FileTree

/-- Makes some outputs of a source, up to the first that fails. -/
def makeAll (t : FileTree) (source : String) :
    List Output → FileTree × List LogLine × Option OutputError
  | [] => (t, [], none)
  | output :: outputs =>
    match output.make t source with
    | (.error e, log) => (t, log, some e)
    | (.ok (_, t), log) =>
      let (t, more, failure) := makeAll t source outputs
      (t, log ++ more, failure)

/-- What is known while the sources are worked on. -/
structure Progress where
  tree : FileTree
  log : List LogLine
  errors : String
  failed : Nat

/-- Works on one source. -/
def Progress.add (outputs : List Output) (p : Progress) (source : String) : Progress :=
  let (t, log, failure) := makeAll p.tree source outputs
  match failure with
  | none => { p with tree := t, log := p.log ++ log }
  | some e =>
    ⟨t, p.log ++ log, p.errors ++ report t source e, p.failed + 1⟩

/-- How the program is called. -/
def usage : String := "Usage: jackc <file.jack | directory>\n"

/-- A run of the program. -/
def run (t : FileTree) (o : Options) : Outcome :=
  match sources t o.path with
  | .error e => ⟨1, [], usage ++ "Error: " ++ e.message ++ "\n", t⟩
  | .ok files =>
    let p := files.foldl (Progress.add o.outputs) ⟨t, [], "", 0⟩
    let summary : List LogLine :=
      if p.failed = 0 then []
      else
        [⟨.error, .program,
          toString p.failed ++ " of " ++ toString files.length ++ " files failed to compile"⟩]
    ⟨if p.failed = 0 then 0 else 1,
      (p.log ++ summary).filter (·.level.rank ≤ o.verbosity), p.errors, p.tree⟩

end JackToVm
