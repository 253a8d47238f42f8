import JackToVm.Path

/-!
# Files and folders

The part of a disk that a run works on. A place is a list of names from the working folder, which
is the empty list. A path leads through the places of its components; it leads somewhere if all of
them but the last are folders. Names and paths have a greatest length, counted in bytes; for a path
it is the length of its text, also of the parts that name nothing.
-/

namespace JackToVm

abbrev Place := List String

/-! ## From paths to places -/

namespace Place

/-- The place of the outermost folder. -/
def root : Place := ["/"]

/-- The place that one component leads to. -/
def step (here : Place) (component : List Char) : Place :=
  if component = [] ∨ component = ['.'] then here
  else if component = ['.', '.'] then
    if here = root then root
    else if here = [] ∨ here.getLast? = some ".." then here ++ [".."]
    else here.dropLast
  else here ++ [String.ofList component]

/-- The places that some components lead through, from `here` on; the last is the destination. -/
def route (here : Place) : List (List Char) → List Place × Place
  | [] => ([], here)
  | component :: rest =>
    let (passed, last) := route (step here component) rest
    (here :: passed, last)

/-- The places that a path leads through, and its destination. -/
def ofPath (path : String) : List Place × Place :=
  route (if path.toList.head? = some '/' then root else []) (Path.components path.toList)

end Place

/-! ## The tree -/

inductive Entry
  | folder
  | file (bytes : ByteArray)

structure FileTree where
  entries : List (Place × Entry)

namespace FileTree

/-- What is at a place. The working folder and those above it are always there. -/
def entry? (t : FileTree) (place : Place) : Option Entry :=
  if place = Place.root ∨ place.all (· = "..") then some .folder
  else (t.entries.find? (·.1 = place)).map (·.2)

def isFolder (t : FileTree) (place : Place) : Bool :=
  match t.entry? place with
  | some .folder => true
  | _ => false

/-- The most bytes that the name of a file has. -/
def maxNameBytes : Nat := 255

/-- The most bytes that a path has. -/
def maxPathBytes : Nat := 4095

/-- The place that a path leads to. The empty path leads nowhere, nor does one that is too long. -/
def locate? (t : FileTree) (path : String) : Option Place :=
  let (passed, place) := Place.ofPath path
  if path ≠ "" ∧ path.utf8ByteSize ≤ maxPathBytes ∧ passed.all t.isFolder then some place
  else none

/-- What a path leads to. -/
def find? (t : FileTree) (path : String) : Option Entry :=
  (t.locate? path).bind t.entry?

/-- The path leads to a file. -/
def isFile (t : FileTree) (path : String) : Bool :=
  match t.find? path with
  | some (.file _) => true
  | _ => false

/-- The text of a file. There is none if the bytes are no UTF-8. -/
def read? (t : FileTree) (path : String) : Option String :=
  match t.find? path with
  | some (.file bytes) => String.fromUTF8? bytes
  | _ => none

/-- Puts a file at a place, over one that is there. -/
def put (t : FileTree) (place : Place) (bytes : ByteArray) : FileTree :=
  if t.entries.any (·.1 = place) then
    ⟨t.entries.map fun e => if e.1 = place then (place, .file bytes) else e⟩
  else ⟨t.entries ++ [(place, .file bytes)]⟩

/-- Writes a text to a file. It cannot take the place of a folder, nor have a name that is too
long. -/
def write? (t : FileTree) (path text : String) : Option FileTree :=
  match t.locate? path with
  | none => none
  | some place =>
    if t.isFolder place || maxNameBytes < (place.getLastD "").utf8ByteSize then none
    else some (t.put place text.toUTF8)

/-- The names of what is directly in a folder. -/
def names (t : FileTree) (folder : Place) : List String :=
  t.entries.filterMap fun (place, _) => if place.dropLast = folder then place.getLast? else none

end FileTree

end JackToVm
