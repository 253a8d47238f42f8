/-!
# Paths

A path is a text of components between slashes. Empty components and single dots name nothing. The
last component is the file name, unless it is a pair of dots; the extension is what follows the
last dot of the file name, unless that dot comes first.

The name of an output is made from the name of its source by one of two changes: of the extension
(`withExtension`), which keeps the text in front of the file name as it is, or of the whole file
name (`withFileName`), which drops what names nothing at the end of that text. A file name that is
two dots and an extension has no other extension: without its own it is the folder above.
-/

namespace JackToVm.Path

/-! ## Components -/

/-- The texts between the slashes. -/
def components : List Char → List (List Char)
  | [] => [[]]
  | c :: cs =>
    match components cs with
    | [] => [[c]]
    | word :: words => if c = '/' then [] :: word :: words else (c :: word) :: words

/-- Drops slashes and single dots at the front of a reversed path, but keeps a slash or a dot that
is the whole path. -/
def trimReversed : List Char → List Char
  | '/' :: c :: cs => trimReversed (c :: cs)
  | '.' :: '/' :: cs => trimReversed ('/' :: cs)
  | cs => cs

/-- The path without the components at its end that name nothing. -/
def trim (path : List Char) : List Char :=
  (trimReversed path.reverse).reverse

/-- The text up to the last slash, and the text behind it. -/
def splitLast (path : List Char) : List Char × List Char :=
  ((path.reverse.dropWhile (· ≠ '/')).reverse, (path.reverse.takeWhile (· ≠ '/')).reverse)

/-- The file name and the text in front of it. -/
def splitName? (path : List Char) : Option (List Char × List Char) :=
  let (front, name) := splitLast (trim path)
  if name = [] ∨ name = ['.'] ∨ name = ['.', '.'] then none else some (front, name)

/-! ## File names -/

/-- A file name as its stem and its extension. -/
def splitExtension (name : List Char) : List Char × Option (List Char) :=
  match name.reverse.dropWhile (· ≠ '.') with
  | [] => (name, none)
  | [_] => (name, none)
  | _ :: stem => (stem.reverse, some (name.reverse.takeWhile (· ≠ '.')).reverse)

/-- The stem of the file name; a path without a file name has an empty one. -/
def stem (path : String) : String :=
  match splitName? path.toList with
  | some (_, name) => String.ofList (splitExtension name).1
  | none => ""

/-- The file name has this extension. -/
def hasExtension (extension path : String) : Bool :=
  match splitName? path.toList with
  | some (_, name) => (splitExtension name).2 = some extension.toList
  | none => false

/-! ## Other paths -/

/-- The path of a file in a folder. -/
def join (folder name : String) : String :=
  match folder.toList.getLast? with
  | none => name
  | some '/' => folder ++ name
  | some _ => folder ++ "/" ++ name

/-- The path without the letters of its extension; the dot in front of them stays. -/
def withoutExtension (path : List Char) : List Char :=
  match splitName? path with
  | some (front, name) =>
    match splitExtension name with
    | (stem, some _) => front ++ stem ++ ['.']
    | (_, none) => path
  | none => path

/-- The path with another extension. The old one is taken off first; if two dots are left of the
file name, they lead to the folder above and get no extension. -/
def withExtension (path extension : String) : String :=
  let bare := withoutExtension path.toList
  match splitName? bare with
  | some (front, name) =>
    String.ofList (front ++ (splitExtension name).1) ++ "." ++ extension
  | none => String.ofList bare

/-- The path with another file name. -/
def withFileName (path name : String) : String :=
  match splitName? path.toList with
  | some (front, _) => join (String.ofList (trim front)) name
  | none => join path name

example : withExtension "sub/A.b.jack" "vm" = "sub/A.b.vm" ∧
    withExtension "./.jack" "vm" = "./.jack.vm" ∧
    withExtension "A..jack" "vm" = "A..vm" ∧
    withExtension "sub/..jack" "vm" = "sub/.." := by decide +kernel

example : withFileName "sub//A.jack" "AT.xml" = "sub/AT.xml" ∧
    withFileName "./A.jack" "AT.xml" = "./AT.xml" := by decide +kernel

end JackToVm.Path
