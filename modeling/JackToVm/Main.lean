import JackToVm.CommandLine

/-!
# The program

Reads the sources that the path names from the disk, does the run on them, and puts what it leaves
behind onto the disk and the two output streams. All decisions are those of `run`.
-/

namespace JackToVm

/-- The part of the disk that a run on a path works on: its sources, and the folders that are in
the way of outputs. -/
def load (path : String) : IO FileTree := do
  let disk := (← IO.currentDir) / path
  let (passed, place) := Place.ofPath path
  let isFolder ← disk.isDir
  unless isFolder || (← disk.pathExists) do return ⟨[]⟩
  let folder := if isFolder then place else place.dropLast
  let mut entries := (folder :: passed).map fun p => (p, Entry.folder)
  unless isFolder do entries := entries ++ [(place, .file (← IO.FS.readBinFile disk))]
  for inside in ← (if isFolder then disk else disk.parent.getD disk).readDir do
    let there := folder ++ [inside.fileName]
    if ← inside.path.isDir then entries := entries ++ [(there, .folder)]
    else if isFolder && isSourceName inside.fileName then
      entries := entries ++ [(there, .file (← IO.FS.readBinFile inside.path))]
  return ⟨entries⟩

/-- Writes the files that are not as they were. -/
def save (path : String) (before after : FileTree) : IO Unit := do
  let disk := (← IO.currentDir) / path
  let folder := if ← disk.isDir then disk else disk.parent.getD disk
  for (place, entry) in after.entries do
    match entry, before.entry? place, place.getLast? with
    | .file bytes, some (.file old), some name =>
      unless bytes == old do IO.FS.writeBinFile (folder / name) bytes
    | .file bytes, _, some name => IO.FS.writeBinFile (folder / name) bytes
    | _, _, _ => pure ()

end JackToVm

open JackToVm in
def main (arguments : List String) : IO UInt32 := do
  match Options.parse arguments with
  | none =>
    IO.eprint usage
    return 2
  | some o =>
    let before ← load o.path
    let outcome := run before o
    save o.path before outcome.tree
    for line in outcome.log do IO.println line.text
    IO.eprint outcome.errors
    return outcome.exit.toUInt32
