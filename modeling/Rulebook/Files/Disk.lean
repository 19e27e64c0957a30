import Rulebook.Files.Tree

/-!
# The disk

A file system holds what the disk held when it was read: what is at given paths, the directories on
the way there, and, where asked for, all that is below them. Only this module touches the disk.
-/

namespace Rulebook.Disk

/-- What is at a place, if there is anything. If `whole`, a directory is read with all that is below
it, but links in it are not followed. -/
partial def tree? (whole : Bool) (place : String) : IO (Option FileTree) := do
  let here := (← IO.currentDir) / place
  if ← here.isDir then
    if !whole then return some (.directory [])
    let entries ← (← here.readDir).toList.mapM fun entry => do
      let kind := (← entry.path.symlinkMetadata).type
      let below ← tree? (kind != .symlink) entry.path.toString
      return below.map fun t => (entry.fileName, t)
    return some (.directory (entries.filterMap id))
  else if ← here.pathExists then return some (.file (← IO.FS.readBinFile here).toList)
  else return none

def settled (names : List String) : List String :=
  names.foldl (fun above name => if name = ".." then above.dropLast else above ++ [name]) []

def add (whole : Bool) (fs : FileSystem) (p : Path) : IO FileSystem := do
  let place : Path := ⟨1, settled (fs.namesTo p)⟩
  match ← tree? whole p.toString with
  | none => return fs
  | some (.directory []) => return fs.addDirectory place
  | some t => return fs.put place t

def addWay (fs : FileSystem) (p : Path) : IO FileSystem :=
  (List.range p.names.length).foldlM
    (fun fs n => add false fs { p with names := p.names.take n }) fs

/-- The part of the disk at some paths. If `whole`, all that is below them belongs to it. -/
def load (whole : Bool) (fs : FileSystem) (paths : List Path) : IO FileSystem :=
  paths.foldlM (fun fs p => do add whole (← addWay fs p) p) fs

/-- A file system in which only the working directory is known. -/
def blank : IO FileSystem := do
  let working := Path.ofString (← IO.currentDir).toString
  return { working := working.names : FileSystem }.addDirectory working

end Rulebook.Disk
