import Rulebook.Files.Path
import Rulebook.Text.Encoding
import Rulebook.Text.Quoted

/-!
# File trees

A file system is a tree of directories with files at its leaves, and a working directory where
relative paths begin.
-/

namespace Rulebook

inductive FileTree where
  | file (bytes : Text.Bytes)
  | directory (entries : List (String × FileTree))
  deriving Inhabited

/-- Why a path cannot be used. -/
inductive AccessFault where
  | notFound | notDirectory | isDirectory
  deriving DecidableEq, Repr

def AccessFault.message (f : AccessFault) (p : Path) : String :=
  let text := match f with
    | notFound => "[Errno 2] No such file or directory: "
    | notDirectory => "[Errno 20] Not a directory: "
    | isDirectory => "[Errno 21] Is a directory: "
  text ++ Text.quoted p.toString

namespace FileTree

def isDirectory : FileTree → Bool
  | file _ => false
  | directory _ => true

def children : FileTree → List (String × FileTree)
  | file _ => []
  | directory entries => entries

def putEntry (name : String) (t : FileTree) : List (String × FileTree) → List (String × FileTree)
  | [] => [(name, t)]
  | (other, u) :: rest =>
    if other = name then (name, t) :: rest else (other, u) :: putEntry name t rest

/-- Changes what is at some names; directories on the way are made. -/
def change (f : FileTree → FileTree) : List String → FileTree → FileTree
  | [], t => f t
  | _ :: _, file bytes => file bytes
  | name :: names, directory entries =>
    directory
      (putEntry name (change f names ((entries.lookup name).getD (directory []))) entries)

end FileTree

structure Place where
  here : FileTree
  above : List FileTree := []
  deriving Inhabited

namespace Place

/-- The place above; the root is above itself. -/
def parent (p : Place) : Place :=
  match p.above with
  | [] => p
  | up :: above => ⟨up, above⟩

/-- The place of something that is in the directory here. -/
def below (p : Place) (t : FileTree) : Place := ⟨t, p.here :: p.above⟩

@[simp] theorem parent_below (p : Place) (t : FileTree) : (p.below t).parent = p := rfl

def follow (p : Place) : List String → Except AccessFault Place
  | [] => .ok p
  | name :: names =>
    match p.here with
    | .file _ => .error .notDirectory
    | .directory entries =>
      if name = ".." then p.parent.follow names
      else
        match entries.lookup name with
        | none => .error .notFound
        | some t => (p.below t).follow names

end Place

structure FileSystem where
  root : FileTree := .directory []
  working : List String := []
  deriving Inhabited

namespace FileSystem

def namesTo (fs : FileSystem) (p : Path) : List String :=
  if p.isAbsolute then p.names else fs.working ++ p.names

def place (fs : FileSystem) (p : Path) : Except AccessFault Place :=
  Place.follow ⟨fs.root, []⟩ (fs.namesTo p)

def find (fs : FileSystem) (p : Path) : Except AccessFault FileTree :=
  (fs.place p).map Place.here

def contains (fs : FileSystem) (p : Path) : Bool := (fs.find p).isOk

def isDirectory (fs : FileSystem) (p : Path) : Bool :=
  match fs.find p with
  | .ok t => t.isDirectory
  | .error _ => false

def read (fs : FileSystem) (p : Path) : Except AccessFault Text.Bytes :=
  match fs.find p with
  | .error fault => .error fault
  | .ok (.directory _) => .error .isDirectory
  | .ok (.file bytes) => .ok bytes

def put (fs : FileSystem) (p : Path) (t : FileTree) : FileSystem :=
  { fs with root := fs.root.change (fun _ => t) (fs.namesTo p) }

def addFile (fs : FileSystem) (p : Path) (bytes : Text.Bytes) : FileSystem := fs.put p (.file bytes)

def addDirectory (fs : FileSystem) (p : Path) : FileSystem :=
  { fs with root := fs.root.change id (fs.namesTo p) }

end FileSystem

end Rulebook
