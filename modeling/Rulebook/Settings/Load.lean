import Rulebook.Files.Read
import Rulebook.Settings.Basic
import Rulebook.Toml.Document

/-!
# Settings files

Settings are kept in the table `rulelang` of a file `rulelang.toml` beside the rules. A file or
table that is missing or says nothing gives the default settings.
-/

namespace Rulebook

/-- Why a file gives no document. -/
inductive DocumentFailure where
  | unreadable (f : ReadFailure)
  | toml (f : Toml.Fault)
  deriving DecidableEq, Repr

def DocumentFailure.message : DocumentFailure → String
  | unreadable f => f.message
  | toml f => f.message

/-- Why settings cannot be loaded. -/
inductive SettingsFailure where
  | document (f : DocumentFailure)
  | invalid (problems : List Problem)

namespace Settings

def fileName : String := "rulelang.toml"

/-- The table of settings files that holds the settings. -/
def section_ : String := "rulelang"

/-- Where the settings file for a path may be. -/
def places (start : Path) : List Path := [start.below [fileName], start.parent.below [fileName]]

def findFile (fs : FileSystem) (start : Path) : Option Path :=
  let directory := if fs.isDirectory start then start else start.parent
  let candidate := directory.below [fileName]
  if fs.contains candidate then some candidate else none

def document (fs : FileSystem) (path : Path) : Except DocumentFailure Table :=
  match fs.read path with
  | .error fault => .error (.unreadable (.access path fault))
  | .ok bytes =>
    match Text.Encoding.utf8.decode bytes with
    | .error f => .error (.unreadable (.ofDecoding f))
    | .ok cs => (Toml.parse? cs).mapError .toml

def ofDocument (t : Table) : Checked Settings :=
  let value := (t.lookup section_).getD .null
  if value.isBlank then .ok {} else ofValue value

def load (fs : FileSystem) : Option Path → Except SettingsFailure Settings
  | none => .ok {}
  | some path =>
    if fs.contains path then
      match document fs path with
      | .error f => .error (.document f)
      | .ok t =>
        match ofDocument t with
        | .error problems => .error (.invalid problems)
        | .ok settings => .ok settings
    else .ok {}

end Settings

end Rulebook
