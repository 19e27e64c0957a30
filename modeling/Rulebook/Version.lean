import Rulebook.Settings.Load

/-!
# The version

A checkout states its version in its project file. The statement counts only if the project has
the expected name, since a library may lie below another project.
-/

namespace Rulebook

namespace Version

/-- The version of this library. -/
def current : String := "0.1.0"

/-- The version that stands for none. -/
def unknown : String := "0.0.0"

def fileName : String := "pyproject.toml"

def kindOf : Value → String
  | .null => "NoneType"
  | .flag _ => "bool"
  | .number _ => "int"
  | .decimal .. => "float"
  | .text _ => "str"
  | .list _ => "list"
  | .table _ => "dict"

/-- Why a project file tells nothing about versions. -/
inductive Failure where
  | document (f : DocumentFailure)
  /-- The project is not described by a table. -/
  | notTable (v : Value)
  /-- An integer has more than `Text.digitLimit` digits. -/
  | tooManyDigits

def Failure.message : Failure → String
  | document f => f.message
  | notTable v => "'" ++ kindOf v ++ "' object has no attribute 'get'"
  | tooManyDigits => Text.tooManyDigits none

/-- An integer with at most `Text.digitLimit` digits. -/
def integerText (n : Int) : Except Failure String :=
  if n.natAbs < Text.tenTo Text.digitLimit then .ok (toString n) else .error .tooManyDigits

def decimalText (mantissa : Int) (places : Nat) : String :=
  let digits := toString mantissa.natAbs
  let padded := String.ofList (List.replicate (places + 1 - digits.length) '0') ++ digits
  let cs := padded.toList
  let whole := cs.take (cs.length - places)
  let fraction := ((cs.drop (cs.length - places)).reverse.dropWhile (· = '0')).reverse
  (if mantissa < 0 then "-" else "") ++ String.ofList whole ++ "." ++
    if fraction.isEmpty then "0" else String.ofList fraction

mutual

def partText : Value → Except Failure String
  | .null => .ok "None"
  | .flag b => .ok (if b then "True" else "False")
  | .number n => integerText n
  | .decimal mantissa places => .ok (decimalText mantissa places)
  | .text s => .ok (Text.quoted s)
  | .list items => do return "[" ++ ", ".intercalate (← itemTexts items) ++ "]"
  | .table entries => do return "\x7b" ++ ", ".intercalate (← entryTexts entries) ++ "\x7d"

def itemTexts : List Value → Except Failure (List String)
  | [] => .ok []
  | v :: rest => do return (← partText v) :: (← itemTexts rest)

def entryTexts : List (String × Value) → Except Failure (List String)
  | [] => .ok []
  | (k, v) :: rest => do return (Text.quoted k ++ ": " ++ (← partText v)) :: (← entryTexts rest)

end

def valueText : Value → Except Failure String
  | .text s => .ok s
  | v => partText v

def stated? (distribution : String) (project : Table) : Option Value :=
  match project.lookup "name", project.lookup "version" with
  | some (.text name), some version => if name = distribution then some version else none
  | _, _ => none

/-- The version of a distribution by a project file, of which the table `project` counts. -/
def ofDocument (distribution : String) (t : Table) : Except Failure String :=
  match t.lookup "project" with
  | none => .ok unknown
  | some (.table project) =>
    match stated? distribution project with
    | some version => valueText version
    | none => .ok unknown
  | some v => .error (.notTable v)

/-- The version of a distribution by the project file in the working directory. -/
def lookup (fs : FileSystem) (distribution : String) : Except Failure String :=
  match Settings.document fs ⟨0, [fileName]⟩ with
  | .error (.unreadable (.access ..)) => .ok unknown
  | .error f => .error (.document f)
  | .ok t => ofDocument distribution t

end Version

end Rulebook
