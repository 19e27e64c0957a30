import Rulebook.Files.Path
import Rulebook.Text.Integer

/-!
# Command lines

A command line names a command with its options and paths, or asks for the version. Options and
paths may be mixed; after `--` everything is a path. Of a repeated option the last one counts.
-/

namespace Rulebook.Command

/-- What every command takes. -/
structure Options where
  /-- The settings file. -/
  settings : Option Path := none
  /-- Every event is shown. -/
  verbose : Bool := false
  deriving DecidableEq, Repr

/-- What a command line asks for. -/
inductive Request where
  | version
  | check (options : Options) (first : Path) (others : List Path) (showSource : Bool)
  | dump (options : Options) (path : Path) (indent : Int)
  | tokens (options : Options) (path : Path) (trivia : Bool)
  deriving Repr

namespace Request

def paths : Request → List Path
  | version => []
  | check _ first others _ => first :: others
  | dump _ path _ | tokens _ path _ => [path]

def settings? : Request → Option Path
  | version => none
  | check options .. | dump options .. | tokens options .. => options.settings

end Request

inductive Argument where
  | settings (path : Path)
  | verbose
  | showSource
  | trivia
  | indent (width : Int)
  | path (p : Path)
  deriving DecidableEq, Repr

def afterStart? (beginning s : String) : Option String :=
  if beginning.toList.isPrefixOf s.toList then
    some (String.ofList (s.toList.drop beginning.length))
  else none

def attached? (s : String) : Option Argument :=
  match afterStart? "--config=" s with
  | some value => some (.settings (Path.ofString value))
  | none =>
    match afterStart? "--indent=" s with
    | some value => (Text.integer value).toOption.map .indent
    | none =>
      match afterStart? "--" s with
      | some _ => none
      | none => (afterStart? "-c" s).map fun value => .settings (Path.ofString value)

/-- The arguments in a list of words, or `none` for an unknown option or a missing value. -/
def argumentsOf? : List String → Option (List Argument)
  | [] => some []
  | "--" :: rest => some (rest.map fun s => .path (Path.ofString s))
  | "--verbose" :: rest => do return .verbose :: (← argumentsOf? rest)
  | "--show-source" :: rest => do return .showSource :: (← argumentsOf? rest)
  | "--trivia" :: rest => do return .trivia :: (← argumentsOf? rest)
  | "--config" :: value :: rest | "-c" :: value :: rest => do
    return .settings (Path.ofString value) :: (← argumentsOf? rest)
  | "--indent" :: value :: rest => do
    return .indent (← (Text.integer value).toOption) :: (← argumentsOf? rest)
  | s :: rest => do
    if s = "--config" || s = "-c" || s = "--indent" then failure
    let first ←
      if s.startsWith "-" && s ≠ "-" then attached? s else some (.path (Path.ofString s))
    return first :: (← argumentsOf? rest)

def pathsOf (arguments : List Argument) : List Path :=
  arguments.filterMap fun
    | .path p => some p
    | _ => none

def optionsOf (arguments : List Argument) : Options :=
  { settings := (arguments.filterMap fun
      | .settings p => some p
      | _ => none).getLast?
    verbose := arguments.any (· = .verbose) }

def indentOf (arguments : List Argument) : Int :=
  (arguments.filterMap fun
    | .indent n => some n
    | _ => none).getLast?.getD 2

/-- An argument that every command takes. -/
def isCommon : Argument → Bool
  | .settings _ | .verbose | .path _ => true
  | _ => false

def requestOf? (command : String) (arguments : List Argument) : Option Request :=
  let options := optionsOf arguments
  let allows (own : Argument → Bool) : Bool := arguments.all fun a => isCommon a || own a
  match command, pathsOf arguments with
  | "check", first :: others =>
    if allows (· = .showSource) then
      some (.check options first others (arguments.any (· = .showSource)))
    else none
  | "dump", [path] =>
    if allows fun
      | .indent _ => true
      | _ => false
    then some (.dump options path (indentOf arguments))
    else none
  | "tokens", [path] =>
    if allows (· = .trivia) then some (.tokens options path (arguments.any (· = .trivia))) else none
  | _, _ => none

/-- What a command line asks for, if it is well formed. After a question for the version the rest
is not looked at. -/
def Request.ofWords? : List String → Option Request
  | [] => none
  | "--version" :: _ | "-V" :: _ => some .version
  | "--" :: command :: words | command :: words => do requestOf? command (← argumentsOf? words)

end Rulebook.Command
