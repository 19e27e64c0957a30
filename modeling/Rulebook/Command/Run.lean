import Rulebook.Command.Arguments
import Rulebook.Console.Plain
import Rulebook.Console.Table
import Rulebook.Files.Glob
import Rulebook.Tree.Dump
import Rulebook.Version

/-!
# Commands

`check` reports the diagnostics of rule files and sums them up, `dump` writes the tree of a rule
file as JSON, and `tokens` lists its tokens. A command ends with status 0 for success, 1 for rule
files with errors and 2 if it could not do its work.
-/

namespace Rulebook.Command

/-- A failure that a command does not report itself. -/
inductive Escape where
  | file (f : FileFailure)
  | settings (f : DocumentFailure)
  | width (f : Json.WidthFault)
  | pattern (f : Glob.Fault)
  /-- A text in a table has markup that cannot be read. -/
  | markup (complaint : String)

/-- The wording of a failure. -/
def Escape.message : Escape → String
  | file f => f.message
  | settings f => f.message
  | width f => f.message
  | pattern f => f.message
  | markup complaint => complaint

/-- How a command ends. -/
structure Outcome where
  status : Nat := 0
  /-- The lines of the standard output. -/
  output : List String := []
  /-- The lines of the error output. -/
  errors : List String := []
  escaped : Option Escape := none

def log (options : Options) (settings : Settings) (events : List Event) : List String :=
  Event.shown (if options.verbose then .debug else settings.logLevel) events

/-- Lines as a command prints them. Tables and events are not printed this way: they keep their
control sequences. -/
def printed (lines : List String) : List String := lines.map Console.plain

/-- A command that could not do its work, with the events before it gave up. -/
def refused (log complaints : List String) : Outcome :=
  { status := 2, errors := log ++ printed complaints }

def brokenOff (e : Escape) (errors : List String) : Outcome :=
  { status := 1, errors, escaped := some e }

def Outcome.withTable (o : Outcome) : Except String (List String) → Outcome
  | .ok lines => { o with output := o.output ++ lines }
  | .error complaint => { o with status := 1, escaped := some (.markup complaint) }

/-! ### Settings -/

def settingsFile (fs : FileSystem) (options : Options) (anchor : Path) : Option Path :=
  match options.settings with
  | some path => some path
  | none => Settings.findFile fs anchor

def withSettings (fs : FileSystem) (options : Options) (anchor : Path)
    (run : Settings → Outcome) : Outcome :=
  let file := settingsFile fs options anchor
  let shown := (file.map Path.toString).getD ""
  match Settings.load fs file with
  | .ok settings => run settings
  | .error (.document (.toml .malformed)) => refused [] ["Error: Invalid TOML in " ++ shown]
  | .error (.document f) => brokenOff (.settings f) []
  | .error (.invalid _) => refused [] ["Error: Invalid configuration in " ++ shown]

/-! ### Checking -/

def summaryColumns : List Console.Column :=
  [⟨"File", .left⟩, ⟨"Rules", .right⟩, ⟨"Queries", .right⟩, ⟨"Errors", .right⟩]

def summaryRow (r : ParseResult) : List String :=
  let queries := r.package.queries.length
  [r.sourceName, toString (r.package.rules.length - queries), toString queries,
    toString r.errors.length]

def diagnosticLine (d : Diagnostic) : String :=
  d.sourceName ++ ":" ++ toString d.line ++ ":" ++ toString d.column ++ ": " ++ d.kind.name ++
    ": " ++ d.message

/-- The lines of the diagnostics of a file, with excerpts if its text is given. -/
def diagnosticLines (source : Option String) (r : ParseResult) : List String :=
  r.errors.flatMap fun d =>
    match source with
    | none => [diagnosticLine d]
    | some text => [diagnosticLine d, (d.excerpt (some text)).format]

/-- The text of a file that was read before. -/
def sourceOf (m : Machine) (fs : FileSystem) (settings : Settings) (r : ParseResult) :
    Option String :=
  (fs.readText m settings.encoding (Path.ofString r.sourceName)).toOption

def report (m : Machine) (fs : FileSystem) (settings : Settings) (showSource : Bool)
    (log : List String) (results : List ParseResult) : Outcome :=
  let source (r : ParseResult) := if showSource then sourceOf m fs settings r else none
  let diagnostics : Outcome :=
    { status := if results.any (·.hasErrors) then 1 else 0
      output := printed (results.flatMap fun r => diagnosticLines (source r) r)
      errors := log }
  diagnostics.withTable
    (Console.table m.markup "Parse summary" summaryColumns (results.map summaryRow))

/-- Parses rule files and reports every diagnostic. -/
def check (m : Machine) (fs : FileSystem) (options : Options) (paths : List Path)
    (showSource : Bool) (settings : Settings) : Outcome :=
  match paths.filter fun p => !fs.contains p with
  | missing@(_ :: _) =>
    refused [] (missing.map fun p => "Error: no such file or directory: " ++ p.toString)
  | [] =>
    match fs.expand settings.filePatterns paths with
    | .error f => brokenOff (.pattern f) []
    | .ok files =>
      let batch := parseEach m fs settings files
      let shown := log options settings batch.events
      match batch.failure, batch.results with
      | some f, _ => brokenOff (.file f) shown
      | none, [] => refused shown ["No rule files found"]
      | none, results => report m fs settings showSource shown results

/-! ### Dumping -/

def isReportedRead : ReadFailure → Bool
  | .access .. | .undecodable .. => true
  | _ => false

def isReported : FileFailure → Bool
  | .unreadable f => isReportedRead f
  | .undecodable _ => true
  | .abandoned _ => false

def eventsOf : FileFailure → List Event
  | .abandoned a => a.events
  | _ => []

/-- Writes the tree of a rule file as JSON. -/
def dump (m : Machine) (fs : FileSystem) (options : Options) (path : Path) (indent : Int)
    (settings : Settings) : Outcome :=
  match parseFile m fs settings path with
  | .error f =>
    if isReported f then refused [] ["Error: " ++ f.message]
    else brokenOff (.file f) (log options settings (eventsOf f))
  | .ok r =>
    let shown := log options settings r.events
    match Json.Layout.ofWidth? indent with
    | .error f => brokenOff (.width f) shown
    | .ok layout =>
      { status := if r.hasErrors then 1 else 0
        output := printed [r.package.dump layout]
        errors := shown ++ printed (r.errors.map Diagnostic.format) }

/-! ### Listing tokens -/

def tokenColumns : List Console.Column :=
  [⟨"Line", .right⟩, ⟨"Col", .right⟩, ⟨"Type", .left⟩, ⟨"Text", .left⟩]

def tokenRow (t : Token) : List String :=
  [toString t.line, toString t.column, t.kind.name, Text.quoted t.text]

def tokens (m : Machine) (fs : FileSystem) (path : Path) (trivia : Bool) (settings : Settings) :
    Outcome :=
  match fs.readText m settings.encoding path with
  | .error f =>
    if isReportedRead f then refused [] ["Error: " ++ f.message]
    else brokenOff (.file (.unreadable f)) []
  | .ok text =>
    let listed := (scan text settings.hashComments).filter fun t => trivia || !t.isTrivia
    ({} : Outcome).withTable
      (Console.table m.markup path.toString tokenColumns (listed.map tokenRow))

/-! ### Requests -/

def Request.run (m : Machine) (fs : FileSystem) : Request → Outcome
  | version => { output := printed ["rulelang version " ++ Version.current] }
  | check options first others showSource =>
    withSettings fs options first (Command.check m fs options (first :: others) showSource)
  | dump options path indent =>
    withSettings fs options path (Command.dump m fs options path indent)
  | tokens options path trivia => withSettings fs options path (Command.tokens m fs path trivia)

end Rulebook.Command
