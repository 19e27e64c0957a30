import Rulebook.Files.Tree
import Rulebook.Settings.Basic
import Rulebook.Parse

/-!
# Reading rule files

The text of a file is its bytes in an encoding that the machine knows, with every kind of line end
read as a line feed. Of several files, those with bytes that are no text in the encoding are
skipped; any other fault ends the reading.
-/

namespace Rulebook

/-- Why a file has no text. -/
inductive ReadFailure where
  /-- A path may not contain U+0000. -/
  | nullInPath
  /-- The name of an encoding may not contain U+0000. -/
  | nullInEncoding
  | access (path : Path) (fault : AccessFault)
  | unknownEncoding (complaint : String)
  | undecodable (fault : Text.DecodingFault)
  | codec (complaint : String)
  deriving DecidableEq, Repr

namespace ReadFailure

def ofDecoding : Text.DecodingFailure → ReadFailure
  | .bytes fault => undecodable fault
  | .other complaint => codec complaint

def message : ReadFailure → String
  | nullInPath => "embedded null byte"
  | nullInEncoding => "embedded null character"
  | access path fault => fault.message path
  | unknownEncoding complaint | codec complaint => complaint
  | undecodable fault => fault.message

end ReadFailure

/-- A text contains U+0000. -/
def hasNull (s : String) : Bool := s.toList.any (· = '\x00')

def Machine.text (m : Machine) (encoding : String) (bytes : Text.Bytes) :
    Except ReadFailure String :=
  match m.codecs encoding with
  | .error complaint => .error (.unknownEncoding complaint)
  | .ok decode =>
    match decode bytes with
    | .error f => .error (.ofDecoding f)
    | .ok cs => .ok (String.ofList (Text.withLineFeeds cs))

def FileSystem.readText (fs : FileSystem) (m : Machine) (encoding : String) (path : Path) :
    Except ReadFailure String :=
  if hasNull encoding then .error .nullInEncoding else
  if path.names.any hasNull then .error .nullInPath else
  match fs.read path with
  | .error fault => .error (.access path fault)
  | .ok bytes => m.text encoding bytes

/-- Why a file gives no package. -/
inductive FileFailure where
  | unreadable (f : ReadFailure)
  /-- The file is not text in the encoding. -/
  | undecodable (e : ParseError)
  | abandoned (a : Abandoned)

def FileFailure.message : FileFailure → String
  | unreadable f => f.message
  | undecodable e => e.report
  | abandoned a => a.failure.message

def undecodableFile (path : Path) (encoding : String) (fault : Text.DecodingFault) : ParseError :=
  .atPlace ("Cannot decode file as " ++ encoding ++ ": " ++ fault.reason)
    ⟨path.toString, 1, 0, none⟩

def parseFile (m : Machine) (fs : FileSystem) (settings : Settings) (path : Path) :
    Except FileFailure ParseResult :=
  match fs.readText m settings.encoding path with
  | .error (.undecodable fault) =>
    .error (.undecodable (undecodableFile path settings.encoding fault))
  | .error f => .error (.unreadable f)
  | .ok text =>
    match parse m.frames settings path.toString text with
    | .error a => .error (.abandoned a)
    | .ok r =>
      if r.hasErrors then
        .ok { r with events := r.events ++ [.fileErrors r.sourceName r.errors.length] }
      else .ok r

/-- What several files give: results, the events on the way, and the failure that ended the
reading. -/
structure Batch where
  results : List ParseResult := []
  events : List Event := []
  failure : Option FileFailure := none

namespace Batch

def after (r : ParseResult) (b : Batch) : Batch :=
  { b with results := r :: b.results, events := r.events ++ b.events }

def afterSkipped (path : Path) (e : ParseError) (b : Batch) : Batch :=
  { b with events := .fileSkipped path.toString e.message :: b.events }

def ended (f : FileFailure) : Batch :=
  { failure := some f
    events := match f with
      | .abandoned a => a.events
      | _ => [] }

end Batch

def parseEach (m : Machine) (fs : FileSystem) (settings : Settings) : List Path → Batch
  | [] => {}
  | path :: rest =>
    match parseFile m fs settings path with
    | .ok r => (parseEach m fs settings rest).after r
    | .error (.undecodable e) => (parseEach m fs settings rest).afterSkipped path e
    | .error f => .ended f

end Rulebook
