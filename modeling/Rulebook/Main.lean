import Rulebook.Command.Run
import Rulebook.Files.Disk

/-!
# The program

Reads the part of the disk that a command line is about, carries out the request, and prints the
outcome.
-/

namespace Rulebook.Command

/-- How the program is used. -/
def usage : List String :=
  ["usage: rulelang check [--config FILE] [--verbose] [--show-source] PATH...",
   "       rulelang dump [--config FILE] [--verbose] [--indent N] FILE",
   "       rulelang tokens [--config FILE] [--verbose] [--trivia] FILE",
   "       rulelang --version"]

/-- The part of the disk that a request is about: the settings files it may use and its paths, and
all that is below the paths if they are to be checked. -/
def Request.disk (r : Request) : IO FileSystem := do
  let whole := match r with
    | check .. => true
    | _ => false
  let settings := r.settings?.toList ++ (r.paths.take 1).flatMap Settings.places
  Disk.load whole (← Disk.load false (← Disk.blank) settings) r.paths

/-- Prints how a command ended. -/
def Outcome.print (o : Outcome) : IO UInt32 := do
  o.output.forM IO.println
  o.errors.forM IO.eprintln
  o.escaped.forM fun e => IO.eprintln e.message
  return o.status.toUInt32

end Rulebook.Command

/-- Runs a command line. -/
def main (words : List String) : IO UInt32 := do
  match Rulebook.Command.Request.ofWords? words with
  | none =>
    Rulebook.Command.usage.forM IO.eprintln
    return 2
  | some request => (request.run .bare (← request.disk)).print
