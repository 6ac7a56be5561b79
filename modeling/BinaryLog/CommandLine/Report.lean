import BinaryLog.Catalog.Basic
import BinaryLog.CommandLine.Options
import BinaryLog.Replay.Run

namespace BinaryLog.CommandLine

/-!
# The program's report

The program shows the messages and checkpoints of a log, line by line. What was shown before an
error stays shown. The main definitions are

* `Report`, what a run of the program leaves behind;
* `showEvents`, the program's loop over the events of a replay;
* `reportLog`, the report on an open log, and `report`, that on two files;
* `run`, the report for a list of arguments.
-/

/-- What a run of the program leaves behind. -/
structure Report where
  exitCode : UInt32
  output : String
  errors : String := ""
deriving DecidableEq

/-- The line that an error is reported in: what failed and what lies behind it, from the outside
    in. -/
def errorLine (causes : List String) : String := "error: " ++ ": ".intercalate causes ++ "\n"

/-- A run that failed after some output. -/
def failure (output : String) (causes : List String) : Report :=
  { exitCode := 1, output, errors := errorLine causes }

/-- What is shown for an event. Padding is not. -/
def eventLine : Event → String
  | .message m => m.line ++ "\n"
  | .checkpoint c => c.line ++ "\n"
  | .padding .. => ""

/-- The source that reading a file means, if it can be opened. A directory can, and fails at the
    first read. -/
def openLog : FileContent → Except FileFault Source
  | .ok bytes => .ok (Source.ofBytes bytes)
  | .error .isDirectory => .ok { ahead := [], ending := .fault FileFault.isDirectory.message }
  | .error fault => .error fault

/-- What an error of the replay is reported as, from the outside in. -/
def replayCauses (e : ReplayError) : List String :=
  [e.message, e.cause.message] ++ e.cause.cause?.toList

/-- The line that a replay without an error ends in. -/
def completionLine (summary : Summary) : String :=
  s!"Decompression complete after printing {summary.messages} log messages\n"

/-- Shows the events of a replay behind what has been output, up to the first call that tells none,
    and how that call ended. -/
def showEvents (output : String) (r : Replayer) : Except ReplayError Unit × String × Replayer :=
  match _h : r.next with
  | (.ok (some event), s) => showEvents (output ++ eventLine event) s
  | (.ok none, s) => (.ok (), output, s)
  | (.error error, s) => (.error error, output, s)
termination_by r.pending
decreasing_by exact Replayer.pending_next_lt _h (by simp)

/-- The report on an open log, after what has been output before. -/
def reportLog (output path : String) (r : Replayer) : Report :=
  let (outcome, output, r) := showEvents output r
  match outcome with
  | .ok () => { exitCode := 0, output := output ++ completionLine r.summary }
  | .error error => failure output (s!"failed to decompress {path}" :: replayCauses error)

/-- The report on a catalog file and a log file. Settings are checked first, then the catalog; only
    then is the log opened. -/
def report (o : Options) (catalogFile logFile : FileContent) : Report :=
  match o.config.check with
  | .error error => failure "" ["invalid arguments", error.message]
  | .ok () =>
    match Catalog.ofFile o.catalog catalogFile with
    | .error error => failure "" (error.message :: error.cause?.toList)
    | .ok catalog =>
      let output := s!"Opening file {o.logFile}\n"
      match openLog logFile with
      | .error fault => failure output [s!"failed to open {o.logFile}", fault.message]
      | .ok source =>
        reportLog output o.logFile (Replayer.start source (catalog.registry o.origin) o.config)

/-- How the program is to be used. -/
def usage : String :=
  "Usage: cyclog [OPTIONS] --catalog <CATALOG> <LOG_FILE> [MAX_MESSAGES]\n"

/-- The report for a list of arguments, where `read` tells what is found under a path. -/
def run (arguments : List String) (read : String → FileContent) : Report :=
  match Invocation.ofArguments arguments with
  | .replay options => report options (read options.catalog) (read options.logFile)
  | .version => { exitCode := 0, output := "cyclog 0.1.0\n" }
  | .help => { exitCode := 0, output := usage }
  | .misuse => { exitCode := 2, output := "", errors := errorLine ["invalid arguments"] ++ usage }

end BinaryLog.CommandLine
