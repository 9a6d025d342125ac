import Passcode.Log.Filter
import Passcode.Search
import Passcode.Text.Plain

/-! # The command

The command searches the standard span and prints the tally. The arguments and
the environment decide which events of the search are logged, and nothing else.

The arguments are read from left to right, and the first one that asks for
help or the version, or that cannot be understood, settles the request. If
there is none, a search is asked for.

A use of the log level option whose value is an argument of its own is settled
late: only the next option that is known, or the end of the arguments, shows
whether its value is missing or the option is used a second time. An argument
that cannot be understood is therefore reported before such a use.

- `Request.read`: what a list of arguments asks for.
- `Command.run`: what a run of the command leaves behind.
-/

namespace Passcode

/-! ## One argument -/

/-- The form of an argument, told by its dashes: two of them alone, after which
no options follow, an option with a long name, an option of one letter with
further letters joined to it, or anything else, a lone dash included. -/
inductive Argument where
  | separator
  | long (name : String) (value : Option String)  -- the value after `=`
  | short (flag : Char) (joined : List Char)
  | plain (text : String)
deriving DecidableEq, Repr

def Argument.ofString (arg : String) : Argument :=
  match arg.toList with
  | ['-', '-'] => .separator
  | '-' :: '-' :: cs =>
      match cs.span (· != '=') with
      | (name, []) => .long (String.ofList name) none
      | (name, _ :: value) => .long (String.ofList name) (some (String.ofList value))
  | '-' :: flag :: joined => .short flag joined
  | _ => .plain arg

/-! ## Requests -/

inductive Request where
  | help
  | version
  | search (filter : String)
deriving DecidableEq, Repr

inductive UsageError where
  | unexpected (arg : String)  -- an unknown option, or an argument too many
  | unexpectedValue (value option : String)
  | missingValue
  | repeated
deriving DecidableEq, Repr

/-- The line that reports a usage error. What it quotes from the command line
is shown as plain text. -/
def UsageError.message : UsageError → String
  | unexpected arg => "error: unexpected argument '" ++ plain arg ++ "' found"
  | unexpectedValue value option =>
      "error: unexpected value '" ++ plain value ++ "' for '" ++ option ++
        "' found; no more were expected"
  | missingValue =>
      "error: a value is required for '--log-level <LOG_LEVEL>' but none was supplied"
  | repeated => "error: the argument '--log-level <LOG_LEVEL>' cannot be used multiple times"

namespace Request

def defaultFilter : String := "warn"

/-- The use of the log level option that has not been settled, if there is one. -/
inductive Use where
  | absent
  | bare  -- the value has not been read
  | valued (value : String)
deriving DecidableEq, Repr

/-- Settles a use of the log level option, given the value of the uses before
it. A missing value is reported before a repeated use. -/
def settle : Option String → Use → Except UsageError (Option String)
  | filter, .absent => .ok filter
  | _, .bare => .error .missingValue
  | none, .valued value => .ok (some value)
  | some _, .valued _ => .error .repeated

def finish (filter : Option String) (use : Use) : Except UsageError Request :=
  (settle filter use).map fun settled => .search (settled.getD defaultFilter)

/-- Reads the arguments that remain. `filter` is the settled value of the log
level option, `use` the use of it that waits to be settled. -/
def readFrom (filter : Option String) (use : Use) : List String → Except UsageError Request
  | [] => finish filter use
  | arg :: rest =>
      match Argument.ofString arg with
      | .separator =>
          match rest with
          | [] => finish filter use
          | text :: _ => .error (.unexpected text)
      | .plain text =>
          match use with
          | .bare => readFrom filter (.valued text) rest
          | _ => .error (.unexpected text)
      | .short flag _ =>
          if flag = 'h' then (settle filter use).map fun _ => .help
          else if flag = 'V' then (settle filter use).map fun _ => .version
          else .error (.unexpected (String.ofList ['-', flag]))
      | .long "help" none => (settle filter use).map fun _ => .help
      | .long "help" (some value) => .error (.unexpectedValue value "--help")
      | .long "version" none => (settle filter use).map fun _ => .version
      | .long "version" (some value) => .error (.unexpectedValue value "--version")
      | .long "log-level" none =>
          match settle filter use with
          | .error e => .error e
          | .ok settled => readFrom settled .bare rest
      | .long "log-level" (some value) =>
          match (settle filter use).bind fun settled => settle settled (.valued value) with
          | .error e => .error e
          | .ok settled => readFrom settled .absent rest
      | .long name _ => .error (.unexpected ("--" ++ name))

def read (args : List String) : Except UsageError Request := readFrom none .absent args

end Request

/-! ## Runs -/

/-- What a run of the command leaves behind. The error stream is given line by
line. -/
structure Outcome where
  exit : UInt8 := 0
  stdout : String := ""
  stderr : List String := []
deriving DecidableEq, Repr

namespace Command

def helpText : String :=
  "Count passwords in the fixed search range\n\n" ++
  "Usage: password-count [OPTIONS]\n\n" ++
  "Options:\n" ++
  "      --log-level <LOG_LEVEL>  " ++
    "Log level (trace, debug, info, warn, error) [default: warn]\n" ++
  "  -h, --help                   Print help\n" ++
  "  -V, --version                Print version\n"

def versionText : String := "password-count 0.1.0\n"

/-- What a search leaves behind. The warnings about the filter stand before the
log, and a fault after it. -/
def ofReport (warnings : List String) (report : Report) : Outcome :=
  let stderr := warnings ++ report.events.map Event.line
  match report.result with
  | .ok tally => { stdout := tally.text ++ "\n", stderr }
  | .error fault => { exit := 1, stderr := stderr ++ ["Error: " ++ fault.detail] }

def searchOutcome (filter : Filter) (warnings : List String) : Outcome :=
  ofReport warnings (search Span.standard (filter.verbosity Event.target.toList))

/-- Runs the command with its arguments and the filter text of the environment,
if that is set. -/
def run (args : List String) (environment : Option String) : Outcome :=
  match Request.read args with
  | .error e => { exit := 2, stderr := [e.message] }
  | .ok .help => { stdout := helpText }
  | .ok .version => { stdout := versionText }
  | .ok (.search text) =>
      let (filter, warnings) := Filter.choose environment text
      searchOutcome filter warnings

end Command

end Passcode
