import Passcode.Code

/-! # The log of a search

A search tells when it starts, what it finds and how it ends. Each of these
events has a level of severity, a message and named fields, and is shown on one
line. A log keeps the events that its verbosity admits, in the order in which
they were emitted.
-/

namespace Passcode

/-! ## Levels and verbosities

Levels are ranked from `error`, the most severe, to `trace`. A level has a word
that asks for it and a name under which events show it. -/

inductive Level where
  | error | warn | info | debug | trace
deriving DecidableEq, Repr

namespace Level

def all : List Level := [error, warn, info, debug, trace]

def rank : Level → Nat
  | error => 1
  | warn => 2
  | info => 3
  | debug => 4
  | trace => 5

def word : Level → String
  | error => "error"
  | warn => "warn"
  | info => "info"
  | debug => "debug"
  | trace => "trace"

def name : Level → String
  | error => "ERROR"
  | warn => "WARN"
  | info => "INFO"
  | debug => "DEBUG"
  | trace => "TRACE"

/-- The level that a word asks for, letter for letter. -/
def ofWord? (s : String) : Option Level := all.find? fun l => l.word == s

end Level

/-- Which events are kept: none, or those up to a level. -/
inductive Verbosity where
  | off
  | upTo (level : Level)
deriving DecidableEq, Repr

namespace Verbosity

def all : List Verbosity := off :: Level.all.map upTo

def rank : Verbosity → Nat
  | off => 0
  | upTo level => level.rank

def admits (v : Verbosity) (l : Level) : Bool := l.rank ≤ v.rank

def word : Verbosity → String
  | off => "off"
  | upTo level => level.word

end Verbosity

/-! ## Tallies -/

/-- How many codes were tested and how many of them had the pattern. -/
structure Tally where
  checked : UInt32 := 0
  possibilities : UInt32 := 0
deriving DecidableEq, Repr

namespace Tally

def count (t : Tally) (fits : Bool) : Tally :=
  ⟨t.checked + 1, if fits then t.possibilities + 1 else t.possibilities⟩

def text (t : Tally) : String :=
  s!"Matches: {t.possibilities.toNat}/{t.checked.toNat}"

end Tally

/-! ## Events -/

inductive Event where
  | searching (start bound : Code)
  | found (code : Code)
  | finished (tally : Tally)
deriving DecidableEq, Repr

inductive Event.Value where
  | text (s : String)
  | number (n : Nat)
deriving DecidableEq, Repr

/-- A value as it stands on a log line, without quotes. -/
def Event.Value.display : Event.Value → String
  | text s => s
  | number n => toString n

namespace Event

/-- The name under which a search writes its events. -/
def target : String := "password_count::driver"

def level : Event → Level
  | searching _ _ => .debug
  | found _ => .trace
  | finished _ => .info

def message : Event → String
  | searching _ _ => "searching passwords"
  | found _ => "match"
  | finished _ => "search finished"

/-- The named values of an event, in the order in which they are shown. -/
def fields : Event → List (String × Value)
  | searching start bound => [("start", .text start.text), ("limit", .text bound.text)]
  | found code => [("password", .text code.text)]
  | finished tally =>
      [("checked", .number tally.checked.toNat),
       ("possibilities", .number tally.possibilities.toNat)]

def line (e : Event) : String :=
  let head := s!"{e.level.name} {target}: {e.message}"
  e.fields.foldl (fun acc f => acc ++ " " ++ f.1 ++ "=" ++ f.2.display) head

end Event

/-! ## Logs -/

structure Log where
  verbosity : Verbosity
  events : Array Event := #[]

namespace Log

/-- Adds an event if the verbosity admits its level. -/
def emit (log : Log) (e : Event) : Log :=
  if log.verbosity.admits e.level then { log with events := log.events.push e } else log

@[simp]
theorem toList_emit (log : Log) (e : Event) :
    (log.emit e).events.toList =
      log.events.toList ++ if log.verbosity.admits e.level then [e] else [] := by
  unfold emit
  split <;> simp

@[simp]
theorem verbosity_emit (log : Log) (e : Event) : (log.emit e).verbosity = log.verbosity := by
  unfold emit
  split <;> rfl

end Log

end Passcode
