import Passcode.Log

/-! # Searches

A search walks through a span of values, counts the codes it tests and those
that have the pattern, and logs its start, every find and its end.

- `Span`: the values to be searched, and which spans can be.
- `walk`: visits code after code until there is a reason to stop.
- `search`: the tally together with the events that a verbosity admits. A span
  that cannot be searched gives a fault and no event.
-/

namespace Passcode

/-! ## Spans -/

/-- A range of values, both ends included. -/
structure Span where
  lower : UInt32
  upper : UInt32
deriving DecidableEq, Repr

namespace Span

def standard : Span := ⟨357253, 892942⟩

/-- A span can be searched when its ends are in order and the code after its
upper end exists. -/
def validate (span : Span) : Except Fault Unit :=
  if span.upper < span.lower then .error (.inverted span.lower span.upper)
  else (Bound.after span.upper).map fun _ => ()

def ends (span : Span) : Except Fault (Code × Bound) := do
  span.validate
  let start ← Code.ofValue span.lower
  let bound ← Bound.after span.upper
  return (start, bound)

end Span

/-! ## Walks

A walk visits a code, moves on to the next one and goes on until the bound is
reached, the odometer carries out, or the given number of visits has been made.
What a visit does to the walker's own state is up to the caller. -/

inductive Ending where
  | reached
  | exhausted  -- all visits were made, and none of them was the last
  | failed (fault : Fault)
deriving DecidableEq, Repr

structure Walk (σ : Type) where
  state : σ
  code : Code
  ending : Ending

/-- Makes at most `visits` visits from `code` on. Each visit comes before the
step that may end the walk, so the first code is always visited. -/
@[specialize]
def walk {σ : Type} (visit : σ → Code → σ) (bound : Bound) : Nat → σ → Code → Walk σ
  | 0, state, code => ⟨state, code, .exhausted⟩
  | visits + 1, state, code =>
      match code.advance bound with
      | (next, .ok true) => walk visit bound visits (visit state code) next
      | (next, .ok false) => ⟨visit state code, next, .reached⟩
      | (next, .error fault) => ⟨visit state code, next, .failed fault⟩

/-! ## Searching -/

/-- What a search has counted and logged so far. -/
structure Progress where
  log : Log
  tally : Tally := {}

def Progress.visit (p : Progress) (c : Code) : Progress :=
  if c.fits then ⟨p.log.emit (.found c), p.tally.count true⟩
  else ⟨p.log, p.tally.count false⟩

structure Report where
  events : List Event
  result : Except Fault Tally

/-- The search from a code to a bound, which succeeds when the bound is reached.
There are `capacity` codes, so a walk from digits stops within as many visits
(`ending_walk_capacity_ne_exhausted`). One that did not would have come round,
which is a carry. -/
def searchFrom (start : Code) (bound : Bound) (verbosity : Verbosity) : Report :=
  let log := Log.emit { verbosity } (.searching start bound.code)
  let walked := walk Progress.visit bound capacity { log } start
  let tally := walked.state.tally
  match walked.ending with
  | .reached => ⟨(walked.state.log.emit (.finished tally)).events.toList, .ok tally⟩
  | .exhausted => ⟨walked.state.log.events.toList, .error (.carryOut walked.code.text)⟩
  | .failed fault => ⟨walked.state.log.events.toList, .error fault⟩

/-- Tests every code of a span, the lowest first. -/
def search (span : Span) (verbosity : Verbosity) : Report :=
  match span.ends with
  | .error fault => ⟨[], .error fault⟩
  | .ok (start, bound) => searchFrom start bound verbosity

end Passcode
