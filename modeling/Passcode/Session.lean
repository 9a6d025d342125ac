import Passcode.Search
import Std.Data.TreeMap

/-! # Sessions

A session keeps codes in named registers and one bound, and works on them step
by step. Every step gives an answer or a refusal. A refused step leaves the
session as it was, with one exception: an advance that carries past the first
digit is refused, but its register has moved on.

- `Step`: what can be asked for.
- `Session.perform`: one step.
- `Session.replay`: a list of steps, with the session after each of them.
-/

namespace Passcode

/-! ## Surveys -/

/-- What a scan has seen: how many codes, how many of them with the pattern,
and the first and the last of these. -/
structure Survey where
  checked : Nat := 0
  hits : Nat := 0
  first : Option Code := none
  last : Option Code := none
deriving DecidableEq, Repr

def Survey.visit (s : Survey) (c : Code) : Survey :=
  if c.fits then ⟨s.checked + 1, s.hits + 1, s.first.or (some c), some c⟩
  else { s with checked := s.checked + 1 }

/-! ## Steps and their results

A step writes a register (from a value, from the bound, from another register),
sets the bound, asks about registers, or moves a register on, once or in a scan
that makes at most so many visits. -/

/-- The most visits that one scan may ask for. -/
def scanLimit : Nat := 2000000

inductive Step where
  | seed (register : String) (value : UInt32)
  | bound (upper : UInt32)
  | recall (register : String)
  | copy (source dest : String)
  | compare (left right : String)
  | test (register : String)
  | reached (register : String)
  | advance (register : String)
  | scan (register : String) (visits : UInt32)
  | unreadable
deriving DecidableEq, Repr

inductive Answer where
  | code (c : Code)
  | flag (b : Bool)
  | survey (seen : Survey) (ending : Ending)
deriving DecidableEq, Repr

/-- Why a step gives no answer: an empty register, no bound, a request that makes
no sense, or an operation that failed. -/
inductive Refusal where
  | noCode
  | noBound
  | badRequest
  | fault (f : Fault)
deriving DecidableEq, Repr

/-! ## The session -/

/-- The codes held by name, and the bound, if one has been set. -/
structure Session where
  registers : Std.TreeMap String Code := {}
  bound : Option Bound := none

namespace Session

def get? (s : Session) (name : String) : Option Code := s.registers[name]?

def put (s : Session) (name : String) (c : Code) : Session :=
  { s with registers := s.registers.insert name c }

@[simp]
theorem get?_put_self (s : Session) (name : String) (c : Code) :
    (s.put name c).get? name = some c := by
  simp [get?, put]

theorem get?_put_of_ne (s : Session) {name other : String} (c : Code) (h : other ≠ name) :
    (s.put name c).get? other = s.get? other := by
  simp [get?, put, Std.TreeMap.getElem?_insert, h.symm]

@[simp]
theorem bound_put (s : Session) (name : String) (c : Code) : (s.put name c).bound = s.bound :=
  rfl

/-- The code of a register and the bound. The register is looked at first. -/
def operands (s : Session) (name : String) : Except Refusal (Code × Bound) :=
  match s.get? name, s.bound with
  | none, _ => .error .noCode
  | some _, none => .error .noBound
  | some c, some b => .ok (c, b)

def perform (s : Session) : Step → Session × Except Refusal Answer
  | .seed name value =>
      match Code.ofValue value with
      | .ok c => (s.put name c, .ok (.code c))
      | .error f => (s, .error (.fault f))
  | .bound upper =>
      match Bound.after upper with
      | .ok b => ({ s with bound := some b }, .ok (.code b.code))
      | .error f => (s, .error (.fault f))
  | .recall name =>
      match s.bound with
      | some b => (s.put name b.code, .ok (.code b.code))
      | none => (s, .error .noBound)
  | .copy source dest =>
      match s.get? source with
      | some c => (s.put dest c, .ok (.code c))
      | none => (s, .error .noCode)
  | .compare left right =>
      match s.get? left, s.get? right with
      | some c, some d => (s, .ok (.flag (c == d)))
      | _, _ => (s, .error .noCode)
  | .test name =>
      match s.get? name with
      | some c => (s, .ok (.flag c.fits))
      | none => (s, .error .noCode)
  | .reached name =>
      match s.operands name with
      | .ok (c, b) => (s, .ok (.flag (b.reached c)))
      | .error r => (s, .error r)
  | .advance name =>
      match s.operands name with
      | .ok (c, b) =>
          match c.advance b with
          | (next, .ok more) => (s.put name next, .ok (.flag more))
          | (next, .error f) => (s.put name next, .error (.fault f))
      | .error r => (s, .error r)
  | .scan name visits =>
      if scanLimit < visits.toNat then (s, .error .badRequest) else
      match s.operands name with
      | .ok (c, b) =>
          let walked := walk Survey.visit b visits.toNat {} c
          (s.put name walked.code, .ok (.survey walked.state walked.ending))
      | .error r => (s, .error r)
  | .unreadable => (s, .error .badRequest)

/-- Performs a list of steps and gives the session after each of them together
with the step's result. -/
def replay (s : Session) : List Step → List (Session × Except Refusal Answer)
  | [] => []
  | step :: steps =>
      let done := s.perform step
      done :: done.1.replay steps

end Session

end Passcode
