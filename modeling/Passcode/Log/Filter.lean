import Passcode.Log

/-! # Filters

A filter is written as directives with commas between them. A directive is a
verbosity for every target (`info`), a name that admits everything from the
targets that begin with it (`disk` or `disk=`), or a name with a verbosity
(`disk=info`). Of the directives that speak about a target the one with the
longest name decides.

- `Directive.read`: one directive, or what is wrong with it.
- `Filter.strict?`: a text in which every directive can be read.
- `Filter.lenient`: a text from which the unreadable directives are dropped.
- `Filter.verbosity`: what a filter admits from a target.

The rules are those of directives in which a name consists of ASCII letters,
digits, `_`, `:` and `-`, without blanks around names, verbosities and the equals
sign. Other texts are read by the same rules, character by character: every
character beyond ASCII passes for a letter, and blanks stay part of the name or
of the verbosity where they stand. Directives with spans or fields are not
covered.
-/

namespace Passcode

/-! ## Reading a verbosity -/

namespace Verbosity

/-- The verbosity of a numeral: its place in the order of loudness. A plus sign
and leading zeros are allowed. -/
def ofNumeral? (cs : List Char) : Option Verbosity :=
  let ds := match cs with
    | '+' :: ds => ds
    | ds => ds
  if ds.isEmpty || !ds.all Char.isDigit then none
  else
    let n := ds.foldl (fun acc d => acc * 10 + (d.toNat - '0'.toNat)) 0
    all.find? fun v => v.rank == n

def ofWord? (cs : List Char) : Option Verbosity :=
  all.find? fun v => v.word.toList == cs.map Char.toLower

def read? (cs : List Char) : Option Verbosity := (ofNumeral? cs).or (ofWord? cs)

end Verbosity

/-! ## Directives -/

/-- A verbosity for the targets that begin with a name. The empty name stands
for every target. -/
structure Directive where
  name : List Char
  verbosity : Verbosity
deriving DecidableEq, Repr

namespace Directive

/-- Why a directive cannot be read: it does not begin as a name does, or its
verbosity is unknown. -/
inductive Flaw where
  | shape
  | level
deriving DecidableEq, Repr

def Flaw.message : Flaw → String
  | shape => "invalid filter directive"
  | level =>
      "error parsing level filter: expected one of \"off\", \"error\", \"warn\", " ++
        "\"info\", \"debug\", \"trace\", or a number 0-5"

/-- A name begins with a letter, a digit or one of the signs `-`, `:` and `_`.
What lies beyond the ASCII characters counts as a letter. -/
def opensName (c : Char) : Bool :=
  c.isAlphanum || c == '-' || c == ':' || c == '_' || '\x7f' < c

def hasName (piece : List Char) : Bool :=
  (piece.find? fun c => !c.isWhitespace).any opensName

/-- Reads a directive. A name without a verbosity admits everything. -/
def read (piece : List Char) : Except Flaw Directive :=
  if !hasName piece then .error .shape else
  match piece.span (· != '=') with
  | (text, []) =>
      match Verbosity.read? text with
      | some v => .ok ⟨[], v⟩
      | none => .ok ⟨text, .upTo .trace⟩
  | (name, [_]) => .ok ⟨name, .upTo .trace⟩
  | (name, _ :: text) =>
      match Verbosity.read? text with
      | some v => .ok ⟨name, v⟩
      | none => .error .level

def read? (piece : List Char) : Option Directive := (read piece).toOption

def warning? (piece : List Char) : Option String :=
  match read piece with
  | .ok _ => none
  | .error flaw => some ("ignoring `" ++ String.ofList piece ++ "`: " ++ flaw.message)

def covers (d : Directive) (target : List Char) : Bool := d.name.isPrefixOf target

/-- Of two directives about one target, the one with the longer name decides,
and the later one when the names are equally long. -/
def prefer (target : List Char) (best : Option Directive) (d : Directive) : Option Directive :=
  if d.covers target && best.all (fun b => b.name.length ≤ d.name.length) then some d else best

end Directive

/-! ## Filters -/

structure Filter where
  directives : List Directive
deriving DecidableEq, Repr

namespace Filter

def pieces (text : String) : List (List Char) :=
  (text.toList.splitOn ',').filter fun piece => !piece.isEmpty

def strict? (text : String) : Option Filter :=
  ((pieces text).mapM Directive.read?).map Filter.mk

def lenient (text : String) : Filter × List String :=
  (⟨(pieces text).filterMap Directive.read?⟩, (pieces text).filterMap Directive.warning?)

/-- What is admitted from a target. A filter without directives admits errors;
a filter that does not speak about the target admits nothing. -/
def verbosity (f : Filter) (target : List Char) : Verbosity :=
  match f.directives with
  | [] => .upTo .error
  | ds => ((ds.foldl (Directive.prefer target) none).map Directive.verbosity).getD .off

/-- The filter in force and the warnings about it: the text from the
environment if there is one and all of it can be read, else the text from the
command line. -/
def choose (environment : Option String) (text : String) : Filter × List String :=
  match environment.bind strict? with
  | some f => (f, [])
  | none => lenient text

end Filter

end Passcode
