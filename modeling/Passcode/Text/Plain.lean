/-! # Plain text

What is quoted in a message must not steer the terminal that shows it. `plain`
removes control sequences and control characters from a text; blanks and line
breaks stay.

A control sequence starts with the escape character. After a left bracket it
goes on to the first letter or sign from `@` to `~`; after a right bracket, to
the bell. One of `P`, `X`, `^` and `_` opens a control string, which goes on to
the next escape character or to the string terminator; after `P` the control
string has a header, in which the terminator does not count. Any other sequence
has one final character. The cancel characters end a sequence of any kind.

What remains is plain (`isPlain_plain`), and the texts that are left as they are
are the plain ones (`plain_eq_self_iff`).
-/

namespace Passcode

namespace Plain

/-! ## Characters -/

/-- A control character that moves on within the text: tabulator, line feed,
form feed or carriage return. -/
def isBreak (c : Char) : Bool := c == '\t' || c == '\n' || c == '\x0c' || c == '\r'

def isShown (c : Char) : Bool := isBreak c || (' ' ≤ c && c != '\x7f')

/-- The string terminator is a byte, and it counts wherever it stands in the
encoding of a character. -/
def terminates (c : Char) : Bool := (String.utf8EncodeChar c).contains 0x9c

/-! ## Control sequences

The escape character opens a sequence, and the character after it tells the
kind. A command to the operating system is opened by a right bracket. The header
of a control string has parameters and intermediates, in this order. -/

inductive Mode where
  | ground  -- outside of control sequences
  | escape
  | short  -- before the one final character
  | bracket
  | command
  | header
  | parameters
  | intermediates
  | string
deriving DecidableEq, Repr

/-- The sequence lets line breaks through. -/
def Mode.yields : Mode → Bool
  | escape | short | bracket => true
  | _ => false

def opened (c : Char) : Mode :=
  if c = '[' then .bracket
  else if c = ']' then .command
  else if c = 'P' then .header
  else if c = 'X' ∨ c = '^' ∨ c = '_' then .string
  else if ' ' ≤ c ∧ c ≤ '/' then .short
  else if '0' ≤ c ∧ c ≤ '~' then .ground
  else .escape

/-- The mode after a character within a mode. Control characters and characters
beyond the ASCII range do not advance a sequence. -/
def Mode.after (m : Mode) (c : Char) : Mode :=
  match m with
  | ground => .ground
  | escape => opened c
  | short => if '0' ≤ c ∧ c ≤ '~' then .ground else .short
  | bracket => if '@' ≤ c ∧ c ≤ '~' then .ground else .bracket
  | command => if c = '\x07' then .ground else .command
  | header =>
      if ' ' ≤ c ∧ c ≤ '/' then .intermediates
      else if '0' ≤ c ∧ c ≤ '?' then .parameters
      else if '@' ≤ c ∧ c ≤ '~' then .string
      else .header
  | parameters =>
      if ' ' ≤ c ∧ c ≤ '/' then .intermediates
      else if '<' ≤ c ∧ c ≤ '~' then .string
      else .parameters
  | intermediates => if '0' ≤ c ∧ c ≤ '~' then .string else .intermediates
  | string => if terminates c then .ground else .string

/-! ## Reading -/

/-- The mode, and whether the sequence is interrupted. A line break interrupts
a sequence that lets it through: what follows is shown, up to the next control
character, and there the sequence goes on. -/
structure State where
  mode : Mode := .ground
  interrupted : Bool := false
deriving DecidableEq, Repr

/-- Reads one character: the state after it, and whether it is shown. A
character beyond the ASCII range ends a sequence that is interrupted. -/
def read (s : State) (c : Char) : State × Bool :=
  if c = '\x1b' then (⟨.escape, false⟩, false)
  else if c = '\x18' ∨ c = '\x1a' then (⟨.ground, false⟩, false)
  else if s.interrupted && isShown c then
    (⟨if c ≤ '\x7f' then s.mode else .ground, true⟩, true)
  else if s.mode.yields && isBreak c then (⟨s.mode, true⟩, true)
  else (⟨s.mode.after c, false⟩, s.mode == .ground && isShown c)

def shown : State → List Char → List Char
  | _, [] => []
  | s, c :: cs =>
      match read s c with
      | (next, true) => c :: shown next cs
      | (next, false) => shown next cs

/-! ## What remains -/

theorem isShown_of_read {s : State} {c : Char} (h : (read s c).2 = true) : isShown c = true := by
  unfold read at h
  split at h
  · simp at h
  split at h
  · simp at h
  split at h
  · next hi => exact (Bool.and_eq_true_iff.1 hi).2
  split at h
  · next hb => simp [isShown, (Bool.and_eq_true_iff.1 hb).2]
  · exact (Bool.and_eq_true_iff.1 h).2

/-- Whatever remains may be shown outside of control sequences. -/
theorem isShown_of_mem_shown {s : State} {cs : List Char} {c : Char} (h : c ∈ shown s cs) :
    isShown c = true := by
  induction cs generalizing s with
  | nil => simp [shown] at h
  | cons d ds ih =>
      rw [shown] at h
      split at h
      · next hr =>
        rcases List.mem_cons.1 h with rfl | h
        · exact isShown_of_read (by rw [hr])
        · exact ih h
      · exact ih h

theorem read_of_isShown {c : Char} (h : isShown c = true) : read {} c = ({}, true) := by
  have hne : c ≠ '\x1b' ∧ c ≠ '\x18' ∧ c ≠ '\x1a' := by
    refine ⟨?_, ?_, ?_⟩ <;> rintro rfl <;> revert h <;> decide
  simp [read, hne, h, Mode.yields, Mode.after]

theorem shown_eq_self {cs : List Char} (h : ∀ c ∈ cs, isShown c = true) : shown {} cs = cs := by
  induction cs with
  | nil => rfl
  | cons c cs ih =>
      rw [shown, read_of_isShown (h c List.mem_cons_self)]
      exact congrArg (c :: ·) (ih fun d hd => h d (List.mem_cons_of_mem c hd))

end Plain

def plain (text : String) : String := String.ofList (Plain.shown {} text.toList)

/-- Every character of the text may be shown. -/
def IsPlain (text : String) : Prop := ∀ c ∈ text.toList, Plain.isShown c = true

instance : DecidablePred IsPlain := fun text =>
  decidable_of_iff (text.toList.all Plain.isShown = true) List.all_eq_true

theorem isPlain_append {s t : String} : IsPlain (s ++ t) ↔ IsPlain s ∧ IsPlain t := by
  simp only [IsPlain, String.toList_append, List.forall_mem_append]

theorem isPlain_plain (text : String) : IsPlain (plain text) := by
  intro c hc
  rw [plain, String.toList_ofList] at hc
  exact Plain.isShown_of_mem_shown hc

theorem plain_eq_self_iff {text : String} : plain text = text ↔ IsPlain text := by
  constructor
  · intro h
    rw [← h]
    exact isPlain_plain text
  · intro h
    rw [plain, Plain.shown_eq_self h, String.ofList_toList]

end Passcode
