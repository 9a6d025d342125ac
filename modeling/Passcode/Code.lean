/-! # Codes

A code is six decimal digits, kept as the ASCII bytes that show them, most
significant first. It is written from a number below one million, padded with
zeros, and read back digit by digit. Codes are counted through like the wheels
of an odometer, up to a bound, and tested for a pattern in their digits.

- `decimal`, `numeral`: the digits of a number, and the number of digits.
- `Code`: six bytes. That the bytes are digits is not part of the type; it is
  the predicate `Code.Decimal`, which every operation keeps.
- `turn`: one turn of the odometer, for wheels of any number.
- `Bound`: the code one past the last one to be tested, and when it is reached.
- `Scan`, `Pattern`: the test in one pass, and what it looks for.
-/

namespace Passcode

/-! ## Faults -/

/-- Why there is no result: the ends of a span are in the wrong order, a number
needs a seventh digit, or the carry ran past the first digit. The candidate is
the text that is left behind in this case. -/
inductive Fault where
  | inverted (lower upper : UInt32)
  | tooWide (value : UInt32)
  | carryOut (candidate : String)
deriving DecidableEq, Repr

def Fault.message : Fault → String
  | .inverted lower upper =>
      s!"lower bound {lower.toNat} is above upper bound {upper.toNat}"
  | .tooWide value => s!"{value.toNat} does not fit in a six digit password"
  | .carryOut candidate => s!"carry overflowed past the first digit after {candidate}"

/-- The fault by its kind and its fields. A candidate is the text of a code, so
there is nothing to escape between the quotes. -/
def Fault.detail : Fault → String
  | .inverted lower upper =>
      s!"InvertedRange \x7b lower: {lower.toNat}, upper: {upper.toNat} \x7d"
  | .tooWide value => s!"TooWide \x7b value: {value.toNat} \x7d"
  | .carryOut candidate => s!"CarryOverflow \x7b candidate: \"{candidate}\" \x7d"

/-! ## Digits -/

/-- Number of digits of a code. -/
def width : Nat := 6

/-- Number of different codes. -/
def capacity : Nat := 1000000

def zero : UInt8 := 48

def nine : UInt8 := 57

def IsDigit (b : UInt8) : Prop := zero ≤ b ∧ b ≤ nine

instance (b : UInt8) : Decidable (IsDigit b) :=
  inferInstanceAs (Decidable (_ ∧ _))

theorem isDigit_iff {b : UInt8} : IsDigit b ↔ 48 ≤ b.toNat ∧ b.toNat ≤ 57 := by
  simp [IsDigit, zero, nine, UInt8.le_iff_toNat_le]

theorem isDigit_zero : IsDigit zero := by decide

theorem IsDigit.toNat_sub_zero {b : UInt8} (h : IsDigit b) :
    (b - zero).toNat = b.toNat - 48 :=
  UInt8.toNat_sub_of_le b zero h.1

/-- The byte after a digit is at most the one after nine, and it does not wrap
around. -/
theorem IsDigit.toNat_add_one {b : UInt8} (h : IsDigit b) :
    (b + 1).toNat = b.toNat + 1 ∧ (b + 1).toNat ≤ 58 := by
  have hb := isDigit_iff.1 h
  have hadd : (b + 1).toNat = b.toNat + 1 := by
    rw [UInt8.toNat_add]
    exact Nat.mod_eq_of_lt (by simp; omega)
  exact ⟨hadd, by omega⟩

theorem add_one_le_nine_iff {d : UInt8} (h : IsDigit d) : d + 1 ≤ nine ↔ d.toNat < 57 := by
  rw [UInt8.le_iff_toNat_le, h.toNat_add_one.1]
  rfl

theorem IsDigit.add_one {d : UInt8} (h : IsDigit d) (hle : d + 1 ≤ nine) : IsDigit (d + 1) := by
  have hd := isDigit_iff.1 h
  have hlt := (add_one_le_nine_iff h).1 hle
  rw [isDigit_iff, h.toNat_add_one.1]
  omega

/-! ## Digit sequences -/

/-- The last `n` decimal digits of `v`, most significant first. They are found
from the right: the last one first, then those of a tenth of `v`. -/
def decimal : Nat → Nat → List UInt8
  | 0, _ => []
  | n + 1, v => decimal n (v / 10) ++ [zero + (v % 10).toUInt8]

/-- The number that a sequence of digits denotes. -/
def numeral (digits : List UInt8) : Nat :=
  digits.foldl (fun acc b => acc * 10 + (b - zero).toNat) 0

@[simp]
theorem length_decimal (n v : Nat) : (decimal n v).length = n := by
  induction n generalizing v with
  | zero => rfl
  | succ n ih => simp [decimal, ih]

theorem toNat_zero_add (v : Nat) : (zero + (v % 10).toUInt8).toNat = 48 + v % 10 := by
  rw [UInt8.toNat_add]
  simp [zero]
  omega

theorem isDigit_zero_add (v : Nat) : IsDigit (zero + (v % 10).toUInt8) := by
  rw [isDigit_iff, toNat_zero_add]
  omega

theorem isDigit_decimal (n v : Nat) : ∀ d ∈ decimal n v, IsDigit d := by
  induction n generalizing v with
  | zero => simp [decimal]
  | succ n ih =>
      intro d hd
      rcases List.mem_append.1 hd with hd | hd
      · exact ih (v / 10) d hd
      · rw [List.mem_singleton.1 hd]
        exact isDigit_zero_add v

/-! ## The type -/

@[ext]
structure Code where
  digits : List UInt8
  length_digits : digits.length = width
deriving DecidableEq, Repr

namespace Code

def Decimal (c : Code) : Prop := ∀ b ∈ c.digits, IsDigit b

instance (c : Code) : Decidable c.Decimal :=
  inferInstanceAs (Decidable (∀ b ∈ c.digits, IsDigit b))

/-- The code of `v` modulo one million. -/
def ofNat (v : Nat) : Code := ⟨decimal width v, length_decimal width v⟩

/-- The code that shows `value`, padded with zeros. A value that needs a
seventh digit is refused. -/
def ofValue (value : UInt32) : Except Fault Code :=
  if value.toNat < capacity then .ok (ofNat value.toNat) else .error (.tooWide value)

def value (c : Code) : Nat := numeral c.digits

def text (c : Code) : String := String.ofList (c.digits.map fun b => Char.ofNat b.toNat)

end Code

/-! ## The odometer

The last wheel is turned by one, and a wheel that passes nine shows zero again
and turns the wheel before it. -/

/-- Turns the last wheel by one and carries to the left. The flag is set when
the carry leaves the first wheel. -/
def turn : List UInt8 → List UInt8 × Bool
  | [] => ([], true)
  | d :: ds =>
      match turn ds with
      | (rest, false) => (d :: rest, false)
      | (rest, true) =>
          if d + 1 ≤ nine then ((d + 1) :: rest, false) else (zero :: rest, true)

@[simp]
theorem length_turn (ds : List UInt8) : (turn ds).1.length = ds.length := by
  induction ds with
  | nil => rfl
  | cons d ds ih => rw [turn]; split <;> (try split) <;> simp_all

theorem turn_cons_of_stop {d : UInt8} {ds : List UInt8} (h : (turn ds).2 = false) :
    turn (d :: ds) = (d :: (turn ds).1, false) := by
  rw [turn]
  split <;> simp_all

theorem turn_cons_of_carry {d : UInt8} {ds : List UInt8} (h : (turn ds).2 = true) :
    turn (d :: ds) =
      if d + 1 ≤ nine then ((d + 1) :: (turn ds).1, false) else (zero :: (turn ds).1, true) := by
  rw [turn]
  split <;> simp_all

theorem isDigit_turn {ds : List UInt8} (h : ∀ d ∈ ds, IsDigit d) :
    ∀ d ∈ (turn ds).1, IsDigit d := by
  induction ds with
  | nil => exact h
  | cons d ds ih =>
      have hd : IsDigit d := h d List.mem_cons_self
      have ih := ih fun e he => h e (List.mem_cons_of_mem d he)
      cases hc : (turn ds).2 with
      | false =>
          rw [turn_cons_of_stop hc]
          exact List.forall_mem_cons.2 ⟨hd, ih⟩
      | true =>
          rw [turn_cons_of_carry hc]
          split
          · next hle => exact List.forall_mem_cons.2 ⟨hd.add_one hle, ih⟩
          · exact List.forall_mem_cons.2 ⟨isDigit_zero, ih⟩

namespace Code

def turned (c : Code) : Code × Bool :=
  (⟨(turn c.digits).1, (length_turn c.digits).trans c.length_digits⟩, (turn c.digits).2)

/-- The code after this one. After the last code comes the first. -/
def next (c : Code) : Code := c.turned.1

def carries (c : Code) : Bool := c.turned.2

end Code

/-! ## Bounds

A bound is reached when each digit stands at or above the bound's digit in the
same place. This is not the order of numbers: 900000 has not reached 123456. -/

structure Bound where
  code : Code
deriving DecidableEq, Repr

def atOrAbove : List UInt8 → List UInt8 → Bool
  | d :: ds, e :: es => e ≤ d && atOrAbove ds es
  | _, _ => true

namespace Bound

/-- The bound that admits `upper` as the last value. The largest word has no
successor and is itself reported as too wide. -/
def after (upper : UInt32) : Except Fault Bound :=
  if upper.toNat + 1 < UInt32.size then (Code.ofValue (upper + 1)).map Bound.mk
  else .error (.tooWide upper)

def reached (bound : Bound) (c : Code) : Bool := atOrAbove c.digits bound.code.digits

end Bound

/-- Moves a code on by one. The answer says whether there is more to come
before the bound; a carry past the first digit is a fault. The code has moved
in either case. -/
def Code.advance (c : Code) (bound : Bound) : Code × Except Fault Bool :=
  match c.turned with
  | (after, true) => (after, .error (.carryOut after.text))
  | (after, false) => (after, .ok (!bound.reached after))

theorem Code.advance_fst (c : Code) (bound : Bound) : (c.advance bound).1 = c.next := by
  unfold advance next
  split <;> simp_all

theorem Code.advance_snd (c : Code) (bound : Bound) :
    (c.advance bound).2 =
      if c.carries then .error (.carryOut c.next.text) else .ok (!bound.reached c.next) := by
  unfold advance next carries
  split <;> simp_all

/-! ## The digit pattern

A code matches when its digits never fall from left to right and one block of
equal digits has exactly two members. The scan reads the digits once, from the
left. It keeps the last digit, how often it has been repeated in its block, and
whether an earlier block had two members. -/

structure Scan where
  last : UInt8
  repeats : Nat
  sawPair : Bool
deriving DecidableEq, Repr

namespace Scan

/-- Before the first digit. The byte below zero differs from every digit and
lies below them all, so the first digit opens a block. -/
def start : Scan := ⟨zero - 1, 0, false⟩

def pairSeen (s : Scan) : Bool := s.sawPair || s.repeats == 1

def read (s : Scan) (d : UInt8) : Scan :=
  if d = s.last then { s with repeats := s.repeats + 1 } else ⟨d, 0, s.pairSeen⟩

/-- Reads the remaining digits. A digit that falls below the one before it
refuses the sequence at once. -/
def accepts : Scan → List UInt8 → Bool
  | s, [] => s.pairSeen  -- the open block counts, too
  | s, d :: ds => if d < s.last then false else (s.read d).accepts ds

end Scan

/-- The digits never fall, and some maximal block of equal neighbours has two
members. Whether the digits are bytes or numbers makes no difference. -/
def Pattern {α : Type} [LE α] [BEq α] (digits : List α) : Prop :=
  digits.Pairwise (· ≤ ·) ∧ ∃ block ∈ digits.splitBy (· == ·), block.length = 2

instance {α : Type} [LE α] [DecidableLE α] [BEq α] (digits : List α) :
    Decidable (Pattern digits) :=
  inferInstanceAs (Decidable (_ ∧ _))

def Code.fits (c : Code) : Bool := Scan.start.accepts c.digits

end Passcode
