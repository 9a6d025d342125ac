import Passcode.Proofs.Numbering
import Mathlib.Order.Bounds.Basic

/-! # Reaching a bound

A bound is reached place by place, which is stronger than being at or above it
as a number. So a walk that starts below its bound stops at the bound itself,
and one that starts beyond it goes on to the next number whose digits all stand
high enough. `landing v limit` is that number; it is read off the digits:

- `raise`: keep the digits up to the first that falls short, and take the
  bound's own digits from there on.
- `numeral_raise_le`: nothing smaller is left that reaches the bound.
- `isLeast_landing`, `landing_of_lt`: what this says of numbers.
-/

namespace Passcode

/-! ## Digit sequences of one length -/

/-- A sequence of `n` digits. -/
def DigitSeq (n : Nat) (ds : List UInt8) : Prop :=
  ds.length = n ∧ ∀ d ∈ ds, IsDigit d

theorem digitSeq_decimal (n v : Nat) : DigitSeq n (decimal n v) :=
  ⟨length_decimal n v, isDigit_decimal n v⟩

namespace DigitSeq

variable {n : Nat} {d e : UInt8} {ds es : List UInt8}

theorem eq_nil (h : DigitSeq 0 ds) : ds = [] := List.length_eq_zero_iff.1 h.1

theorem cons (hd : IsDigit d) (h : DigitSeq n ds) :
    DigitSeq (n + 1) (d :: ds) :=
  ⟨by rw [List.length_cons, h.1], List.forall_mem_cons.2 ⟨hd, h.2⟩⟩

theorem exists_cons (h : DigitSeq (n + 1) ds) :
    ∃ d es, ds = d :: es ∧ IsDigit d ∧ DigitSeq n es := by
  obtain ⟨hlen, hdigits⟩ := h
  cases ds with
  | nil => exact absurd hlen (Nat.succ_ne_zero n).symm
  | cons d es =>
      obtain ⟨hd, hes⟩ := List.forall_mem_cons.1 hdigits
      exact ⟨d, es, rfl, hd, Nat.succ.inj hlen, hes⟩

theorem numeral_lt (h : DigitSeq n ds) : numeral ds < 10 ^ n := by
  have hlt := Passcode.numeral_lt h.2
  rwa [h.1] at hlt

theorem decimal_numeral (h : DigitSeq n ds) : decimal n (numeral ds) = ds := by
  have hdec := Passcode.decimal_numeral h.2
  rwa [h.1] at hdec

/-- Numbers of one length are compared by the first digit, then by the rest. -/
theorem numeral_cons_le_iff (hd : IsDigit d) (he : IsDigit e)
    (hds : DigitSeq n ds) (hes : DigitSeq n es) :
    numeral (d :: ds) ≤ numeral (e :: es) ↔
      d < e ∨ d = e ∧ numeral ds ≤ numeral es := by
  have hlds := hds.numeral_lt
  have hles := hes.numeral_lt
  have hd' := isDigit_iff.1 hd
  have he' := isDigit_iff.1 he
  rw [numeral_cons, numeral_cons, hds.1, hes.1, hd.toNat_sub_zero,
    he.toNat_sub_zero, UInt8.lt_iff_toNat_lt]
  constructor
  · intro h
    rcases Nat.lt_trichotomy d.toNat e.toNat with hlt | heq | hgt
    · exact Or.inl hlt
    · rw [heq] at h
      exact Or.inr ⟨UInt8.toNat_inj.1 heq, by omega⟩
    · -- a larger first digit outweighs all the places after it
      have hmul : (e.toNat - 48 + 1) * 10 ^ n ≤ (d.toNat - 48) * 10 ^ n :=
        Nat.mul_le_mul_right _ (by omega)
      rw [Nat.succ_mul] at hmul
      omega
  · rintro (hlt | ⟨rfl, hle⟩)
    · have hmul : (d.toNat - 48 + 1) * 10 ^ n ≤ (e.toNat - 48) * 10 ^ n :=
        Nat.mul_le_mul_right _ (by omega)
      rw [Nat.succ_mul] at hmul
      omega
    · omega

end DigitSeq

/-! ## Place by place -/

theorem atOrAbove_refl (ds : List UInt8) : atOrAbove ds ds = true := by
  induction ds with
  | nil => rfl
  | cons d ds ih => simp [atOrAbove, ih]

theorem atOrAbove_cons {d e : UInt8} {ds es : List UInt8} :
    atOrAbove (d :: ds) (e :: es) = true ↔ e ≤ d ∧ atOrAbove ds es = true := by
  simp [atOrAbove]

/-- What reaches a bound place by place is at or above it as a number. -/
theorem numeral_le_of_atOrAbove {n : Nat} {ds es : List UInt8}
    (hds : DigitSeq n ds) (hes : DigitSeq n es) (h : atOrAbove ds es = true) :
    numeral es ≤ numeral ds := by
  induction n generalizing ds es with
  | zero => rw [hds.eq_nil, hes.eq_nil]
  | succ n ih =>
      obtain ⟨d, ds, rfl, hd, hds⟩ := hds.exists_cons
      obtain ⟨e, es, rfl, he, hes⟩ := hes.exists_cons
      obtain ⟨hle, h⟩ := atOrAbove_cons.1 h
      rw [DigitSeq.numeral_cons_le_iff he hd hes hds]
      rcases UInt8.lt_or_eq_of_le hle with hlt | heq
      · exact Or.inl hlt
      · exact Or.inr ⟨heq, ih hds hes h⟩

/-! ## Raising digits to a bound -/

/-- Keeps the digits up to the first that falls short of the bound's digit, and
takes the bound's own digits from there on. -/
def raise : List UInt8 → List UInt8 → List UInt8
  | d :: ds, e :: es => if e ≤ d then d :: raise ds es else e :: es
  | ds, _ => ds

section Raise

variable {n : Nat} {ds es xs : List UInt8}

theorem digitSeq_raise (hds : DigitSeq n ds) (hes : DigitSeq n es) :
    DigitSeq n (raise ds es) := by
  induction n generalizing ds es with
  | zero => rw [hds.eq_nil]; exact ⟨rfl, by simp [raise]⟩
  | succ n ih =>
      obtain ⟨d, ds, rfl, hd, hds⟩ := hds.exists_cons
      obtain ⟨e, es, rfl, he, hes'⟩ := hes.exists_cons
      rw [raise]
      split
      · exact (ih hds hes').cons hd
      · exact hes

theorem atOrAbove_raise (ds es : List UInt8) :
    atOrAbove (raise ds es) es = true := by
  induction ds generalizing es with
  | nil => simp [raise, atOrAbove]
  | cons d ds ih =>
      cases es with
      | nil => simp [atOrAbove]
      | cons e es =>
          rw [raise]
          split
          · next hle => exact atOrAbove_cons.2 ⟨hle, ih es⟩
          · exact atOrAbove_refl _

theorem le_numeral_raise (hds : DigitSeq n ds) (hes : DigitSeq n es) :
    numeral ds ≤ numeral (raise ds es) := by
  induction n generalizing ds es with
  | zero => rw [hds.eq_nil, hes.eq_nil]; rfl
  | succ n ih =>
      obtain ⟨d, ds, rfl, hd, hds⟩ := hds.exists_cons
      obtain ⟨e, es, rfl, he, hes⟩ := hes.exists_cons
      rw [raise]
      split
      · rw [DigitSeq.numeral_cons_le_iff hd hd hds (digitSeq_raise hds hes)]
        exact Or.inr ⟨rfl, ih hds hes⟩
      · next hlt =>
        rw [DigitSeq.numeral_cons_le_iff hd he hds hes]
        exact Or.inl (UInt8.not_le.1 hlt)

/-- **Minimality.** A number from `ds` on that reaches the bound is at or above
the raised digits. -/
theorem numeral_raise_le (hds : DigitSeq n ds) (hes : DigitSeq n es)
    (hxs : DigitSeq n xs) (hle : numeral ds ≤ numeral xs)
    (hreach : atOrAbove xs es = true) :
    numeral (raise ds es) ≤ numeral xs := by
  induction n generalizing ds es xs with
  | zero => rw [hds.eq_nil, hes.eq_nil]; exact Nat.zero_le _
  | succ n ih =>
      obtain ⟨d, ds', rfl, hd, hds'⟩ := hds.exists_cons
      obtain ⟨e, es', rfl, he, hes'⟩ := hes.exists_cons
      obtain ⟨x, xs', rfl, hx, hxs'⟩ := hxs.exists_cons
      rw [raise]
      split
      · rw [DigitSeq.numeral_cons_le_iff hd hx hds' hxs'] at hle
        rw [DigitSeq.numeral_cons_le_iff hd hx (digitSeq_raise hds' hes') hxs']
        rcases hle with hlt | ⟨hdx, hle⟩
        · exact Or.inl hlt
        · have hrest := (atOrAbove_cons.1 hreach).2
          exact Or.inr ⟨hdx, ih hds' hes' hxs' hle hrest⟩
      · -- the bound's own digits are the least that reach it
        exact numeral_le_of_atOrAbove hxs hes hreach

/-- Digits at or below the bound are raised to the bound itself. -/
theorem raise_of_le (hds : DigitSeq n ds) (hes : DigitSeq n es)
    (hle : numeral ds ≤ numeral es) : raise ds es = es := by
  induction n generalizing ds es with
  | zero => rw [hds.eq_nil, hes.eq_nil]; rfl
  | succ n ih =>
      obtain ⟨d, ds', rfl, hd, hds'⟩ := hds.exists_cons
      obtain ⟨e, es', rfl, he, hes'⟩ := hes.exists_cons
      rw [DigitSeq.numeral_cons_le_iff hd he hds' hes'] at hle
      rw [raise]
      rcases hle with hlt | ⟨hde, hle⟩
      · rw [if_neg (UInt8.not_le.2 hlt)]
      · rw [if_pos (by rw [hde]; exact UInt8.le_refl e), ih hds' hes' hle, hde]

/-- The same by positions: the digits before the first shortfall, then the
bound's. -/
theorem raise_eq_match (hlen : ds.length = es.length) :
    raise ds es =
      match (ds.zip es).findIdx? fun p => p.1 < p.2 with
      | none => ds
      | some i => ds.take i ++ es.drop i := by
  induction ds generalizing es with
  | nil => cases es <;> rfl
  | cons d ds ih =>
      cases es with
      | nil => exact absurd hlen (Nat.succ_ne_zero _)
      | cons e es =>
          rw [raise, List.zip_cons_cons, List.findIdx?_cons]
          by_cases hle : e ≤ d
          · have hlt : ¬d < e := UInt8.not_lt.2 hle
            rw [if_pos hle, ih (Nat.succ.inj hlen)]
            cases (ds.zip es).findIdx? fun p => p.1 < p.2 with
            | none => simp [hlt]
            | some i => simp [hlt]
          · have hlt : d < e := UInt8.not_le.1 hle
            simp [hle, hlt]

end Raise

/-! ## The landing -/

/-- Where a walk from `v` towards `limit` comes to rest: at `v + 1` if none of
its digits is smaller than the limit's digit in the same place; otherwise at the
number made of the digits before the first smaller one and of the limit's digits
from there on. -/
def landing (v limit : Nat) : Nat :=
  let next := decimal width (v + 1)
  let goal := decimal width limit
  match (next.zip goal).findIdx? fun p => p.1 < p.2 with
  | none => v + 1
  | some i => numeral (next.take i ++ goal.drop i)

theorem landing_eq {v limit : Nat} (hv : v + 1 < capacity) :
    landing v limit =
      numeral (raise (decimal width (v + 1)) (decimal width limit)) := by
  rw [raise_eq_match (by simp), landing]
  split
  · exact (numeral_decimal_of_lt hv).symm
  · rfl

theorem digitSeq_raise_decimal (n v limit : Nat) :
    DigitSeq n (raise (decimal n v) (decimal n limit)) :=
  digitSeq_raise (digitSeq_decimal n v) (digitSeq_decimal n limit)

theorem decimal_landing {v limit : Nat} (hv : v + 1 < capacity) :
    decimal width (landing v limit) =
      raise (decimal width (v + 1)) (decimal width limit) := by
  rw [landing_eq hv]
  exact (digitSeq_raise_decimal width (v + 1) limit).decimal_numeral

theorem lt_landing {v limit : Nat} (hv : v + 1 < capacity) :
    v < landing v limit := by
  have hle := le_numeral_raise (digitSeq_decimal width (v + 1))
    (digitSeq_decimal width limit)
  rw [numeral_decimal_of_lt hv] at hle
  rw [landing_eq hv]
  exact hle

theorem landing_lt {v limit : Nat} (hv : v + 1 < capacity) :
    landing v limit < capacity := by
  rw [landing_eq hv]
  exact (digitSeq_raise_decimal width (v + 1) limit).numeral_lt

/-- A walk that starts below its limit comes to rest at the limit. -/
theorem landing_of_lt {v limit : Nat} (hv : v < limit)
    (hlimit : limit < capacity) : landing v limit = limit := by
  have hv' : v + 1 < capacity := Nat.lt_of_le_of_lt hv hlimit
  have hle :
      numeral (decimal width (v + 1)) ≤ numeral (decimal width limit) := by
    rw [numeral_decimal_of_lt hv', numeral_decimal_of_lt hlimit]
    exact hv
  have hraise := raise_of_le (digitSeq_decimal width (v + 1))
    (digitSeq_decimal width limit) hle
  rw [landing_eq hv', hraise, numeral_decimal_of_lt hlimit]

namespace Bound

variable {bound : Bound} {v x : Nat}

theorem reached_ofNat (hb : bound.code.Decimal) (x : Nat) :
    bound.reached (Code.ofNat x) =
      atOrAbove (decimal width x) (decimal width bound.code.value) := by
  conv_lhs => rw [Bound.reached, ← hb.ofNat_value]
  rfl

theorem reached_landing (hb : bound.code.Decimal) (hv : v + 1 < capacity) :
    bound.reached (Code.ofNat (landing v bound.code.value)) = true := by
  rw [reached_ofNat hb, decimal_landing hv]
  exact atOrAbove_raise _ _

theorem landing_le (hb : bound.code.Decimal) (hv : v + 1 < capacity)
    (hvx : v < x) (hx : x < capacity)
    (h : bound.reached (Code.ofNat x) = true) :
    landing v bound.code.value ≤ x := by
  rw [reached_ofNat hb] at h
  have hvx' : numeral (decimal width (v + 1)) ≤ numeral (decimal width x) := by
    rw [numeral_decimal_of_lt hv, numeral_decimal_of_lt hx]
    exact hvx
  have hle := numeral_raise_le (digitSeq_decimal _ _) (digitSeq_decimal _ _)
    (digitSeq_decimal _ _) hvx' h
  rwa [← landing_eq hv, numeral_decimal_of_lt hx] at hle

/-- **The landing** is the least number above `v` that has reached the bound. -/
theorem isLeast_landing (hb : bound.code.Decimal) (hv : v + 1 < capacity) :
    IsLeast {x | v < x ∧ x < capacity ∧ bound.reached (Code.ofNat x) = true}
      (landing v bound.code.value) := by
  constructor
  · exact ⟨lt_landing hv, landing_lt hv, reached_landing hb hv⟩
  · rintro x ⟨hvx, hx, hreach⟩
    exact landing_le hb hv hvx hx hreach

end Bound

end Passcode
