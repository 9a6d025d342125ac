import Passcode.Proofs.Reach

/-! # Reaching without a borrow

A code has reached a bound when it can be lowered to the bound place by place:
no digit of the number is smaller than the digit that is taken away. In school
arithmetic this is a subtraction without a borrow, and such a subtraction can be
told by its digit sums, because every borrow costs nine.

- `atOrAbove_decimal_iff`: the places of two codes are the decimal places of
  their numbers.
- `digitSum_add_eq_iff`: digit sums add up exactly when no place carries.
- `Reaches`: reaching as a relation between numbers.
- `reaching_needs_no_borrow`: both together, and the order that they make.
-/

namespace Passcode

/-! ## Places -/

theorem atOrAbove_concat {d e : UInt8} {ds es : List UInt8}
    (hlen : ds.length = es.length) :
    atOrAbove (ds ++ [d]) (es ++ [e]) = true ↔
      atOrAbove ds es = true ∧ e ≤ d := by
  induction ds generalizing es with
  | nil =>
      rw [List.length_eq_zero_iff.1 hlen.symm]
      simp [atOrAbove]
  | cons a ds ih =>
      cases es with
      | nil => exact absurd hlen (Nat.succ_ne_zero _)
      | cons b es =>
          rw [List.cons_append, List.cons_append, atOrAbove_cons,
            atOrAbove_cons, ih (Nat.succ.inj hlen), and_assoc]

theorem zero_add_le_zero_add_iff {v w : Nat} :
    zero + (v % 10).toUInt8 ≤ zero + (w % 10).toUInt8 ↔ v % 10 ≤ w % 10 := by
  rw [UInt8.le_iff_toNat_le, toNat_zero_add, toNat_zero_add]
  exact Nat.add_le_add_iff_left

theorem div_pow_succ (v k : Nat) : v / 10 ^ (k + 1) = v / 10 / 10 ^ k := by
  rw [Nat.pow_succ', Nat.div_div_eq_div_mul]

/-- Bytes are compared as the decimal places of the numbers are. -/
theorem atOrAbove_decimal_iff (n v limit : Nat) :
    atOrAbove (decimal n v) (decimal n limit) = true ↔
      ∀ k < n, limit / 10 ^ k % 10 ≤ v / 10 ^ k % 10 := by
  -- the places are written from the right, so the units are taken off first
  induction n generalizing v limit with
  | zero => simp [decimal, atOrAbove]
  | succ n ih =>
      rw [decimal, decimal, atOrAbove_concat (by simp), ih,
        zero_add_le_zero_add_iff, Nat.forall_lt_succ_left, and_comm]
      simp only [div_pow_succ, Nat.pow_zero, Nat.div_one]

/-! ## Digit sums -/

/-- The sum of the decimal digits. -/
def digitSum (v : Nat) : Nat := (Nat.digits 10 v).sum

theorem digitSum_eq (v : Nat) : digitSum v = v % 10 + digitSum (v / 10) := by
  rcases Nat.eq_zero_or_pos v with rfl | hpos
  · rfl
  · rw [digitSum, Nat.digits_def' (by decide) hpos, List.sum_cons]
    rfl

/-- Digit sums only get smaller under addition, also with a carry coming in. -/
theorem digitSum_add_add_le {a b c : Nat} (hc : c ≤ 1) :
    digitSum (a + b + c) ≤ digitSum a + digitSum b + c := by
  induction hn : a + b + c using Nat.strong_induction_on generalizing a b c with
  | _ n ih =>
      rcases Nat.eq_zero_or_pos n with rfl | hpos
      · exact Nat.zero_le _
      · -- what the units carry goes into the sum of the tens
        have hcarry : (a % 10 + b % 10 + c) / 10 ≤ 1 := by omega
        have htens : a / 10 + b / 10 + (a % 10 + b % 10 + c) / 10 = n / 10 := by
          omega
        have ih := ih (n / 10) (by omega) hcarry htens
        rw [digitSum_eq n, digitSum_eq a, digitSum_eq b]
        omega

/-- **Digit sums add up exactly when no place carries**, that is, when no digit
of the sum is smaller than the digit of a summand. -/
theorem digitSum_add_eq_iff {n a b : Nat} (h : a + b < 10 ^ n) :
    digitSum (a + b) = digitSum a + digitSum b ↔
      ∀ k < n, a / 10 ^ k % 10 ≤ (a + b) / 10 ^ k % 10 := by
  induction n generalizing a b with
  | zero =>
      obtain ⟨rfl, rfl⟩ : a = 0 ∧ b = 0 := by omega
      simp [digitSum]
  | succ n ih =>
      rw [Nat.forall_lt_succ_left, digitSum_eq (a + b), digitSum_eq a,
        digitSum_eq b]
      simp only [div_pow_succ, Nat.pow_zero, Nat.div_one]
      rw [Nat.pow_succ] at h
      by_cases hunits : a % 10 + b % 10 < 10
      · -- the units add up, and the tens decide
        have htens : (a + b) / 10 = a / 10 + b / 10 := by omega
        have hle : a % 10 ≤ (a + b) % 10 := by omega
        rw [htens, ← ih (by omega), and_iff_right hle]
        omega
      · -- the units carry, and nine is lost for good
        have htens : (a + b) / 10 = a / 10 + b / 10 + 1 := by omega
        have hlt : ¬a % 10 ≤ (a + b) % 10 := by omega
        have hloss := digitSum_add_add_le (a := a / 10) (b := b / 10) le_rfl
        rw [htens, iff_false_right (fun hplaces => hlt hplaces.1)]
        omega

/-! ## Bounds -/

theorem le_of_places_le {n v limit : Nat} (hv : v < 10 ^ n)
    (hlimit : limit < 10 ^ n)
    (h : ∀ k < n, limit / 10 ^ k % 10 ≤ v / 10 ^ k % 10) : limit ≤ v := by
  have hle := numeral_le_of_atOrAbove (digitSeq_decimal n v)
    (digitSeq_decimal n limit) ((atOrAbove_decimal_iff n v limit).2 h)
  rwa [numeral_decimal, numeral_decimal, Nat.mod_eq_of_lt hv,
    Nat.mod_eq_of_lt hlimit] at hle

/-- The places allow the subtraction without a borrow. -/
theorem places_le_iff_digitSum {n v limit : Nat} (hv : v < 10 ^ n)
    (hlimit : limit < 10 ^ n) :
    (∀ k < n, limit / 10 ^ k % 10 ≤ v / 10 ^ k % 10) ↔
      limit ≤ v ∧ digitSum v = digitSum limit + digitSum (v - limit) := by
  have hsum : limit ≤ v →
      (digitSum v = digitSum limit + digitSum (v - limit) ↔
        ∀ k < n, limit / 10 ^ k % 10 ≤ v / 10 ^ k % 10) := by
    intro hle
    have hadd : limit + (v - limit) = v := Nat.add_sub_of_le hle
    have hiff := digitSum_add_eq_iff (n := n) (by rwa [hadd])
    rwa [hadd] at hiff
  constructor
  · intro h
    have hle := le_of_places_le hv hlimit h
    exact ⟨hle, (hsum hle).2 h⟩
  · rintro ⟨hle, h⟩
    exact (hsum hle).1 h

theorem Bound.reached_iff_places {v limit : Nat} :
    (Bound.mk (Code.ofNat limit)).reached (Code.ofNat v) = true ↔
      ∀ k < width, limit / 10 ^ k % 10 ≤ v / 10 ^ k % 10 :=
  atOrAbove_decimal_iff width v limit

/-- The value `v` has reached `limit`, the number after some upper end: both have
codes, and the code of `v` has reached the bound. -/
def Reaches (v limit : Nat) : Prop :=
  ∃ (value upper : UInt32) (c : Code) (bound : Bound),
    value.toNat = v ∧ upper.toNat + 1 = limit ∧
    Code.ofValue value = .ok c ∧ Bound.after upper = .ok bound ∧
    bound.reached c = true

theorem reaches_iff {v limit : Nat} :
    Reaches v limit ↔ v < capacity ∧ (1 ≤ limit ∧ limit < capacity) ∧
      ∀ k < width, limit / 10 ^ k % 10 ≤ v / 10 ^ k % 10 := by
  constructor
  · rintro ⟨value, upper, c, bound, rfl, rfl, hc, hbound, hreach⟩
    obtain ⟨hvalue, rfl⟩ := Code.ofValue_eq_ok_iff.1 hc
    obtain ⟨hupper, rfl⟩ := Bound.after_eq_ok_iff.1 hbound
    exact ⟨hvalue, ⟨Nat.succ_pos _, hupper⟩, Bound.reached_iff_places.1 hreach⟩
  · rintro ⟨hv, ⟨hpos, hlimit⟩, hplaces⟩
    have hupper : (limit - 1).toUInt32.toNat + 1 = limit := by
      rw [Code.toNat_toUInt32 (by omega), Nat.sub_add_cancel hpos]
    refine ⟨v.toUInt32, (limit - 1).toUInt32, Code.ofNat v,
      ⟨Code.ofNat limit⟩, Code.toNat_toUInt32 hv, hupper,
      Code.ofValue_toUInt32 hv, ?_, Bound.reached_iff_places.2 hplaces⟩
    rw [Bound.after_of_lt (by rwa [hupper]), hupper]

namespace Reaches

variable {x y z : Nat}

theorem refl (hpos : 1 ≤ x) (hx : x < capacity) : Reaches x x :=
  reaches_iff.2 ⟨hx, ⟨hpos, hx⟩, fun _ _ => Nat.le_refl _⟩

theorem le (h : Reaches x y) : y ≤ x := by
  obtain ⟨hx, ⟨-, hy⟩, hplaces⟩ := reaches_iff.1 h
  exact le_of_places_le hx hy hplaces

theorem trans (hxy : Reaches x y) (hyz : Reaches y z) : Reaches x z := by
  obtain ⟨hx, -, hplaces⟩ := reaches_iff.1 hxy
  obtain ⟨-, hz, hplaces'⟩ := reaches_iff.1 hyz
  refine reaches_iff.2 ⟨hx, hz, ?_⟩
  intro k hk
  exact Nat.le_trans (hplaces' k hk) (hplaces k hk)

theorem last (hpos : 1 ≤ x) (hx : x < capacity) : Reaches 999999 x := by
  refine reaches_iff.2 ⟨by decide, ⟨hpos, hx⟩, ?_⟩
  have hnine : ∀ k < width, 999999 / 10 ^ k % 10 = 9 := by decide
  intro k hk
  rw [hnine k hk]
  exact Nat.le_of_lt_succ (Nat.mod_lt _ (by decide))

end Reaches

/-- **Reaching needs no borrow.** A value has reached the bound after `upper`
exactly when each of its decimal places is at or above that of `upper + 1`, or,
what is the same, when `upper + 1` can be taken away from it and the digit sums
add up. As a relation between numbers, this is a partial order within the order
of numbers, and the last number of all has reached every bound. -/
theorem reaching_needs_no_borrow :
    (∀ upper value : UInt32, upper.toNat ≤ 999998 → value.toNat ≤ 999999 →
      ∃ bound c, Bound.after upper = .ok bound ∧ Code.ofValue value = .ok c ∧
        let v := value.toNat
        let limit := upper.toNat + 1
        (bound.reached c = true ↔
          ∀ k < 6, limit / 10 ^ k % 10 ≤ v / 10 ^ k % 10) ∧
        (bound.reached c = true ↔
          limit ≤ v ∧ digitSum v = digitSum limit + digitSum (v - limit))) ∧
    (∀ x, 1 ≤ x → x ≤ 999999 → Reaches x x) ∧
    (∀ x y, Reaches x y → Reaches y x → x = y) ∧
    (∀ x y z, Reaches x y → Reaches y z → Reaches x z) ∧
    (∀ x y, Reaches x y → y ≤ x) ∧
    ∀ limit, 1 ≤ limit → limit ≤ 999999 → Reaches 999999 limit := by
  refine ⟨?_, ?_, ?_, ?_, ?_, ?_⟩
  · intro upper value hupper hvalue
    have hlimit : upper.toNat + 1 < capacity := Nat.lt_succ_of_le
      (Nat.succ_le_succ hupper)
    have hv : value.toNat < capacity := Nat.lt_succ_of_le hvalue
    refine ⟨_, _, Bound.after_of_lt hlimit, Code.ofValue_of_lt hv,
      Bound.reached_iff_places, ?_⟩
    exact Bound.reached_iff_places.trans (places_le_iff_digitSum hv hlimit)
  · intro x hpos hx
    exact Reaches.refl hpos (Nat.lt_succ_of_le hx)
  · intro x y hxy hyx
    exact Nat.le_antisymm hyx.le hxy.le
  · intro x y z
    exact Reaches.trans
  · intro x y
    exact Reaches.le
  · intro limit hpos hlimit
    exact Reaches.last hpos (Nat.lt_succ_of_le hlimit)

/-- 993954 has reached 892943. 892950 has not, though it is larger: taking
892943 away from it needs a borrow. -/
theorem reaching_892943 :
    ∃ bound c d, Bound.after 892942 = .ok bound ∧
      Code.ofValue 993954 = .ok c ∧ Code.ofValue 892950 = .ok d ∧
      bound.reached c = true ∧ bound.reached d = false := by
  obtain ⟨hreach, -⟩ := reaching_needs_no_borrow
  obtain ⟨bound, c, hbound, hc, hplaces, -⟩ :=
    hreach 892942 993954 (by decide) (by decide)
  obtain ⟨bound', d, hbound', hd, -, hsums⟩ :=
    hreach 892942 892950 (by decide) (by decide)
  obtain rfl : bound = bound' := Except.ok.inj (hbound.symm.trans hbound')
  refine ⟨bound, c, d, hbound, hc, hd, hplaces.2 (by decide), ?_⟩
  rw [Bool.eq_false_iff]
  intro h
  have hsum := (hsums.1 h).2
  revert hsum
  simp [digitSum]

end Passcode
