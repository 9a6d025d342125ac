import Passcode.Search
import Passcode.Proofs.Reach
import Passcode.Proofs.Blocks
import Mathlib.Order.Interval.Finset.Nat

/-! # Walks as stretches of numbers

A walk visits codes one after another, so it is a fold over a stretch of
numbers, and only its length depends on the bound. `FirstReached` names the
number at which the stretch ends; `FirstReached.walk_eq` says what a walk leaves
behind, for every visitor and every number of visits. With `capacity` visits a
walk from digits never runs out of them (`ending_walk_capacity_ne_exhausted`).
-/

namespace Passcode

/-! ## One visit -/

section Step

variable {σ : Type} (visit : σ → Code → σ) (bound : Bound) {v : Nat}

theorem walk_succ_of_reached (hv : v + 1 < capacity)
    (h : bound.reached (Code.ofNat (v + 1)) = true) (n : Nat) (state : σ) :
    walk visit bound (n + 1) state (Code.ofNat v) =
      ⟨visit state (Code.ofNat v), Code.ofNat (v + 1), .reached⟩ := by
  rw [walk, Code.advance_ofNat hv, h]
  rfl

theorem walk_succ_of_free (hv : v + 1 < capacity)
    (h : bound.reached (Code.ofNat (v + 1)) = false) (n : Nat) (state : σ) :
    walk visit bound (n + 1) state (Code.ofNat v) =
      walk visit bound n (visit state (Code.ofNat v)) (Code.ofNat (v + 1)) := by
  conv_lhs => rw [walk, Code.advance_ofNat hv, h]
  rfl

theorem walk_succ_last (n : Nat) (state : σ) :
    walk visit bound (n + 1) state (Code.ofNat (capacity - 1)) =
      ⟨visit state (Code.ofNat (capacity - 1)), Code.ofNat 0,
        .failed (.carryOut "000000")⟩ := by
  rw [walk, Code.advance_last]

end Step

/-! ## A whole walk -/

/-- Of the numbers after `v`, `w` is the first to reach the bound. -/
structure FirstReached (bound : Bound) (v w : Nat) : Prop where
  lt : v < w
  lt_capacity : w < capacity
  reached : bound.reached (Code.ofNat w) = true
  free : ∀ x, v < x → x < w → bound.reached (Code.ofNat x) = false

theorem firstReached_landing {bound : Bound} (hb : bound.code.Decimal) {v : Nat}
    (hv : v + 1 < capacity) :
    FirstReached bound v (landing v bound.code.value) where
  lt := lt_landing hv
  lt_capacity := landing_lt hv
  reached := Bound.reached_landing hb hv
  free := by
    intro x hvx hxw
    rw [Bool.eq_false_iff]
    intro hreach
    have hx : x < capacity := Nat.lt_trans hxw (landing_lt hv)
    have hle := Bound.landing_le hb hv hvx hx hreach
    omega

theorem firstReached_of_lt {v limit : Nat} (hv : v < limit)
    (hlimit : limit < capacity) : FirstReached ⟨Code.ofNat limit⟩ v limit := by
  have hb : (Bound.mk (Code.ofNat limit)).code.Decimal :=
    Code.decimal_ofNat limit
  have hstop := firstReached_landing hb (Nat.lt_of_le_of_lt hv hlimit)
  rwa [Code.value_ofNat hlimit, landing_of_lt hv hlimit] at hstop

/-- The codes of `n` numbers from `v` on. -/
def stretch (v n : Nat) : List Code := (List.range' v n).map Code.ofNat

theorem stretch_succ (v n : Nat) :
    stretch v (n + 1) = Code.ofNat v :: stretch (v + 1) n := by
  rw [stretch, List.range'_succ, List.map_cons]
  rfl

theorem length_stretch (v n : Nat) : (stretch v n).length = n := by
  rw [stretch, List.length_map, List.length_range']

/-- **What a walk leaves behind.** It has visited the numbers before the first
one that reaches the bound, or as many of them as it was allowed. -/
theorem FirstReached.walk_eq {σ : Type} {bound : Bound} {v w : Nat}
    (h : FirstReached bound v w) (visit : σ → Code → σ) (n : Nat) (state : σ) :
    walk visit bound n state (Code.ofNat v) =
      ⟨(stretch v (min n (w - v))).foldl visit state,
        Code.ofNat (v + min n (w - v)),
        if w - v ≤ n then .reached else .exhausted⟩ := by
  -- by induction on the visits; the number `w` ahead stays the same, and what
  -- is free before it can only become less
  obtain ⟨hlt, hw, hreach, hfree⟩ := h
  induction n generalizing v state with
  | zero =>
      have hend : ¬w - v ≤ 0 := by omega
      rw [Nat.zero_min, if_neg hend]
      rfl
  | succ n ih =>
      have hv : v + 1 < capacity := by omega
      have hcases : v + 1 < w ∨ v + 1 = w := Nat.lt_or_eq_of_le hlt
      rcases hcases with hnext | rfl
      · -- the next number is still free, and the walk goes on from there
        have hstep := hfree (v + 1) (Nat.lt_succ_self v) hnext
        have hfree' : ∀ x, v + 1 < x → x < w →
            bound.reached (Code.ofNat x) = false := by
          intro x hx
          exact hfree x (Nat.lt_of_succ_lt hx)
        have hmin : min (n + 1) (w - v) = min n (w - (v + 1)) + 1 := by omega
        have hcode : v + (min n (w - (v + 1)) + 1) =
            v + 1 + min n (w - (v + 1)) := by omega
        have hend : w - v ≤ n + 1 ↔ w - (v + 1) ≤ n := by omega
        rw [walk_succ_of_free visit bound hv hstep, ih _ hnext hfree', hmin,
          stretch_succ, List.foldl_cons, hcode]
        simp only [hend]
      · -- this is the last visit, and the code is left at `w`
        have hmin : min (n + 1) (v + 1 - v) = 1 := by omega
        have hend : v + 1 - v ≤ n + 1 := by omega
        rw [walk_succ_of_reached visit bound hv hreach, hmin, if_pos hend]
        rfl

/-! ## Ends of walks

Between digits, a walk comes to its landing unless it starts at the last code.
There are as many codes as `capacity`, so with as many visits it gets there. -/

theorem FirstReached.sub_le_capacity {bound : Bound} {v w : Nat}
    (h : FirstReached bound v w) : w - v ≤ capacity :=
  Nat.le_trans (Nat.sub_le w v) (Nat.le_of_lt h.lt_capacity)

section Ends

variable {σ : Type} {visit : σ → Code → σ} {bound : Bound} {state : σ} {c : Code}

theorem ending_walk_capacity_ne_exhausted (hb : bound.code.Decimal)
    (hc : c.Decimal) :
    (walk visit bound capacity state c).ending ≠ .exhausted := by
  rcases hc.lt_or_eq_last with hbefore | rfl
  · have hstop := firstReached_landing hb hbefore
    rw [← hc.ofNat_value, hstop.walk_eq, if_pos hstop.sub_le_capacity]
    exact Ending.noConfusion
  · show (walk visit bound (999999 + 1) state _).ending ≠ .exhausted
    rw [walk_succ_last]
    exact Ending.noConfusion

/-- A walk towards a bound of digits fails only at the last code, on its first
move. -/
theorem walk_failed {n : Nat} {fault : Fault} (hb : bound.code.Decimal)
    (hc : c.Decimal)
    (h : (walk visit bound n state c).ending = .failed fault) :
    c = Code.ofNat (capacity - 1) ∧
      (walk visit bound n state c).code = Code.ofNat 0 ∧
      fault = .carryOut "000000" := by
  rcases hc.lt_or_eq_last with hbefore | rfl
  · -- the landing is ahead, so the walk ends there or before it
    rw [← hc.ofNat_value, (firstReached_landing hb hbefore).walk_eq] at h
    split at h
    · cases h
    · cases h
  · cases n with
    | zero => cases h
    | succ n =>
        rw [walk_succ_last] at h ⊢
        cases h
        exact ⟨rfl, rfl, rfl⟩

end Ends

/-! ## What is found on a stretch -/

/-- The numbers with the pattern among `n` numbers from `v` on, the least
first. -/
def finds (v n : Nat) : List Nat :=
  (List.range' v n).filter fun x => (Code.ofNat x).fits

theorem filter_fits_stretch (v n : Nat) :
    (stretch v n).filter Code.fits = (finds v n).map Code.ofNat :=
  List.filter_map

theorem mem_finds {v n x : Nat} :
    x ∈ finds v n ↔ (v ≤ x ∧ x < v + n) ∧ (Code.ofNat x).fits = true := by
  rw [finds, List.mem_filter, List.mem_range'_1]

theorem pairwise_finds (v n : Nat) : (finds v n).Pairwise (· < ·) :=
  List.Pairwise.filter _ List.pairwise_lt_range'

theorem length_finds_le (v n : Nat) : (finds v n).length ≤ n := by
  have hle := List.length_filter_le (fun x => (Code.ofNat x).fits)
    (List.range' v n)
  rwa [List.length_range'] at hle

theorem length_finds (v n : Nat) :
    (finds v n).length =
      {x ∈ Finset.Ico v (v + n) | (Code.ofNat x).fits = true}.card := by
  rw [← List.toFinset_card_of_nodup ((pairwise_finds v n).imp Nat.ne_of_lt)]
  congr 1
  ext x
  simp [mem_finds]

end Passcode
