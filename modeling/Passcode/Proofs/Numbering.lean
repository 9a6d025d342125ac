import Passcode.Code
import Mathlib.Data.Nat.Digits.Lemmas

/-! # Codes as numbers

Six digits and a number below one million are two spellings of one thing. This
module moves between them, so that everything after it can count with numbers.

- `numeral_decimal`, `decimal_numeral`: reading and writing undo each other.
- `turn_decimal`: the wheels that show `v` are turned to `v + 1`.
- `Code.advance_ofNat_eq`: one move of a code, with its two cases
  `Code.advance_ofNat` and `Code.advance_last`.
- `Code.text_ofNat`: the text of a code is the padded numeral.
-/

namespace Passcode

/-! ## Reading -/

theorem foldl_numeral (ds : List UInt8) (acc : Nat) :
    ds.foldl (fun acc b => acc * 10 + (b - zero).toNat) acc =
      acc * 10 ^ ds.length + numeral ds := by
  induction ds generalizing acc with
  | nil => simp [numeral]
  | cons d ds ih =>
      simp only [numeral, List.foldl_cons, List.length_cons, Nat.zero_mul,
        Nat.zero_add]
      rw [ih, ih (d - zero).toNat, Nat.pow_succ]
      grind

theorem numeral_cons (d : UInt8) (ds : List UInt8) :
    numeral (d :: ds) = (d - zero).toNat * 10 ^ ds.length + numeral ds := by
  rw [numeral, List.foldl_cons, foldl_numeral]
  simp

theorem numeral_concat (ds : List UInt8) (d : UInt8) :
    numeral (ds ++ [d]) = numeral ds * 10 + (d - zero).toNat := by
  rw [numeral, List.foldl_append]
  rfl

theorem numeral_lt {ds : List UInt8} (h : ∀ d ∈ ds, IsDigit d) :
    numeral ds < 10 ^ ds.length := by
  induction ds using List.reverseRecOn with
  | nil => exact Nat.one_pos
  | append_singleton ds d ih =>
      obtain ⟨hds, hd⟩ := List.forall_mem_append.1 h
      have hd := hd d List.mem_cons_self
      have hd' := isDigit_iff.1 hd
      have ih := ih hds
      rw [numeral_concat, hd.toNat_sub_zero, List.length_append,
        List.length_singleton, Nat.pow_succ]
      omega

/-! ## Writing -/

/-- Reading gives back what was written, up to the digits that were left out. -/
theorem numeral_decimal (n v : Nat) : numeral (decimal n v) = v % 10 ^ n := by
  induction n generalizing v with
  | zero => rw [Nat.pow_zero, Nat.mod_one]; rfl
  | succ n ih =>
      rw [decimal, numeral_concat, ih, (isDigit_zero_add v).toNat_sub_zero,
        toNat_zero_add, Nat.pow_succ', Nat.mod_mul]
      omega

theorem numeral_decimal_of_lt {v : Nat} (h : v < capacity) :
    numeral (decimal width v) = v := by
  rw [numeral_decimal]
  exact Nat.mod_eq_of_lt h

theorem IsDigit.zero_add_toUInt8 {d : UInt8} (h : IsDigit d) :
    zero + (d.toNat - 48).toUInt8 = d := by
  have hd := isDigit_iff.1 h
  apply UInt8.toNat_inj.1
  rw [UInt8.toNat_add]
  simp [zero]
  omega

/-- Writing the number that digits denote gives the digits back. -/
theorem decimal_numeral {ds : List UInt8} (h : ∀ d ∈ ds, IsDigit d) :
    decimal ds.length (numeral ds) = ds := by
  induction ds using List.reverseRecOn with
  | nil => rfl
  | append_singleton ds d ih =>
      obtain ⟨hds, hd⟩ := List.forall_mem_append.1 h
      have hd := hd d List.mem_cons_self
      have hd' := isDigit_iff.1 hd
      have hrest : (numeral ds * 10 + (d.toNat - 48)) / 10 = numeral ds := by
        omega
      have hlast : (numeral ds * 10 + (d.toNat - 48)) % 10 = d.toNat - 48 := by
        omega
      rw [numeral_concat, hd.toNat_sub_zero, List.length_append,
        List.length_singleton, decimal, hrest, hlast, ih hds,
        hd.zero_add_toUInt8]

/-! ## Turning -/

theorem turn_concat (ds : List UInt8) (d : UInt8) :
    turn (ds ++ [d]) =
      if d + 1 ≤ nine then (ds ++ [d + 1], false)
      else ((turn ds).1 ++ [zero], (turn ds).2) := by
  induction ds with
  | nil => rfl
  | cons e ds ih =>
      by_cases hle : d + 1 ≤ nine
      · rw [if_pos hle] at ih ⊢
        rw [List.cons_append, turn_cons_of_stop (by rw [ih]), ih]
        rfl
      · rw [if_neg hle] at ih ⊢
        cases hc : (turn ds).2 with
        | false =>
            rw [List.cons_append, turn_cons_of_stop (by rw [ih, hc]), ih,
              turn_cons_of_stop hc]
            rfl
        | true =>
            rw [List.cons_append, turn_cons_of_carry (by rw [ih, hc]), ih,
              turn_cons_of_carry hc]
            split
            · rfl
            · rfl

/-- **Turning counts.** The wheels that show `v` are turned to `v + 1`, and they
carry out exactly when they have all come round. -/
theorem turn_decimal (n v : Nat) :
    turn (decimal n v) = (decimal n (v + 1), decide (10 ^ n ∣ v + 1)) := by
  induction n generalizing v with
  | zero => simp [decimal, turn]
  | succ n ih =>
      have hturn := add_one_le_nine_iff (isDigit_zero_add v)
      rw [toNat_zero_add] at hturn
      rw [decimal, turn_concat, ih, decimal]
      by_cases hnine : v % 10 = 9
      · -- the last wheel comes round and turns the wheel before it
        have hdiv : (v + 1) / 10 = v / 10 + 1 := by omega
        have hmod : (v + 1) % 10 = 0 := by omega
        have hsplit : v + 1 = 10 * (v / 10 + 1) := by omega
        have hdvd : 10 ^ (n + 1) ∣ v + 1 ↔ 10 ^ n ∣ v / 10 + 1 := by
          rw [hsplit, Nat.pow_succ', Nat.mul_dvd_mul_iff_left (by decide)]
        rw [if_neg (by rw [hturn]; omega), hdiv, hmod, decide_eq_decide.2 hdvd]
        rfl
      · -- only the last wheel moves
        have hdiv : (v + 1) / 10 = v / 10 := by omega
        have hmod : (v + 1) % 10 = v % 10 + 1 := by omega
        have hdigit :
            zero + (v % 10).toUInt8 + 1 = zero + ((v + 1) % 10).toUInt8 := by
          rw [hmod, UInt8.add_assoc]
          simp
        have hndvd : ¬10 ^ (n + 1) ∣ v + 1 := by
          intro h
          have hten : 10 ∣ v + 1 :=
            Nat.dvd_trans (Dvd.intro_left (10 ^ n) rfl) h
          omega
        rw [if_pos (hturn.2 (by omega)), hdiv, hdigit, decide_eq_false hndvd]

/-! ## Codes and numbers -/

namespace Code

theorem decimal_ofNat (v : Nat) : (ofNat v).Decimal := isDigit_decimal width v

theorem value_ofNat {v : Nat} (h : v < capacity) : (ofNat v).value = v :=
  numeral_decimal_of_lt h

theorem Decimal.value_lt {c : Code} (h : c.Decimal) : c.value < capacity := by
  have hlt := numeral_lt h
  rwa [c.length_digits] at hlt

/-- A code of digits is the code of its value. -/
theorem Decimal.ofNat_value {c : Code} (h : c.Decimal) : ofNat c.value = c := by
  apply Code.ext
  show decimal width (numeral c.digits) = c.digits
  rw [← c.length_digits]
  exact decimal_numeral h

/-- There is a number after the code's, or the code is the last one. -/
theorem Decimal.lt_or_eq_last {c : Code} (h : c.Decimal) :
    c.value + 1 < capacity ∨ c = ofNat (capacity - 1) := by
  have hlt := h.value_lt
  rcases Nat.lt_or_ge (c.value + 1) capacity with hbefore | hlast
  · exact Or.inl hbefore
  · have hvalue : c.value = capacity - 1 := by omega
    exact Or.inr (by rw [← hvalue, h.ofNat_value])

theorem next_ofNat (v : Nat) : (ofNat v).next = ofNat (v + 1) := by
  apply Code.ext
  show (turn (decimal width v)).1 = decimal width (v + 1)
  rw [turn_decimal]

theorem carries_ofNat (v : Nat) :
    (ofNat v).carries = decide (capacity ∣ v + 1) := by
  show (turn (decimal width v)).2 = decide (10 ^ width ∣ v + 1)
  rw [turn_decimal]

/-- Only the last six digits of a number are shown. -/
theorem value_ofNat_eq_mod (v : Nat) : (ofNat v).value = v % capacity :=
  numeral_decimal width v

theorem ofNat_mod (v : Nat) : ofNat (v % capacity) = ofNat v := by
  rw [← value_ofNat_eq_mod, (decimal_ofNat v).ofNat_value]

/-- One move, wherever it starts: the next code, and a fault if it has come
round to the first code, else the answer whether the bound is still ahead. -/
theorem advance_ofNat_eq (v : Nat) (bound : Bound) :
    (ofNat v).advance bound = (ofNat (v + 1),
      if capacity ∣ v + 1 then .error (.carryOut "000000")
      else .ok (!bound.reached (ofNat (v + 1)))) := by
  apply Prod.ext
  · rw [advance_fst, next_ofNat]
  · rw [advance_snd, carries_ofNat, next_ofNat]
    by_cases h : capacity ∣ v + 1
    · have htext : (ofNat (v + 1)).text = "000000" := by
        rw [← ofNat_mod, Nat.mod_eq_zero_of_dvd h]
        decide
      simp [h, htext]
    · simp [h]

/-- Before the last code, moving on gives the next code and the answer whether
the bound is still ahead. -/
theorem advance_ofNat {v : Nat} (h : v + 1 < capacity) (bound : Bound) :
    (ofNat v).advance bound =
      (ofNat (v + 1), .ok (!bound.reached (ofNat (v + 1)))) := by
  have hndvd : ¬capacity ∣ v + 1 := Nat.not_dvd_of_pos_of_lt (Nat.succ_pos v) h
  rw [advance_ofNat_eq, if_neg hndvd]

/-- Moving on from the last code leaves the first one behind, and fails. -/
theorem advance_last (bound : Bound) :
    (ofNat (capacity - 1)).advance bound =
      (ofNat 0, .error (.carryOut "000000")) := by
  have hdvd : capacity ∣ capacity - 1 + 1 := Nat.dvd_refl capacity
  have hround : ofNat (capacity - 1 + 1) = ofNat 0 := by decide
  rw [advance_ofNat_eq, if_pos hdvd, hround]

theorem ofValue_of_lt {x : UInt32} (h : x.toNat < capacity) :
    ofValue x = .ok (ofNat x.toNat) := if_pos h

theorem ofValue_of_le {x : UInt32} (h : capacity ≤ x.toNat) :
    ofValue x = .error (.tooWide x) := if_neg (Nat.not_lt.2 h)

theorem ofValue_eq_ok_iff {x : UInt32} {c : Code} :
    ofValue x = .ok c ↔ x.toNat < capacity ∧ ofNat x.toNat = c := by
  rcases Nat.lt_or_ge x.toNat capacity with hlt | hge
  · rw [ofValue_of_lt hlt]
    simp [hlt]
  · rw [ofValue_of_le hge]
    simp [Nat.not_lt.2 hge]

theorem ofValue_eq_error_iff {x : UInt32} {e : Fault} :
    ofValue x = .error e ↔ capacity ≤ x.toNat ∧ e = .tooWide x := by
  rcases Nat.lt_or_ge x.toNat capacity with hlt | hge
  · rw [ofValue_of_lt hlt]
    simp [Nat.not_le.2 hlt]
  · rw [ofValue_of_le hge]
    simp [hge, eq_comm]

/-- A word has room for every number that has a code. -/
theorem toNat_toUInt32 {v : Nat} (h : v < capacity) : v.toUInt32.toNat = v :=
  UInt32.toNat_ofNat_of_lt (Nat.lt_trans h (by decide))

theorem ofValue_toUInt32 {v : Nat} (h : v < capacity) :
    ofValue v.toUInt32 = .ok (ofNat v) := by
  have hv := toNat_toUInt32 h
  rw [ofValue_of_lt (by rwa [hv]), hv]

end Code

/-! ## Bounds after a value -/

theorem toNat_add_one {x : UInt32} (h : x.toNat + 1 < UInt32.size) :
    (x + 1).toNat = x.toNat + 1 := by
  rw [UInt32.toNat_add]
  exact Nat.mod_eq_of_lt h

theorem Bound.after_of_lt {upper : UInt32} (h : upper.toNat + 1 < capacity) :
    Bound.after upper = .ok ⟨Code.ofNat (upper.toNat + 1)⟩ := by
  have hsize : upper.toNat + 1 < UInt32.size := Nat.lt_trans h (by decide)
  have hadd := toNat_add_one hsize
  rw [Bound.after, if_pos hsize, Code.ofValue_of_lt (by omega), hadd]
  rfl

/-- After the largest code there is no bound. The successor is reported, or the
largest word itself. -/
theorem Bound.after_of_le {upper : UInt32} (h : capacity ≤ upper.toNat + 1) :
    Bound.after upper = .error (.tooWide
      (if upper.toNat + 1 < UInt32.size then upper + 1 else upper)) := by
  by_cases hsize : upper.toNat + 1 < UInt32.size
  · have hadd := toNat_add_one hsize
    rw [Bound.after, if_pos hsize, if_pos hsize, Code.ofValue_of_le (by omega)]
    rfl
  · rw [Bound.after, if_neg hsize, if_neg hsize]

theorem Bound.after_eq_ok_iff {upper : UInt32} {bound : Bound} :
    Bound.after upper = .ok bound ↔
      upper.toNat + 1 < capacity ∧ ⟨Code.ofNat (upper.toNat + 1)⟩ = bound := by
  rcases Nat.lt_or_ge (upper.toNat + 1) capacity with hlt | hge
  · rw [Bound.after_of_lt hlt]
    simp [hlt]
  · rw [Bound.after_of_le hge]
    simp [Nat.not_lt.2 hge]

/-! ## Texts -/

/-- The numeral of `v`, padded on the left with zeros to the width of a code. -/
def padded (v : Nat) : String := String.ofList (v.repr.toList.leftpad width '0')

theorem decimal_zero_right (n : Nat) : decimal n 0 = List.replicate n zero := by
  induction n with
  | zero => rfl
  | succ n ih => rw [decimal, Nat.zero_div, ih, List.replicate_succ']; rfl

theorem ofNat_zero_add (v : Nat) :
    Char.ofNat (zero + (v % 10).toUInt8).toNat = Nat.digitChar (v % 10) := by
  have hlt : v % 10 < 10 := Nat.mod_lt v (by decide)
  rw [toNat_zero_add, ← Nat.toNat_digitChar_of_lt_ten hlt, Char.ofNat_toNat]

theorem map_decimal_eq_leftpad {n v : Nat} (hn : 0 < n) (hv : v < 10 ^ n) :
    (decimal n v).map (fun b => Char.ofNat b.toNat) =
      (Nat.toDigits 10 v).leftpad n '0' := by
  induction n generalizing v with
  | zero => exact absurd hn (Nat.lt_irrefl 0)
  | succ n ih =>
      rw [decimal, List.map_append, List.map_singleton, ofNat_zero_add]
      by_cases h10 : v < 10
      · have hzero : Char.ofNat zero.toNat = '0' := by decide
        rw [Nat.div_eq_of_lt h10, Nat.mod_eq_of_lt h10, decimal_zero_right,
          Nat.toDigits_of_lt_base h10]
        simp [List.leftpad, hzero]
      · -- a second place is needed, so there are places left for `v / 10`
        have hn' : 0 < n := by
          rcases Nat.eq_zero_or_pos n with rfl | h
          · omega
          · exact h
        have hv' : v / 10 < 10 ^ n := by
          rw [Nat.pow_succ] at hv
          omega
        have htens : Nat.toDigits 10 v =
            Nat.toDigits 10 (v / 10) ++ [(v % 10).digitChar] :=
          Nat.toDigits_of_base_le (by decide) (by omega)
        rw [ih hn' hv', htens]
        simp [List.leftpad]

theorem Code.text_ofNat {v : Nat} (h : v < capacity) :
    (Code.ofNat v).text = padded v := by
  rw [padded, Nat.toList_repr, ← map_decimal_eq_leftpad (by decide) h]
  rfl

/-! ## Base ten

The digits in base ten, leading zeros included, are the library's own; a byte
stands 48 above the digit that it shows. -/

theorem map_toNat_decimal {n v : Nat} (hv : v < 10 ^ n) :
    (decimal n v).map UInt8.toNat =
      (Nat.digitsAppend 10 n v).reverse.map (48 + ·) := by
  induction n generalizing v with
  | zero =>
      have h0 : v = 0 := by omega
      subst h0
      rfl
  | succ n ih =>
      have hv' : v / 10 < 10 ^ n := by
        rw [Nat.pow_succ] at hv
        omega
      rw [decimal, List.map_append, List.map_singleton, toNat_zero_add, ih hv']
      rcases Nat.eq_zero_or_pos v with rfl | hpos
      · simp [Nat.digitsAppend, List.replicate_succ]
      · simp [Nat.digitsAppend, Nat.digits_def' (by decide : 1 < 10) hpos]

end Passcode
