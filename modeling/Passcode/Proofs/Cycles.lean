import Passcode.Proofs.Walks

/-! # The cycle of codes

Codes are moved on one after the other, each time under a bound of its own, and
on past every answer and every fault. The bounds decide the answers only: the
code after `k` moves from `v` is that of `v + k` modulo one million, and a move
fails exactly when it comes round to zero.

- `Code.moves`: a sequence of moves.
- `moves_follow_numbers`: any number of moves.
-/

namespace Passcode

/-! ## Moves -/

namespace Code

/-- Moves a code on once under each bound, whatever the answers are. Every entry
is the code after a move and the answer to it. -/
def moves (c : Code) : List Bound → List (Code × Except Fault Bool)
  | [] => []
  | bound :: bounds => c.advance bound :: (c.advance bound).1.moves bounds

theorem moves_ofNat_cons (v : Nat) (bound : Bound) (bounds : List Bound) :
    (ofNat v).moves (bound :: bounds) =
      (ofNat v).advance bound :: (ofNat (v + 1)).moves bounds := by
  rw [moves, advance_fst, next_ofNat]

theorem length_moves (c : Code) (bounds : List Bound) :
    (c.moves bounds).length = bounds.length := by
  induction bounds generalizing c with
  | nil => rfl
  | cons bound bounds ih => rw [moves, List.length_cons, ih, List.length_cons]

theorem getElem?_moves_ofNat {v k : Nat} {bounds : List Bound} {bound : Bound}
    (h : bounds[k]? = some bound) :
    ((ofNat v).moves bounds)[k]? = some ((ofNat (v + k)).advance bound) := by
  induction bounds generalizing v k with
  | nil => cases h
  | cons first bounds ih =>
      rw [moves_ofNat_cons]
      cases k with
      | zero =>
          obtain rfl : first = bound := Option.some.inj h
          rfl
      | succ k =>
          have hk : v + (k + 1) = v + 1 + k := by omega
          rw [List.getElem?_cons_succ, ih h, hk]

/-- The codes that are shown do not depend on the bounds. -/
theorem map_fst_moves_ofNat (v : Nat) (bounds : List Bound) :
    ((ofNat v).moves bounds).map Prod.fst = stretch (v + 1) bounds.length := by
  induction bounds generalizing v with
  | nil => rfl
  | cons bound bounds ih =>
      rw [moves_ofNat_cons, List.map_cons, ih, advance_ofNat_eq,
        List.length_cons, stretch_succ]

/-- A move fails as often as the numbers pass a multiple of one million. -/
theorem countP_moves_ofNat (v : Nat) (bounds : List Bound) :
    v / capacity + ((ofNat v).moves bounds).countP (fun call => !call.2.isOk) =
      (v + bounds.length) / capacity := by
  induction bounds generalizing v with
  | nil => rfl
  | cons bound bounds ih =>
      have hlength : v + (bounds.length + 1) = v + 1 + bounds.length := by omega
      rw [moves_ofNat_cons, List.countP_cons, List.length_cons, hlength, ← ih,
        advance_ofNat_eq, Nat.succ_div]
      by_cases h : capacity ∣ v + 1
      · simp [h, Except.isOk, Except.toBool]
        omega
      · simp [h, Except.isOk, Except.toBool]

end Code

/-! ## A full turn -/

theorem map_mod_range' {c s n : Nat} (h : s + n ≤ c) (q : Nat) :
    (List.range' (c * q + s) n).map (· % c) = List.range' s n := by
  rw [← List.map_add_range', List.map_map]
  conv_rhs => rw [← List.map_id (List.range' s n)]
  apply List.map_congr_left
  intro x hx
  rw [List.mem_range'_1] at hx
  show (c * q + x) % c = x
  rw [Nat.mul_add_mod]
  exact Nat.mod_eq_of_lt (by omega)

/-- As many numbers as there are remainders give every remainder once: they
count up to the wrap and go on from zero. -/
theorem map_mod_range'_self {c : Nat} (hc : 0 < c) (a : Nat) :
    (List.range' a c).map (· % c) =
      List.range' (a % c) (c - a % c) ++ List.range (a % c) := by
  have hlt : a % c < c := Nat.mod_lt a hc
  have hsplit : List.range' a c =
      List.range' a (c - a % c) ++ List.range' (a + (c - a % c)) (a % c) := by
    rw [List.range'_append_1]
    congr 1
    omega
  have hbefore : (List.range' a (c - a % c)).map (· % c) =
      List.range' (a % c) (c - a % c) := by
    have hle : a % c + (c - a % c) ≤ c := by omega
    have hmap := map_mod_range' hle (a / c)
    rwa [Nat.div_add_mod] at hmap
  have hafter : (List.range' (a + (c - a % c)) (a % c)).map (· % c) =
      List.range (a % c) := by
    have hle : 0 + a % c ≤ c := by omega
    have hmap := map_mod_range' hle (a / c + 1)
    have hwrap : a + (c - a % c) = c * (a / c + 1) + 0 := by
      have ha := Nat.div_add_mod a c
      rw [Nat.mul_succ]
      omega
    rw [hwrap, hmap, List.range_eq_range']
  rw [hsplit, List.map_append, hbefore, hafter]

theorem map_value_stretch_capacity (v : Nat) :
    (stretch v capacity).map Code.value =
      List.range' (v % capacity) (capacity - v % capacity) ++
        List.range (v % capacity) := by
  rw [← map_mod_range'_self (by decide), stretch, List.map_map]
  apply List.map_congr_left
  intro x _
  rw [Function.comp_apply, Code.value_ofNat_eq_mod]

/-- One turn shows every code of digits once, and nothing else. -/
theorem count_stretch_capacity (v : Nat) (c : Code) :
    (stretch v capacity).count c = if c.Decimal then 1 else 0 := by
  have hvalues := map_value_stretch_capacity v
  have hlt : v % capacity < capacity := Nat.mod_lt v (by decide)
  split
  · next hc =>
    -- the values differ from each other, so the codes do
    have hnodup : (stretch v capacity).Nodup := by
      apply List.Nodup.of_map Code.value
      rw [hvalues, List.nodup_append]
      refine ⟨List.nodup_range', List.nodup_range, ?_⟩
      intro x hx y hy
      rw [List.mem_range'_1] at hx
      rw [List.mem_range] at hy
      omega
    have hmem : c.value ∈ (stretch v capacity).map Code.value := by
      have hvalue := hc.value_lt
      rw [hvalues, List.mem_append, List.mem_range'_1, List.mem_range]
      omega
    obtain ⟨d, hd, hdc⟩ := List.mem_map.1 hmem
    obtain ⟨x, -, rfl⟩ := List.mem_map.1 hd
    have heq : Code.ofNat x = c := by
      rw [← (Code.decimal_ofNat x).ofNat_value, hdc, hc.ofNat_value]
    rw [← heq]
    exact List.count_eq_one_of_mem hnodup hd
  · next hc =>
    rw [List.count_eq_zero]
    intro hmem
    obtain ⟨x, -, rfl⟩ := List.mem_map.1 hmem
    exact hc (Code.decimal_ofNat x)

theorem stretch_add (v m n : Nat) :
    stretch v (m + n) = stretch v m ++ stretch (v + m) n := by
  rw [stretch, ← List.range'_append_1, List.map_append]
  rfl

theorem take_drop_stretch {v n i k : Nat} (h : i + k ≤ n) :
    ((stretch v n).drop i).take k = stretch (v + i) k := by
  obtain ⟨rest, rfl⟩ := Nat.exists_eq_add_of_le h
  rw [Nat.add_assoc, stretch_add, List.drop_left' (length_stretch v i),
    stretch_add, List.take_left' (length_stretch (v + i) k)]

/-- **Moves follow the numbers.** From an accepted value `v`, whatever the
bounds are, the move number `k` shows `v + k` modulo one million. It fails
exactly when this is zero; otherwise its answer says whether the bound of this
move is still ahead. So the codes do not depend on the bounds, the faults are
as many as the multiples of one million that have been passed, and one million
moves in a row show every code once, counting up to the wrap and on from zero. -/
theorem moves_follow_numbers {value : UInt32} (h : value.toNat < capacity) :
    ∃ start, Code.ofValue value = .ok start ∧ ∀ bounds : List Bound,
      let v := value.toNat
      let calls := start.moves bounds
      calls.length = bounds.length ∧
      (∀ k bound, bounds[k]? = some bound → ∃ next,
        Code.ofValue ((v + (k + 1)) % capacity).toUInt32 = .ok next ∧
        calls[k]? = some (next,
          if capacity ∣ v + (k + 1) then .error (.carryOut "000000")
          else .ok (!bound.reached next))) ∧
      (∀ others : List Bound, others.length = bounds.length →
        (start.moves others).map Prod.fst = calls.map Prod.fst) ∧
      calls.countP (fun call => !call.2.isOk) =
        (v + bounds.length) / capacity ∧
      ∀ i, i + capacity ≤ bounds.length →
        let shown := ((calls.drop i).take capacity).map Prod.fst
        let first := (v + (i + 1)) % capacity
        (∀ c : Code, shown.count c = if c.Decimal then 1 else 0) ∧
        shown.map Code.value =
          List.range' first (capacity - first) ++ List.range first := by
  refine ⟨Code.ofNat value.toNat, Code.ofValue_of_lt h, ?_⟩
  intro bounds v calls
  have hcodes : calls.map Prod.fst = stretch (v + 1) bounds.length :=
    Code.map_fst_moves_ofNat v bounds
  refine ⟨Code.length_moves _ bounds, ?_, ?_, ?_, ?_⟩
  · intro k bound hbound
    have hlt : (v + (k + 1)) % capacity < capacity := Nat.mod_lt _ (by decide)
    refine ⟨Code.ofNat (v + (k + 1)), ?_, ?_⟩
    · rw [Code.ofValue_toUInt32 hlt, Code.ofNat_mod]
    · rw [Code.getElem?_moves_ofNat hbound, Code.advance_ofNat_eq,
        Nat.add_assoc]
  · intro others hlength
    rw [hcodes, Code.map_fst_moves_ofNat, hlength]
  · have hcount := Code.countP_moves_ofNat v bounds
    rwa [Nat.div_eq_of_lt h, Nat.zero_add] at hcount
  · intro i hi
    have hshown : ((calls.drop i).take capacity).map Prod.fst =
        stretch (v + (i + 1)) capacity := by
      have hstart : v + 1 + i = v + (i + 1) := by omega
      rw [List.map_take, List.map_drop, hcodes, take_drop_stretch hi, hstart]
    rw [hshown]
    exact ⟨count_stretch_capacity _, map_value_stretch_capacity _⟩

/-- The second move from 999998 fails. A full turn after it shows every code
once and fails once more. -/
theorem moves_past_last_code :
    ∃ start, Code.ofValue 999998 = .ok start ∧
      let calls := start.moves (⟨Code.ofNat 7⟩ :: ⟨Code.ofNat 999999⟩ ::
        List.replicate capacity ⟨Code.ofNat 1⟩)
      calls[1]? = some (Code.ofNat 0, .error (.carryOut "000000")) ∧
      calls.countP (fun call => !call.2.isOk) = 2 ∧
      (((calls.drop 2).take capacity).map Prod.fst).count (Code.ofNat 112233) =
        1 := by
  obtain ⟨start, hstart, hmoves⟩ :=
    moves_follow_numbers (by decide : (999998 : UInt32).toNat < capacity)
  obtain ⟨-, hcalls, -, hcount, hturn⟩ := hmoves
    (⟨Code.ofNat 7⟩ :: ⟨Code.ofNat 999999⟩ ::
      List.replicate capacity ⟨Code.ofNat 1⟩)
  have hround : capacity ∣ (999998 : UInt32).toNat + (1 + 1) := by decide
  obtain ⟨next, hnext, hcall⟩ := hcalls 1 ⟨Code.ofNat 999999⟩ rfl
  rw [Nat.mod_eq_zero_of_dvd hround, Code.ofValue_toUInt32 (by decide)] at hnext
  obtain rfl : Code.ofNat 0 = next := Except.ok.inj hnext
  rw [if_pos hround] at hcall
  rw [List.length_cons, List.length_cons, List.length_replicate] at hcount hturn
  refine ⟨start, hstart, hcall, ?_, ?_⟩
  · rw [hcount]
    decide
  · rw [(hturn 2 (by omega)).1, if_pos (Code.decimal_ofNat 112233)]

end Passcode
