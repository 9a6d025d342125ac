import Passcode.Proofs.Numbering
import Mathlib.Data.List.SplitBy

/-! # Blocks of equal digits

The scan keeps three things of what it has read: the last digit, the number of
its repetitions and a flag. They stand for a block that is still open, so the
scan of the remaining digits answers for the open block followed by them
(`Scan.accepts_iff`). With nothing read, this is the pattern of the whole
sequence (`accepts_start_iff`), and `Code.fits_ofNat_iff` says it of the digits
of a number in base ten. In a sequence that never falls, blocks can be told by
counting (`hasPair_iff_count`); `scan_finds_pairs` puts both together.
-/

namespace Passcode

/-! ## Blocks -/

/-- Some block of equal neighbours has two members. -/
def HasPair {α : Type} [BEq α] (ds : List α) : Prop :=
  ∃ block ∈ ds.splitBy (· == ·), block.length = 2

theorem hasPair_replicate {a : UInt8} {n : Nat} :
    HasPair (List.replicate (n + 1) a) ↔ n = 1 := by
  have hsplit : (List.replicate (n + 1) a).splitBy (· == ·) =
      [List.replicate (n + 1) a] := by
    apply List.splitBy_of_isChain (by simp)
    exact List.isChain_replicate_of_rel _ (by simp)
  rw [HasPair, hsplit]
  simp

/-- A block is closed by the first digit that differs. -/
theorem hasPair_replicate_append {a d : UInt8} {n : Nat} {ds : List UInt8}
    (h : d ≠ a) :
    HasPair (List.replicate (n + 1) a ++ d :: ds) ↔
      n = 1 ∨ HasPair (d :: ds) := by
  have hlast : ∀ x ∈ (List.replicate (n + 1) a).getLast?, (x == d) = false := by
    intro x hx
    have hxa : x = a := List.eq_of_mem_replicate (List.mem_of_mem_getLast? hx)
    simpa [hxa] using h.symm
  rw [HasPair, List.splitBy_append_cons _ hlast]
  simp only [List.mem_append, or_and_right, exists_or]
  rw [← hasPair_replicate (a := a)]
  rfl

/-! ## The scan -/

namespace Scan

theorem start_last_lt {d : UInt8} (h : IsDigit d) : start.last < d := by
  have hd := isDigit_iff.1 h
  have hlast : start.last.toNat = 47 := by decide
  rw [UInt8.lt_iff_toNat_lt]
  omega

/-- The scan answers for the open block followed by the digits still to come. -/
theorem accepts_iff (s : Scan) (ds : List UInt8) :
    s.accepts ds = true ↔ (s.last :: ds).Pairwise (· ≤ ·) ∧
      (s.sawPair = true ∨
        HasPair (List.replicate (s.repeats + 1) s.last ++ ds)) := by
  induction ds generalizing s with
  | nil =>
      rw [List.append_nil, hasPair_replicate]
      simp [accepts, pairSeen]
  | cons d ds ih =>
      rw [accepts, List.pairwise_cons_cons_iff_of_trans]
      by_cases hlt : d < s.last
      · have hnle : ¬s.last ≤ d := UInt8.not_le.2 hlt
        simp [hlt, hnle]
      · have hle : s.last ≤ d := UInt8.not_lt.1 hlt
        rw [if_neg hlt, ih]
        by_cases heq : d = s.last
        · -- the block grows by one
          subst heq
          have hgrow : List.replicate (s.repeats + 1) s.last ++ s.last :: ds =
              List.replicate (s.repeats + 1 + 1) s.last ++ ds := by
            rw [List.replicate_succ' (n := s.repeats + 1), List.append_assoc]
            rfl
          rw [hgrow]
          simp [read]
        · -- the block is closed, and its length is remembered
          rw [hasPair_replicate_append heq]
          simp [read, heq, pairSeen, hle, or_assoc]

end Scan

/-- **The scan finds the pattern.** -/
theorem accepts_start_iff {ds : List UInt8} (h : ∀ d ∈ ds, IsDigit d) :
    Scan.start.accepts ds = true ↔ Pattern ds := by
  cases ds with
  | nil => simp [Scan.accepts, Scan.start, Scan.pairSeen, Pattern]
  | cons d ds =>
      -- the byte before zero differs from every digit and lies below it
      have hlast := Scan.start_last_lt (h d List.mem_cons_self)
      have hlt : ¬d < Scan.start.last := UInt8.lt_asymm hlast
      have hne : d ≠ Scan.start.last := (UInt8.ne_of_lt hlast).symm
      have hread : Scan.start.read d = ⟨d, 0, false⟩ := if_neg hne
      rw [Scan.accepts, if_neg hlt, Scan.accepts_iff, hread]
      simp [Pattern, HasPair]

/-! ## How often a digit occurs

In a sequence that never falls, equal digits are neighbours, so a block is all
there is of its digit. -/

theorem not_mem_of_pairwise_le {a d : UInt8} {ds : List UInt8}
    (h : (a :: d :: ds).Pairwise (· ≤ ·)) (hne : d ≠ a) : a ∉ d :: ds := by
  obtain ⟨hle, hrest⟩ := List.pairwise_cons_cons_iff_of_trans.1 h
  intro hmem
  rcases List.mem_cons.1 hmem with rfl | hmem
  · exact hne rfl
  · have hge : d ≤ a := (List.pairwise_cons.1 hrest).1 a hmem
    exact hne (UInt8.le_antisymm hge hle)

theorem count_replicate_append {a : UInt8} {n : Nat} {ds : List UInt8}
    (h : a ∉ ds) (d : UInt8) :
    (List.replicate n a ++ ds).count d = if d = a then n else ds.count d := by
  rw [List.count_append]
  split
  · next heq =>
    subst heq
    rw [List.count_replicate_self, List.count_eq_zero.2 h]
    rfl
  · next hne =>
    have hzero : (List.replicate n a).count d = 0 := by
      rw [List.count_eq_zero]
      intro hmem
      exact hne (List.eq_of_mem_replicate hmem)
    rw [hzero, Nat.zero_add]

theorem exists_count_replicate_append {a : UInt8} {n : Nat} {ds : List UInt8}
    (h : a ∉ ds) :
    (∃ d, (List.replicate (n + 1) a ++ ds).count d = 2) ↔
      n = 1 ∨ ∃ d, ds.count d = 2 := by
  simp only [count_replicate_append h]
  constructor
  · rintro ⟨d, hd⟩
    split at hd
    · exact Or.inl (Nat.succ.inj hd)
    · exact Or.inr ⟨d, hd⟩
  · rintro (rfl | ⟨d, hd⟩)
    · exact ⟨a, if_pos rfl⟩
    · -- the digit of the block does not occur again
      have hne : d ≠ a := by
        rintro rfl
        rw [List.count_eq_zero.2 h] at hd
        cases hd
      exact ⟨d, by rw [if_neg hne, hd]⟩

theorem hasPair_replicate_append_iff_count {a : UInt8} {n : Nat}
    {ds : List UInt8} (h : (a :: ds).Pairwise (· ≤ ·)) :
    HasPair (List.replicate (n + 1) a ++ ds) ↔
      ∃ d, (List.replicate (n + 1) a ++ ds).count d = 2 := by
  -- by induction on the digits after the open block, as in `Scan.accepts_iff`
  induction ds generalizing a n with
  | nil =>
      rw [exists_count_replicate_append List.not_mem_nil, List.append_nil,
        hasPair_replicate]
      simp
  | cons d ds ih =>
      obtain ⟨-, hrest⟩ := List.pairwise_cons_cons_iff_of_trans.1 h
      by_cases heq : d = a
      · subst heq
        rw [List.append_cons, ← List.replicate_succ']
        exact ih hrest
      · have hnot := not_mem_of_pairwise_le h heq
        have ih := ih (n := 0) hrest
        rw [hasPair_replicate_append heq, exists_count_replicate_append hnot]
        exact or_congr_right ih

/-- In a sequence that never falls, a block of two is a digit that occurs
twice. -/
theorem hasPair_iff_count {ds : List UInt8} (h : ds.Pairwise (· ≤ ·)) :
    HasPair ds ↔ ∃ d, ds.count d = 2 := by
  cases ds with
  | nil => simp [HasPair]
  | cons d ds => exact hasPair_replicate_append_iff_count (n := 0) h

theorem accepts_start_iff_count {ds : List UInt8} (h : ∀ d ∈ ds, IsDigit d) :
    Scan.start.accepts ds = true ↔
      ds.Pairwise (· ≤ ·) ∧ ∃ d, ds.count d = 2 :=
  (accepts_start_iff h).trans (and_congr_right hasPair_iff_count)

/-- **What the scan finds.** A sequence of digits, of whatever length, is
accepted exactly when it never falls and one of its maximal blocks of equal
neighbours has two members, or, what is the same, when it never falls and some
digit occurs in it twice. The test of a code is this scan. -/
theorem scan_finds_pairs {ds : List UInt8} (h : ∀ d ∈ ds, IsDigit d) :
    (Scan.start.accepts ds = true ↔ ds.Pairwise (· ≤ ·) ∧
      ∃ block ∈ ds.splitBy (· == ·), block.length = 2) ∧
    (Scan.start.accepts ds = true ↔ ds.Pairwise (· ≤ ·) ∧
      ∃ d, ds.count d = 2) ∧
    ∀ c : Code, c.digits = ds →
      (c.fits = true ↔ ds.Pairwise (· ≤ ·) ∧
        ∃ block ∈ ds.splitBy (· == ·), block.length = 2) ∧
      (c.fits = true ↔ ds.Pairwise (· ≤ ·) ∧ ∃ d, ds.count d = 2) := by
  have hblocks : Scan.start.accepts ds = true ↔ ds.Pairwise (· ≤ ·) ∧
      ∃ block ∈ ds.splitBy (· == ·), block.length = 2 := accepts_start_iff h
  have hcounts := accepts_start_iff_count h
  refine ⟨hblocks, hcounts, ?_⟩
  rintro c rfl
  exact ⟨hblocks, hcounts⟩

/-- A block of two that no other digit closes, after a block of five. -/
theorem scan_finds_last_pair :
    Scan.start.accepts (decimal 7 1111122) = true := by
  rw [(scan_finds_pairs (isDigit_decimal 7 1111122)).2.1]
  exact ⟨by decide, 50, by decide⟩

/-! ## Digits under another name

The pattern only compares digits with each other, so it is kept by every map
that keeps their order. -/

theorem splitBy_map {α β : Type} (f : α → β) (r : β → β → Bool) (l : List α) :
    (l.map f).splitBy r =
      (l.splitBy fun a b => r (f a) (f b)).map (List.map f) := by
  -- a list of lists is the split exactly when it joins to the list, has no
  -- empty block, holds the relation within blocks and breaks it between them
  rw [List.splitBy_eq_iff]
  refine ⟨?_, ?_, ?_, ?_⟩
  · rw [← List.map_flatten, List.flatten_splitBy]
  · intro h
    obtain ⟨m, hm, hnil⟩ := List.mem_map.1 h
    exact List.ne_nil_of_mem_splitBy hm (List.map_eq_nil_iff.1 hnil)
  · intro m hm
    obtain ⟨b, hb, rfl⟩ := List.mem_map.1 hm
    exact (List.isChain_map f).2 (List.isChain_of_mem_splitBy hb)
  · rw [List.isChain_map]
    refine (List.isChain_getLast_head_splitBy _ l).imp ?_
    rintro a b ⟨ha, hb, hr⟩
    refine ⟨by simpa using ha, by simpa using hb, ?_⟩
    rwa [List.getLast_map, List.head_map]

theorem pattern_map {α β : Type} [LE α] [BEq α] [LE β] [BEq β] {f : α → β}
    (hle : ∀ a b, f a ≤ f b ↔ a ≤ b)
    (hbeq : ∀ a b, (f a == f b) = (a == b)) (l : List α) :
    Pattern (l.map f) ↔ Pattern l := by
  have hpair : (l.map f).Pairwise (· ≤ ·) ↔ l.Pairwise (· ≤ ·) := by
    rw [List.pairwise_map]
    simp only [hle]
  have hsplit : (l.map f).splitBy (· == ·) =
      (l.splitBy (· == ·)).map (List.map f) := by
    rw [splitBy_map]
    simp only [hbeq]
  rw [Pattern, Pattern, hpair, hsplit]
  simp

theorem pattern_map_toNat (ds : List UInt8) :
    Pattern (ds.map UInt8.toNat) ↔ Pattern ds := by
  apply pattern_map
  · intro a b
    exact UInt8.le_iff_toNat_le.symm
  · intro a b
    rw [Bool.eq_iff_iff, beq_iff_eq, beq_iff_eq, UInt8.toNat_inj]

theorem pattern_map_add (a : Nat) (ds : List Nat) :
    Pattern (ds.map (a + ·)) ↔ Pattern ds := by
  apply pattern_map
  · intro x y
    exact Nat.add_le_add_iff_left
  · intro x y
    rw [Bool.eq_iff_iff, beq_iff_eq, beq_iff_eq, Nat.add_left_cancel_iff]

/-- The six digits of a number in base ten, leading zeros included, have the
pattern. -/
def NumberFits (v : Nat) : Prop := Pattern (Nat.digitsAppend 10 width v).reverse

instance : DecidablePred NumberFits := fun v =>
  inferInstanceAs (Decidable (Pattern (Nat.digitsAppend 10 width v).reverse))

theorem Code.fits_ofNat_iff {v : Nat} (hv : v < capacity) :
    (Code.ofNat v).fits = true ↔ NumberFits v := by
  show Scan.start.accepts (decimal width v) = true ↔ NumberFits v
  rw [accepts_start_iff (isDigit_decimal width v), ← pattern_map_toNat,
    map_toNat_decimal hv, pattern_map_add]
  rfl

end Passcode
