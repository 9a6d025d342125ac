import Passcode.Proofs.Blocks

/-! # Symmetries of the pattern

The scan only looks at how each digit stands to the one before it, so two
sequences that rise, stay and fall at the same places take it through the same
course (`Scan.Alike.accepts_eq`). And it does not matter from which end the
digits are read: a mirrored sequence, turned round with every digit completed to
nine, rises where the sequence rises and repeats what it repeats
(`accepts_mirrored`). `fits_sees_only_order` says both of codes.
-/

namespace Passcode

/-! ## Two scans side by side -/

/-- One step in two sequences at once, from the digits `p` to the digits `q`: it
rises in both, stays in both or falls in both. -/
def StepAlike (p q : UInt8 × UInt8) : Prop :=
  (p.1 < q.1 ↔ p.2 < q.2) ∧ (q.1 < p.1 ↔ q.2 < p.2)

theorem eq_iff_not_lt {a b : UInt8} : a = b ↔ ¬a < b ∧ ¬b < a := by
  rw [UInt8.not_lt, UInt8.not_lt]
  constructor
  · rintro rfl
    exact ⟨UInt8.le_refl a, UInt8.le_refl a⟩
  · rintro ⟨hba, hab⟩
    exact UInt8.le_antisymm hab hba

theorem StepAlike.eq_iff {p q : UInt8 × UInt8} (h : StepAlike p q) :
    q.1 = p.1 ↔ q.2 = p.2 := by
  rw [eq_iff_not_lt, eq_iff_not_lt, h.1, h.2]

namespace Scan

/-- Two scans that have counted the same, whatever digits they have read. -/
structure Alike (s t : Scan) : Prop where
  repeats : s.repeats = t.repeats
  sawPair : s.sawPair = t.sawPair

theorem last_read (s : Scan) (d : UInt8) : (s.read d).last = d := by
  unfold read
  split
  · next heq => exact heq.symm
  · rfl

variable {s t : Scan} {p : UInt8 × UInt8} {ps : List (UInt8 × UInt8)}

theorem Alike.pairSeen (h : s.Alike t) : s.pairSeen = t.pairSeen := by
  rw [Scan.pairSeen, Scan.pairSeen, h.repeats, h.sawPair]

/-- Scans stay alike over a step that is alike. -/
theorem Alike.read (h : s.Alike t) (hp : StepAlike (s.last, t.last) p) :
    (s.read p.1).Alike (t.read p.2) := by
  unfold Scan.read
  by_cases heq : p.1 = s.last
  · rw [if_pos heq, if_pos (hp.eq_iff.1 heq)]
    exact ⟨congrArg (· + 1) h.repeats, h.sawPair⟩
  · rw [if_neg heq, if_neg (mt hp.eq_iff.2 heq)]
    exact ⟨rfl, h.pairSeen⟩

/-- Scans that are alike give the same answer on sequences that step alike. -/
theorem Alike.accepts_eq (h : s.Alike t)
    (hps : ((s.last, t.last) :: ps).IsChain StepAlike) :
    s.accepts (ps.map Prod.fst) = t.accepts (ps.map Prod.snd) := by
  induction ps generalizing s t with
  | nil => exact h.pairSeen
  | cons p ps ih =>
      obtain ⟨hp, hrest⟩ := List.isChain_cons_cons.1 hps
      rw [List.map_cons, List.map_cons, accepts, accepts]
      by_cases hfall : p.1 < s.last
      · rw [if_pos hfall, if_pos (hp.2.1 hfall)]
      · rw [if_neg hfall, if_neg (mt hp.2.2 hfall)]
        apply ih (h.read hp)
        rwa [last_read, last_read]

end Scan

/-- Sequences of digits that step alike have the pattern together. -/
theorem accepts_start_eq {ps : List (UInt8 × UInt8)}
    (hdigits : ∀ p ∈ ps, IsDigit p.1 ∧ IsDigit p.2)
    (hps : ps.IsChain StepAlike) :
    Scan.start.accepts (ps.map Prod.fst) =
      Scan.start.accepts (ps.map Prod.snd) := by
  apply Scan.Alike.accepts_eq ⟨rfl, rfl⟩
  refine List.isChain_cons.2 ⟨?_, hps⟩
  -- both sequences rise to their first digit
  intro p hp
  obtain ⟨hfst, hsnd⟩ := hdigits p (List.mem_of_mem_head? hp)
  have hfst := Scan.start_last_lt hfst
  have hsnd := Scan.start_last_lt hsnd
  exact ⟨iff_of_true hfst hsnd,
    iff_of_false (UInt8.lt_asymm hfst) (UInt8.lt_asymm hsnd)⟩

/-! ## The mirror -/

/-- What a digit lacks to nine, as a digit. -/
def complement (d : UInt8) : UInt8 := zero + (nine - d)

theorem complement_complement (d : UInt8) : complement (complement d) = d := by
  unfold complement
  grind

theorem complement_injective : Function.Injective complement :=
  Function.LeftInverse.injective complement_complement

theorem toNat_complement {d : UInt8} (h : IsDigit d) :
    (complement d).toNat = 105 - d.toNat := by
  have hd := isDigit_iff.1 h
  have hsub : (nine - d).toNat = 57 - d.toNat := UInt8.toNat_sub_of_le _ _ h.2
  rw [complement, UInt8.toNat_add, hsub]
  simp [zero]
  omega

theorem IsDigit.complement {d : UInt8} (h : IsDigit d) :
    IsDigit (complement d) := by
  have hd := isDigit_iff.1 h
  rw [isDigit_iff, toNat_complement h]
  omega

theorem complement_le_complement_iff {d e : UInt8} (hd : IsDigit d)
    (he : IsDigit e) : complement d ≤ complement e ↔ e ≤ d := by
  have hd' := isDigit_iff.1 hd
  have he' := isDigit_iff.1 he
  rw [UInt8.le_iff_toNat_le, UInt8.le_iff_toNat_le, toNat_complement hd,
    toNat_complement he]
  omega

/-- The digits from the last to the first, each completed to nine. -/
def mirrored (ds : List UInt8) : List UInt8 := (ds.map complement).reverse

theorem isDigit_mirrored {ds : List UInt8} (h : ∀ d ∈ ds, IsDigit d) :
    ∀ d ∈ mirrored ds, IsDigit d := by
  intro d hd
  obtain ⟨e, he, rfl⟩ := List.mem_map.1 (List.mem_reverse.1 hd)
  exact (h e he).complement

/-- The mirror turns the order round twice. -/
theorem pairwise_le_mirrored_iff {ds : List UInt8} (h : ∀ d ∈ ds, IsDigit d) :
    (mirrored ds).Pairwise (· ≤ ·) ↔ ds.Pairwise (· ≤ ·) := by
  rw [mirrored, List.pairwise_reverse, List.pairwise_map]
  apply List.Pairwise.iff_of_mem
  intro a b ha hb
  exact complement_le_complement_iff (h b hb) (h a ha)

theorem count_mirrored (ds : List UInt8) (d : UInt8) :
    (mirrored ds).count (complement d) = ds.count d := by
  rw [mirrored, List.count_reverse,
    List.count_map_of_injective _ _ complement_injective]

/-- **Both ends are alike.** The mirror has the pattern when the sequence has. -/
theorem accepts_mirrored {ds : List UInt8} (h : ∀ d ∈ ds, IsDigit d) :
    Scan.start.accepts (mirrored ds) = Scan.start.accepts ds := by
  -- told by counting: blocks would have to be reversed, occurrences need not
  have hcounts : (∃ d, (mirrored ds).count d = 2) ↔ ∃ d, ds.count d = 2 := by
    constructor
    · rintro ⟨d, hd⟩
      refine ⟨complement d, ?_⟩
      rwa [← count_mirrored, complement_complement]
    · rintro ⟨d, hd⟩
      exact ⟨complement d, by rwa [count_mirrored]⟩
  rw [Bool.eq_iff_iff, accepts_start_iff_count (isDigit_mirrored h),
    accepts_start_iff_count h, pairwise_le_mirrored_iff h, hcounts]

/-! ## Codes -/

namespace Code

/-- The digit in a place, the first place being the most significant. -/
def digit (c : Code) (i : Fin width) : UInt8 :=
  c.digits.get ⟨i, Nat.lt_of_lt_of_eq i.isLt c.length_digits.symm⟩

/-- The code seen in the mirror. -/
def mirror (c : Code) : Code :=
  ⟨mirrored c.digits, by simp [mirrored, c.length_digits]⟩

theorem digit_mirror (c : Code) (i : Fin width) :
    c.mirror.digit i = complement (c.digit i.rev) := by
  have hindex : (c.digits.map complement).length - 1 - i = i.rev := by
    rw [List.length_map, c.length_digits, Fin.val_rev, Nat.sub_sub,
      Nat.add_comm]
  simp only [digit, mirror, mirrored, List.get_eq_getElem, List.getElem_reverse,
    List.getElem_map, hindex]

theorem fits_eq_of_lt_iff {c d : Code} (hc : c.Decimal) (hd : d.Decimal)
    (h : ∀ i j, c.digit i < c.digit j ↔ d.digit i < d.digit j) :
    c.fits = d.fits := by
  have hlength : c.digits.length = d.digits.length :=
    c.length_digits.trans d.length_digits.symm
  have hchain : (c.digits.zip d.digits).IsChain StepAlike := by
    rw [List.isChain_iff_getElem]
    intro i hi
    rw [List.length_zip, ← hlength, Nat.min_self, c.length_digits] at hi
    rw [List.getElem_zip, List.getElem_zip]
    exact ⟨h ⟨i, Nat.lt_of_succ_lt hi⟩ ⟨i + 1, hi⟩,
      h ⟨i + 1, hi⟩ ⟨i, Nat.lt_of_succ_lt hi⟩⟩
  have hdigits : ∀ p ∈ c.digits.zip d.digits, IsDigit p.1 ∧ IsDigit p.2 := by
    rintro ⟨a, b⟩ hp
    obtain ⟨ha, hb⟩ := List.of_mem_zip hp
    exact ⟨hc a ha, hd b hb⟩
  have haccepts := accepts_start_eq hdigits hchain
  rwa [List.map_fst_zip (Nat.le_of_eq hlength),
    List.map_snd_zip (Nat.le_of_eq hlength.symm)] at haccepts

end Code

/-- **The test sees only the order of the digits**, and both ends alike. Codes
whose digits compare alike at any two places pass together, and so do a code and
its mirror, whose digits are those of the code from the last to the first, each
taken from nine. -/
theorem fits_sees_only_order {c : Code} (hc : c.Decimal) :
    (∀ d : Code, d.Decimal →
      (∀ i j : Fin width, c.digit i < c.digit j ↔ d.digit i < d.digit j) →
      c.fits = d.fits) ∧
    c.mirror.Decimal ∧
    (∀ i : Fin width, (c.mirror.digit i - zero).toNat =
      9 - (c.digit i.rev - zero).toNat) ∧
    c.mirror.fits = c.fits := by
  refine ⟨?_, isDigit_mirrored hc, ?_, accepts_mirrored hc⟩
  · intro d hd h
    exact Code.fits_eq_of_lt_iff hc hd h
  · intro i
    have hdigit : IsDigit (c.digit i.rev) := hc _ (List.get_mem _ _)
    have hbounds := isDigit_iff.1 hdigit
    rw [Code.digit_mirror, hdigit.complement.toNat_sub_zero,
      toNat_complement hdigit, hdigit.toNat_sub_zero]
    omega

/-- The leading zeros of 001234 pass for a pair as the ones of 112345 do, and as
the nines at the end of its mirror, 567899, do. -/
theorem fits_001234_as_567899 :
    (Code.ofNat 1234).fits = (Code.ofNat 112345).fits ∧
      (Code.ofNat 567899).fits = (Code.ofNat 1234).fits := by
  obtain ⟨horder, -, -, hmirror⟩ :=
    fits_sees_only_order (Code.decimal_ofNat 1234)
  have hcode : (Code.ofNat 1234).mirror = Code.ofNat 567899 := by decide
  refine ⟨horder _ (Code.decimal_ofNat 112345) (by decide), ?_⟩
  rwa [hcode] at hmirror

end Passcode
