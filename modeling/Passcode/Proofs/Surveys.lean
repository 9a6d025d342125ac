import Passcode.Session
import Passcode.Proofs.Walks

/-! # Surveys

A scan walks a register towards the bound and surveys what it passes. Started at
any code, also beyond its bound, it comes to rest at the landing or runs out of
visits; it fails only at the last code of all. Main statement:
`scan_rests_at_landing`.
-/

namespace Passcode

/-! ## Ends of an increasing list -/

theorem head?_eq_some_iff_isLeast {l : List Nat} (h : l.Pairwise (· < ·))
    {x : Nat} : l.head? = some x ↔ IsLeast {y | y ∈ l} x := by
  cases l with
  | nil => simp [IsLeast]
  | cons a l =>
      have hleast : IsLeast {y | y ∈ a :: l} a := by
        refine ⟨List.mem_cons_self, ?_⟩
        intro y hy
        rcases List.mem_cons.1 hy with rfl | hy
        · exact Nat.le_refl y
        · exact Nat.le_of_lt ((List.pairwise_cons.1 h).1 y hy)
      constructor
      · rintro ⟨rfl⟩
        exact hleast
      · intro hx
        rw [List.head?_cons, hleast.unique hx]

theorem getLast?_eq_some_iff_isGreatest {l : List Nat}
    (h : l.Pairwise (· < ·)) {x : Nat} :
    l.getLast? = some x ↔ IsGreatest {y | y ∈ l} x := by
  rcases List.eq_nil_or_concat' l with rfl | ⟨l, a, rfl⟩
  · simp [IsGreatest]
  · obtain ⟨-, -, hlt⟩ := List.pairwise_append.1 h
    have hgreatest : IsGreatest {y | y ∈ l ++ [a]} a := by
      refine ⟨List.mem_append_right l List.mem_cons_self, ?_⟩
      intro y hy
      rcases List.mem_append.1 hy with hy | hy
      · exact Nat.le_of_lt (hlt y hy a List.mem_cons_self)
      · exact Nat.le_of_eq (List.mem_singleton.1 hy)
    constructor
    · intro hx
      rw [List.getLast?_concat] at hx
      obtain ⟨rfl⟩ := hx
      exact hgreatest
    · intro hx
      rw [List.getLast?_concat, hgreatest.unique hx]

/-! ## Surveying a list of codes -/

theorem Survey.foldl_visit (cs : List Code) (s : Survey) :
    cs.foldl Survey.visit s =
      ⟨s.checked + cs.length, s.hits + (cs.filter Code.fits).length,
        s.first.or (cs.filter Code.fits).head?,
        (cs.filter Code.fits).getLast?.or s.last⟩ := by
  induction cs generalizing s with
  | nil => simp
  | cons c cs ih =>
      rw [List.foldl_cons, ih, Survey.visit]
      cases hc : c.fits with
      | false => simp [hc, Nat.add_assoc, Nat.add_comm 1]
      | true =>
          simp [hc, Nat.add_assoc, Nat.add_comm 1, List.getLast?_cons]

/-- What a survey has to report of `n` numbers from `v` on: how many there are,
how many of them have the pattern, and the least and the greatest of these. -/
structure Survey.Exact (seen : Survey) (v n : Nat) : Prop where
  checked : seen.checked = n
  hits : seen.hits =
    {x ∈ Finset.Ico v (v + n) | (Code.ofNat x).fits = true}.card
  first : ∀ c, seen.first = some c ↔ ∃ x,
    IsLeast {x | (v ≤ x ∧ x < v + n) ∧ (Code.ofNat x).fits = true} x ∧
      Code.ofNat x = c
  last : ∀ c, seen.last = some c ↔ ∃ x,
    IsGreatest {x | (v ≤ x ∧ x < v + n) ∧ (Code.ofNat x).fits = true} x ∧
      Code.ofNat x = c

theorem Survey.exact_foldl_stretch (v n : Nat) :
    ((stretch v n).foldl Survey.visit {}).Exact v n := by
  have hfold := Survey.foldl_visit (stretch v n) {}
  have hset : {y | y ∈ finds v n} =
      {x | (v ≤ x ∧ x < v + n) ∧ (Code.ofNat x).fits = true} := by
    ext x
    exact mem_finds
  rw [length_stretch, filter_fits_stretch] at hfold
  rw [hfold]
  refine ⟨?_, ?_, ?_, ?_⟩
  · exact Nat.zero_add n
  · rw [← length_finds, List.length_map]
    exact Nat.zero_add _
  · intro c
    simp only [Option.none_or, List.head?_map, Option.map_eq_some_iff,
      head?_eq_some_iff_isLeast (pairwise_finds v n), hset]
  · intro c
    simp only [Option.or_none, List.getLast?_map, Option.map_eq_some_iff,
      getLast?_eq_some_iff_isGreatest (pairwise_finds v n), hset]

/-! ## Scans -/

theorem FirstReached.survey {bound : Bound} {v w : Nat}
    (h : FirstReached bound v w) (visits : Nat) :
    let walked := walk Survey.visit bound visits {} (Code.ofNat v)
    walked.state.Exact v (min visits (w - v)) ∧
      walked.ending = (if w - v ≤ visits then .reached else .exhausted) ∧
      Code.ofValue (v + walked.state.checked).toUInt32 = .ok walked.code := by
  have hexact := Survey.exact_foldl_stretch v (min visits (w - v))
  have hlt : v + min visits (w - v) < capacity := by
    have hle := h.lt
    have hcap := h.lt_capacity
    omega
  rw [h.walk_eq]
  -- the code that the walk leaves has the number of visits made, not of visits
  -- allowed, so it is read off the survey
  refine ⟨hexact, rfl, ?_⟩
  rw [hexact.checked, Code.ofValue_toUInt32 hlt]

theorem survey_last (bound : Bound) (visits : Nat) :
    walk Survey.visit bound visits {} (Code.ofNat (capacity - 1)) =
      if visits = 0 then ⟨{}, Code.ofNat (capacity - 1), .exhausted⟩
      else ⟨{ checked := 1 }, Code.ofNat 0, .failed (.carryOut "000000")⟩ := by
  cases visits with
  | zero => rfl
  | succ visits =>
      -- the last code is a single block of six
      have hfits : (Code.ofNat (capacity - 1)).fits = false := by decide
      rw [walk_succ_last, if_neg (Nat.succ_ne_zero visits), Survey.visit, hfits]
      rfl

theorem Session.perform_scan {session : Session} {register : String}
    {visits : UInt32} {c : Code} {bound : Bound}
    (hreg : session.get? register = some c)
    (hbound : session.bound = some bound)
    (hvisits : visits.toNat ≤ scanLimit) :
    let walked := walk Survey.visit bound visits.toNat {} c
    session.perform (.scan register visits) =
      (session.put register walked.code,
        .ok (.survey walked.state walked.ending)) := by
  have hoperands : session.operands register = .ok (c, bound) := by
    rw [Session.operands, hreg, hbound]
  rw [Session.perform, if_neg (Nat.not_lt.2 hvisits), hoperands]

/-- **A scan comes to rest at the landing.** Before the last code, the landing
is the least number ahead that reaches the bound, and the bound itself if that
is ahead. The scan makes the visits up to it, or as many as it is allowed,
surveys them exactly and stands behind the last of them. At the last code the
first visit fails. A session's scan is this walk. -/
theorem scan_rests_at_landing {v limit : Nat} {c : Code} {bound : Bound}
    (hc : c.Decimal) (hv : c.value = v) (hb : bound.code.Decimal)
    (hlimit : bound.code.value = limit) :
    (v + 1 < capacity →
      (v < landing v limit ∧ landing v limit < capacity) ∧
      IsLeast {x | v < x ∧ x < capacity ∧ bound.reached (Code.ofNat x) = true}
        (landing v limit) ∧
      (v < limit → landing v limit = limit) ∧
      ∀ visits : Nat,
        let walked := walk Survey.visit bound visits {} c
        walked.state.Exact v (min visits (landing v limit - v)) ∧
        walked.ending =
          (if landing v limit - v ≤ visits then .reached else .exhausted) ∧
        Code.ofValue (v + walked.state.checked).toUInt32 = .ok walked.code) ∧
    (v + 1 = capacity → ∀ visits : Nat,
      walk Survey.visit bound visits {} c =
        if visits = 0 then ⟨{}, c, .exhausted⟩
        else ⟨{ checked := 1 }, Code.ofNat 0, .failed (.carryOut "000000")⟩) ∧
    ∀ (session : Session) (register : String) (visits : UInt32),
      session.get? register = some c → session.bound = some bound →
      visits.toNat ≤ scanLimit →
        let walked := walk Survey.visit bound visits.toNat {} c
        session.perform (.scan register visits) =
          (session.put register walked.code,
            .ok (.survey walked.state walked.ending)) := by
  have hcode : c = Code.ofNat v := by rw [← hv, hc.ofNat_value]
  subst hlimit
  rw [hcode]
  refine ⟨?_, ?_, ?_⟩
  · intro hv
    refine ⟨⟨lt_landing hv, landing_lt hv⟩, Bound.isLeast_landing hb hv, ?_, ?_⟩
    · intro hlt
      exact landing_of_lt hlt hb.value_lt
    · exact (firstReached_landing hb hv).survey
  · intro hlast visits
    obtain rfl : v = capacity - 1 := by omega
    exact survey_last bound visits
  · intro session register visits hreg hbound hvisits
    exact Session.perform_scan hreg hbound hvisits

/-- Started beyond its bound, a scan reaches it after three visits. -/
theorem scan_from_892950 :
    let walked :=
      walk Survey.visit ⟨Code.ofNat 892943⟩ 10 {} (Code.ofNat 892950)
    walked.state.checked = 3 ∧ walked.ending = .reached := by
  have hbound : (Bound.mk (Code.ofNat 892943)).code.Decimal :=
    Code.decimal_ofNat 892943
  have hscan := scan_rests_at_landing (Code.decimal_ofNat 892950)
    (Code.value_ofNat (by decide)) hbound (Code.value_ofNat (by decide))
  obtain ⟨-, -, -, hwalk⟩ := hscan.1 (by decide)
  obtain ⟨hexact, hending, -⟩ := hwalk 10
  have hlanding : landing 892950 892943 = 892953 := by decide
  rw [hlanding] at hexact hending
  exact ⟨hexact.checked, hending⟩

end Passcode
