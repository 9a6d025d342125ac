import Passcode.Proofs.Walks

/-! # Searches

A search of a valid span is a walk from its lower end to the number after its
upper end. `searchFrom_eq` gives its whole report at once, for every verbosity:
the tally and the events that were kept. The statements about counts, faults and
the log are read off it.
-/

namespace Passcode

/-! ## Valid spans -/

/-- The ends are in order, and the number after the upper end has a code. -/
structure Span.Valid (span : Span) : Prop where
  ordered : span.lower ≤ span.upper
  fits : span.upper.toNat + 1 < capacity

namespace Span

variable {span : Span}

theorem Valid.toNat_le (h : span.Valid) : span.lower.toNat ≤ span.upper.toNat :=
  UInt32.le_iff_toNat_le.1 h.ordered

theorem Valid.lower_lt (h : span.Valid) : span.lower.toNat < capacity :=
  Nat.lt_trans (Nat.lt_succ_of_le h.toNat_le) h.fits

theorem validate_of_valid (h : span.Valid) : span.validate = .ok () := by
  rw [validate, if_neg (UInt32.not_lt.2 h.ordered), Bound.after_of_lt h.fits]
  rfl

theorem validate_of_lt (h : span.upper < span.lower) :
    span.validate = .error (.inverted span.lower span.upper) := if_pos h

theorem validate_of_wide (hle : span.lower ≤ span.upper)
    (h : capacity ≤ span.upper.toNat + 1) :
    span.validate = .error (.tooWide
      (if span.upper.toNat + 1 < UInt32.size then span.upper + 1
        else span.upper)) := by
  rw [validate, if_neg (UInt32.not_lt.2 hle), Bound.after_of_le h]
  rfl

/-- A span is valid, out of order, or in order and too wide. -/
theorem valid_or (span : Span) :
    span.Valid ∨ span.upper < span.lower ∨
      span.lower ≤ span.upper ∧ capacity ≤ span.upper.toNat + 1 := by
  by_cases hle : span.lower ≤ span.upper
  · rcases Nat.lt_or_ge (span.upper.toNat + 1) capacity with hlt | hge
    · exact Or.inl ⟨hle, hlt⟩
    · exact Or.inr (Or.inr ⟨hle, hge⟩)
  · exact Or.inr (Or.inl (UInt32.not_le.1 hle))

theorem valid_of_validate (h : span.validate = .ok ()) : span.Valid := by
  rcases valid_or span with hvalid | hlt | ⟨hle, hge⟩
  · exact hvalid
  · rw [validate_of_lt hlt] at h
    cases h
  · rw [validate_of_wide hle hge] at h
    cases h

theorem ends_of_valid (h : span.Valid) :
    span.ends = .ok (Code.ofNat span.lower.toNat,
      ⟨Code.ofNat (span.upper.toNat + 1)⟩) := by
  rw [ends, validate_of_valid h, Code.ofValue_of_lt h.lower_lt,
    Bound.after_of_lt h.fits]
  rfl

theorem ends_of_error {fault : Fault} (h : span.validate = .error fault) :
    span.ends = .error fault := by
  rw [ends, h]
  rfl

/-- How many values the span has. -/
def size (span : Span) : Nat := span.upper.toNat - span.lower.toNat + 1

theorem Valid.sub_eq_size (h : span.Valid) :
    span.upper.toNat + 1 - span.lower.toNat = span.size :=
  Nat.succ_sub h.toNat_le

theorem Valid.size_lt_capacity (h : span.Valid) : span.size < capacity := by
  have hfits := h.fits
  rw [size]
  omega

theorem Valid.size_lt (h : span.Valid) : span.size < UInt32.size :=
  Nat.lt_trans h.size_lt_capacity (by decide)

theorem Valid.firstReached (h : span.Valid) :
    FirstReached ⟨Code.ofNat (span.upper.toNat + 1)⟩ span.lower.toNat
      (span.upper.toNat + 1) :=
  firstReached_of_lt (Nat.lt_succ_of_le h.toNat_le) h.fits

end Span

/-! ## What a stretch adds to the progress -/

theorem Log.toList_emit_eq_filter (log : Log) (e : Event) :
    (log.emit e).events.toList = log.events.toList ++
      [e].filter fun e => log.verbosity.admits e.level := by
  rw [Log.toList_emit, List.filter_singleton]
  cases log.verbosity.admits e.level <;> rfl

namespace Progress

theorem foldl_visit_tally (cs : List Code) (p : Progress) :
    (cs.foldl Progress.visit p).tally =
      ⟨p.tally.checked + cs.length.toUInt32,
        p.tally.possibilities + (cs.filter Code.fits).length.toUInt32⟩ := by
  induction cs generalizing p with
  | nil => simp
  | cons c cs ih =>
      rw [List.foldl_cons, ih, Progress.visit]
      cases hc : c.fits with
      | false => simp [hc, Tally.count, UInt32.add_assoc, UInt32.add_comm 1]
      | true => simp [hc, Tally.count, UInt32.add_assoc, UInt32.add_comm 1]

theorem foldl_visit_log (cs : List Code) (p : Progress) :
    (cs.foldl Progress.visit p).log.verbosity = p.log.verbosity ∧
    (cs.foldl Progress.visit p).log.events.toList = p.log.events.toList ++
      ((cs.filter Code.fits).map Event.found).filter
        fun e => p.log.verbosity.admits e.level := by
  induction cs generalizing p with
  | nil => simp
  | cons c cs ih =>
      -- a visit keeps the verbosity, so all events pass the same filter
      obtain ⟨hverbosity, hevents⟩ := ih (p.visit c)
      rw [List.foldl_cons, hverbosity, hevents, Progress.visit]
      cases hc : c.fits with
      | false => simp [hc]
      | true =>
          refine ⟨Log.verbosity_emit _ _, ?_⟩
          simp only [if_true, Log.toList_emit_eq_filter, Log.verbosity_emit,
            List.append_assoc]
          rw [← List.filter_append]
          simp [hc]

end Progress

/-! ## The report of a search -/

/-- The tally of `n` numbers from `v` on. -/
def Tally.ofStretch (v n : Nat) : Tally :=
  ⟨n.toUInt32, (finds v n).length.toUInt32⟩

theorem Tally.toNat_ofStretch {v n : Nat} (h : n < UInt32.size) :
    (Tally.ofStretch v n).checked.toNat = n ∧
      (Tally.ofStretch v n).possibilities.toNat = (finds v n).length := by
  have hfinds := Nat.lt_of_le_of_lt (length_finds_le v n) h
  exact ⟨UInt32.toNat_ofNat_of_lt h, UInt32.toNat_ofNat_of_lt hfinds⟩

theorem Progress.tally_foldl_stretch (v n : Nat) (log : Log) :
    ((stretch v n).foldl Progress.visit { log }).tally =
      Tally.ofStretch v n := by
  rw [Progress.foldl_visit_tally, length_stretch, filter_fits_stretch,
    List.length_map, UInt32.zero_add, UInt32.zero_add]
  rfl

/-- Everything that a search from `v` to `bound` has to tell, `n` numbers being
passed on the way. -/
def story (v n : Nat) (bound : Code) : List Event :=
  [.searching (Code.ofNat v) bound] ++
    (finds v n).map (fun x => .found (Code.ofNat x)) ++
    [.finished (Tally.ofStretch v n)]

/-- **The report of a search**: the tally of the stretch before the bound, and
of its story what the verbosity admits. -/
theorem FirstReached.searchFrom_eq {bound : Bound} {v w : Nat}
    (h : FirstReached bound v w) (verbosity : Verbosity) :
    searchFrom (Code.ofNat v) bound verbosity =
      ⟨(story v (w - v) bound.code).filter fun e => verbosity.admits e.level,
        .ok (Tally.ofStretch v (w - v))⟩ := by
  -- there are fewer numbers ahead than visits, so the bound ends the walk
  have hvisits := h.sub_le_capacity
  obtain ⟨hverbosity, hevents⟩ := Progress.foldl_visit_log (stretch v (w - v))
    { log := Log.emit { verbosity } (.searching (Code.ofNat v) bound.code) }
  rw [Log.verbosity_emit] at hverbosity
  rw [Log.toList_emit_eq_filter, Log.verbosity_emit, filter_fits_stretch,
    List.map_map] at hevents
  rw [searchFrom, h.walk_eq, Nat.min_eq_right hvisits, if_pos hvisits]
  simp only [Log.toList_emit_eq_filter]
  rw [hverbosity, hevents, Progress.tally_foldl_stretch, story,
    List.filter_append, List.filter_append]
  rfl

/-- A search between digits fails only at the last code of all. It never runs
out of visits. -/
theorem searchFrom_fails_at_last {start : Code} {bound : Bound}
    {verbosity : Verbosity} {fault : Fault} (hstart : start.Decimal)
    (hbound : bound.code.Decimal)
    (h : (searchFrom start bound verbosity).result = .error fault) :
    start = Code.ofNat (capacity - 1) ∧ fault = .carryOut "000000" := by
  rw [searchFrom] at h
  split at h
  · cases h
  · next hending =>
    exact absurd hending (ending_walk_capacity_ne_exhausted hbound hstart)
  · next _ hending =>
    obtain ⟨hlast, -, hcarry⟩ := walk_failed hbound hstart hending
    cases h
    exact ⟨hlast, hcarry⟩

/-- Everything that a search of the span has to tell. -/
def Span.story (span : Span) : List Event :=
  Passcode.story span.lower.toNat span.size (Code.ofNat (span.upper.toNat + 1))

theorem search_of_valid {span : Span} (h : span.Valid) (verbosity : Verbosity) :
    search span verbosity =
      ⟨span.story.filter fun e => verbosity.admits e.level,
        .ok (Tally.ofStretch span.lower.toNat span.size)⟩ := by
  rw [search, Span.ends_of_valid h, Span.story, ← h.sub_eq_size]
  exact h.firstReached.searchFrom_eq verbosity

theorem search_of_error {span : Span} {fault : Fault}
    (h : span.validate = .error fault) (verbosity : Verbosity) :
    search span verbosity = ⟨[], .error fault⟩ := by
  rw [search, Span.ends_of_error h]

/-! ## Counts -/

theorem Span.Valid.length_finds {span : Span} (h : span.Valid) :
    (finds span.lower.toNat span.size).length =
      {v ∈ Finset.Icc span.lower.toNat span.upper.toNat |
        NumberFits v}.card := by
  have hle := h.toNat_le
  have hfits := h.fits
  rw [Passcode.length_finds]
  congr 1
  ext v
  simp only [Finset.mem_filter, Finset.mem_Ico, Finset.mem_Icc, Span.size]
  constructor
  · rintro ⟨hv, hpattern⟩
    exact ⟨by omega, (Code.fits_ofNat_iff (by omega)).1 hpattern⟩
  · rintro ⟨hv, hpattern⟩
    exact ⟨by omega, (Code.fits_ofNat_iff (by omega)).2 hpattern⟩

/-- **A search counts its span.** It tests every number from the lower to the
upper end, and of these it counts the ones whose digits have the pattern. Its
walk stops at the number after the upper end, neither before nor beyond it,
whatever is done on the way; the visits that a search may make are more than
enough for that. -/
theorem search_counts_span {span : Span} (h : span.Valid)
    (verbosity : Verbosity) :
    (∃ tally, (search span verbosity).result = .ok tally ∧
      tally.checked.toNat = span.upper.toNat - span.lower.toNat + 1 ∧
      tally.possibilities.toNat =
        {v ∈ Finset.Icc span.lower.toNat span.upper.toNat |
          NumberFits v}.card) ∧
    span.upper.toNat - span.lower.toNat + 1 < capacity ∧
    ∃ start bound, span.ends = .ok (start, bound) ∧
      ∀ (σ : Type) (visit : σ → Code → σ) (visits : Nat) (state : σ),
        let walked := walk visit bound visits state start
        let n := span.upper.toNat - span.lower.toNat + 1
        walked.ending = (if n ≤ visits then .reached else .exhausted) ∧
        walked.code = Code.ofNat (span.lower.toNat + min visits n) := by
  refine ⟨?_, h.size_lt_capacity, ?_⟩
  · refine ⟨Tally.ofStretch span.lower.toNat span.size, ?_, ?_, ?_⟩
    · rw [search_of_valid h]
    · exact (Tally.toNat_ofStretch h.size_lt).1
    · rw [(Tally.toNat_ofStretch h.size_lt).2, h.length_finds]
  · refine ⟨_, _, Span.ends_of_valid h, ?_⟩
    intro σ visit visits state
    rw [h.firstReached.walk_eq, h.sub_eq_size]
    exact ⟨rfl, rfl⟩

/-- The widest span of all: every number but the last. -/
theorem search_counts_widest :
    ∃ tally, (search ⟨0, 999998⟩ .off).result = .ok tally ∧
      tally.checked.toNat = 999999 ∧
      tally.possibilities.toNat =
        {v ∈ Finset.Icc 0 999998 | NumberFits v}.card := by
  have hvalid : Span.Valid ⟨0, 999998⟩ := ⟨by decide, by decide⟩
  exact (search_counts_span hvalid .off).1

/-! ## Faults -/

namespace Span

/-- The value that is reported as too wide. The successor does not wrap around:
the largest word is reported itself. -/
theorem toNat_tooWide (x : UInt32) :
    (if x.toNat + 1 < UInt32.size then x + 1 else x).toNat =
      if x.toNat = 4294967295 then 4294967295 else x.toNat + 1 := by
  have hlt : x.toNat < 4294967296 := x.toNat_lt
  by_cases hsize : x.toNat + 1 < UInt32.size
  · have hne : x.toNat ≠ 4294967295 := by
      have hmax : x.toNat + 1 < 4294967296 := hsize
      omega
    rw [if_pos hsize, if_neg hne, toNat_add_one hsize]
  · have heq : x.toNat = 4294967295 := by
      have hmax : ¬x.toNat + 1 < 4294967296 := hsize
      omega
    rw [if_neg hsize, if_pos heq, heq]

theorem validate_eq_error_iff (span : Span) (e : Fault) :
    span.validate = .error e ↔
      span.upper < span.lower ∧ e = .inverted span.lower span.upper ∨
      span.lower ≤ span.upper ∧ capacity ≤ span.upper.toNat + 1 ∧
        ∃ value, e = .tooWide value ∧ value.toNat =
          if span.upper.toNat = 4294967295 then 4294967295
          else span.upper.toNat + 1 := by
  rcases valid_or span with hvalid | hlt | ⟨hle, hge⟩
  · have hfits := hvalid.fits
    have hnlt : ¬span.upper < span.lower := UInt32.not_lt.2 hvalid.ordered
    have hnge : ¬capacity ≤ span.upper.toNat + 1 := Nat.not_le.2 hfits
    rw [validate_of_valid hvalid]
    simp [hnlt, hnge]
  · have hnle : ¬span.lower ≤ span.upper := UInt32.not_le.2 hlt
    rw [validate_of_lt hlt]
    simp [hlt, hnle, eq_comm]
  · have hnlt : ¬span.upper < span.lower := UInt32.not_lt.2 hle
    have hwide := toNat_tooWide span.upper
    rw [validate_of_wide hle hge]
    constructor
    · rintro ⟨⟩
      exact Or.inr ⟨hle, hge, _, rfl, hwide⟩
    · rintro (⟨hlt, -⟩ | ⟨-, -, value, rfl, hvalue⟩)
      · exact absurd hlt hnlt
      · rw [UInt32.toNat_inj.1 (hwide.trans hvalue.symm)]

theorem Valid.tally_walk {span : Span} (h : span.Valid) (visits : Nat)
    (log : Log) :
    (walk Progress.visit ⟨Code.ofNat (span.upper.toNat + 1)⟩ visits { log }
      (Code.ofNat span.lower.toNat)).state.tally =
        Tally.ofStretch span.lower.toNat (min visits span.size) := by
  rw [h.firstReached.walk_eq, h.sub_eq_size]
  exact Progress.tally_foldl_stretch _ _ log

theorem Valid.walk_never_fails {span : Span} (h : span.Valid) (visits : Nat)
    (log : Log) (fault : Fault) :
    (walk Progress.visit ⟨Code.ofNat (span.upper.toNat + 1)⟩ visits { log }
      (Code.ofNat span.lower.toNat)).ending ≠ .failed fault := by
  rw [h.firstReached.walk_eq]
  show (if _ then Ending.reached else Ending.exhausted) ≠ .failed fault
  split
  · exact Ending.noConfusion
  · exact Ending.noConfusion

end Span

theorem result_search_eq_error_iff (span : Span) (verbosity : Verbosity)
    (e : Fault) :
    (search span verbosity).result = .error e ↔ span.validate = .error e := by
  cases hvalidate : span.validate with
  | error fault =>
      rw [search_of_error hvalidate]
      simp
  | ok _ =>
      rw [search_of_valid (Span.valid_of_validate hvalidate)]
      simp

/-- **A search fails exactly as the validation of its span does**, and in
silence. The fault is the wrong order of the ends, or else that the bound after
the upper end has no code. Past the validation nothing fails: the lower end has
a code, the bound exists, no move carries out, and no count comes near the end
of its range. -/
theorem search_fails_as_validate (span : Span) (verbosity : Verbosity) :
    (∀ e, (search span verbosity).result = .error e ↔
      span.validate = .error e) ∧
    (∀ e, span.validate = .error e ↔
      span.upper < span.lower ∧ e = .inverted span.lower span.upper ∨
      span.lower ≤ span.upper ∧ capacity ≤ span.upper.toNat + 1 ∧
        ∃ value, e = .tooWide value ∧ value.toNat =
          if span.upper.toNat = 4294967295 then 4294967295
          else span.upper.toNat + 1) ∧
    (span.validate = .ok () → ∃ start bound,
      Code.ofValue span.lower = .ok start ∧ Bound.after span.upper = .ok bound ∧
      (span.upper + 1).toNat = span.upper.toNat + 1 ∧
      ∀ (visits : Nat) (log : Log),
        let walked := walk Progress.visit bound visits { log } start
        (∀ fault, walked.ending ≠ .failed fault) ∧
        walked.state.tally.checked.toNat =
          min visits (span.upper.toNat - span.lower.toNat + 1) ∧
        walked.state.tally.possibilities.toNat ≤
          walked.state.tally.checked.toNat ∧
        walked.state.tally.checked.toNat + 1 < UInt32.size) ∧
    (∀ text, (search span verbosity).result ≠ .error (.carryOut text)) ∧
    ∀ e, (search span verbosity).result = .error e →
      (search span verbosity).events = [] := by
  refine ⟨result_search_eq_error_iff span verbosity,
    span.validate_eq_error_iff, ?_, ?_, ?_⟩
  · -- what is validated is all that the later steps need
    intro hvalidate
    have hvalid := Span.valid_of_validate hvalidate
    have hfits := hvalid.fits
    have hsize : capacity < UInt32.size := by decide
    refine ⟨_, _, Code.ofValue_of_lt hvalid.lower_lt, Bound.after_of_lt hfits,
      toNat_add_one (Nat.lt_trans hfits hsize), ?_⟩
    intro visits log walked
    have hmin : min visits span.size < UInt32.size :=
      Nat.lt_of_le_of_lt (Nat.min_le_right _ _) hvalid.size_lt
    obtain ⟨hchecked, hpossibilities⟩ :=
      Tally.toNat_ofStretch (v := span.lower.toNat) hmin
    rw [← hvalid.tally_walk visits log] at hchecked hpossibilities
    refine ⟨hvalid.walk_never_fails visits log, hchecked, ?_, ?_⟩
    · rw [hchecked, hpossibilities]
      exact length_finds_le _ _
    · rw [hchecked]
      have hlt := hvalid.size_lt_capacity
      omega
  · -- the faults of the validation have other causes
    intro text htext
    rw [result_search_eq_error_iff, span.validate_eq_error_iff] at htext
    rcases htext with ⟨-, hfault⟩ | ⟨-, -, value, hfault, -⟩
    · cases hfault
    · cases hfault
  · intro e he
    rw [search_of_error ((result_search_eq_error_iff span verbosity e).1 he)]

/-- The order of the ends is looked at first; then the number after the upper
end is reported, unless there is none. -/
theorem search_fails_at_wrong_ends :
    (search ⟨4294967295, 9⟩ .off).result = .error (.inverted 4294967295 9) ∧
    (search ⟨0, 999999⟩ .off).result = .error (.tooWide 1000000) ∧
    (search ⟨0, 4294967295⟩ .off).result = .error (.tooWide 4294967295) := by
  refine ⟨?_, ?_, ?_⟩
  · rw [(search_fails_as_validate ⟨4294967295, 9⟩ .off).1]
    decide
  · rw [(search_fails_as_validate ⟨0, 999999⟩ .off).1]
    decide
  · rw [(search_fails_as_validate ⟨0, 4294967295⟩ .off).1]
    decide

/-! ## Events -/

/-- What the log shows of an event. -/
def Event.record (e : Event) : Level × String × List (String × Event.Value) :=
  (e.level, e.message, e.fields)

theorem filter_admits_trace (events : List Event) :
    events.filter (fun e => (Verbosity.upTo .trace).admits e.level) =
      events := by
  rw [List.filter_eq_self]
  intro e _
  cases e <;> rfl

theorem countP_trace_story (v n : Nat) (bound : Code) :
    (story v n bound).countP (fun e => e.level = .trace) =
      (finds v n).length := by
  have hfound : (finds v n).countP ((fun e => decide (e.level = .trace)) ∘
      fun x => Event.found (Code.ofNat x)) = (finds v n).length := by
    rw [List.countP_eq_length]
    intro x _
    rfl
  rw [story, List.countP_append, List.countP_append, List.countP_map, hfound]
  simp [Event.level]

theorem map_record_story {v n limit : Nat} (hv : v + n < capacity)
    (hlimit : limit < capacity) :
    (story v n (Code.ofNat limit)).map Event.record =
      [(.debug, "searching passwords",
        [("start", .text (padded v)), ("limit", .text (padded limit))])] ++
      (finds v n).map
        (fun x => (.trace, "match", [("password", .text (padded x))])) ++
      [(.info, "search finished",
        [("checked", .number (Tally.ofStretch v n).checked.toNat),
         ("possibilities",
          .number (Tally.ofStretch v n).possibilities.toNat)])] := by
  have hstart := Code.text_ofNat (v := v) (by omega)
  have hfound : ∀ x ∈ finds v n, (Event.found (Code.ofNat x)).record =
      (.trace, "match", [("password", .text (padded x))]) := by
    intro x hx
    obtain ⟨⟨-, hlt⟩, -⟩ := mem_finds.1 hx
    rw [← Code.text_ofNat (Nat.lt_trans hlt hv)]
    rfl
  rw [story, List.map_append, List.map_append, List.map_map, ← hstart,
    ← Code.text_ofNat hlimit, ← List.map_congr_left hfound]
  rfl

/-- **A search tells its story**: its start, then every number of the span that
has the pattern, in increasing order and once each, then its tally. A verbosity
selects from this by severity and changes nothing else. -/
theorem search_tells_story {span : Span} (h : span.Valid) :
    ∃ (tally : Tally) (hits : List Nat),
      (∀ verbosity, (search span verbosity).result = .ok tally) ∧
      hits.Pairwise (· < ·) ∧
      (∀ v, v ∈ hits ↔ (span.lower.toNat ≤ v ∧ v ≤ span.upper.toNat) ∧
        (Code.ofNat v).fits = true) ∧
      (search span (.upTo .trace)).events.map Event.record =
        [(.debug, "searching passwords",
          [("start", .text (padded span.lower.toNat)),
           ("limit", .text (padded (span.upper.toNat + 1)))])] ++
        hits.map
          (fun v => (.trace, "match", [("password", .text (padded v))])) ++
        [(.info, "search finished",
          [("checked", .number tally.checked.toNat),
           ("possibilities", .number tally.possibilities.toNat)])] ∧
      (search span (.upTo .trace)).events.countP (fun e => e.level = .trace) =
        tally.possibilities.toNat ∧
      ∀ level : Level, (search span (.upTo level)).events =
        (search span (.upTo .trace)).events.filter
          fun e => e.level.rank ≤ level.rank := by
  have hle := h.toNat_le
  have hfits := h.fits
  have hend : span.lower.toNat + span.size = span.upper.toNat + 1 := by
    rw [Span.size]
    omega
  have hstory : (search span (.upTo .trace)).events = span.story := by
    rw [search_of_valid h]
    exact filter_admits_trace _
  refine ⟨Tally.ofStretch span.lower.toNat span.size,
    finds span.lower.toNat span.size, ?_, pairwise_finds _ _, ?_, ?_, ?_, ?_⟩
  · intro verbosity
    rw [search_of_valid h]
  · intro v
    rw [mem_finds, hend, Nat.lt_succ_iff]
  · rw [hstory]
    exact map_record_story (by rwa [hend]) hfits
  · rw [hstory, Span.story, countP_trace_story]
    exact (Tally.toNat_ofStretch h.size_lt).2.symm
  · intro level
    rw [hstory, search_of_valid h]
    rfl

/-- Of 111121 and 111122 only the second has the pattern and is told. -/
theorem search_tells_111122 :
    ∃ (tally : Tally) (hits : List Nat), 111121 ∉ hits ∧ 111122 ∈ hits ∧
      (search ⟨111121, 111122⟩ .off).result = .ok tally ∧
      (search ⟨111121, 111122⟩ (.upTo .trace)).events.countP
        (fun e => e.level = .trace) = tally.possibilities.toNat := by
  have hvalid : Span.Valid ⟨111121, 111122⟩ := ⟨by decide, by decide⟩
  obtain ⟨tally, hits, hresult, -, hmem, -, hcount, -⟩ :=
    search_tells_story hvalid
  refine ⟨tally, hits, ?_, ?_, hresult .off, hcount⟩
  · rw [hmem]
    decide
  · rw [hmem]
    decide

end Passcode
