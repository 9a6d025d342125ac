import Passcode.Proofs.Surveys

/-! # Sessions

Whatever is asked of a session, its registers hold digits and its bound is a
code between 1 and 999999. `Session.Effect` says once what a step can do;
everything about a single step is read off its cases, and everything about a
session follows by going through its steps.

- `Session.Sound`: the invariant.
- `Session.Effect`: the possible effects of a step.
- `session_stays_sound`: what holds after any steps, and of the step after them.
-/

namespace Passcode

/-! ## Moving on keeps digits -/

namespace Code

theorem Decimal.next {c : Code} (h : c.Decimal) : c.next.Decimal :=
  isDigit_turn h

theorem Decimal.iterate_next {c : Code} (h : c.Decimal) (k : Nat) :
    (Code.next^[k] c).Decimal := by
  induction k generalizing c with
  | zero => exact h
  | succ k ih => exact ih h.next

/-- Of the codes of digits only the last one carries out. -/
theorem Decimal.eq_last_of_carries {c : Code} (h : c.Decimal)
    (hcarry : c.carries = true) : c = ofNat (capacity - 1) := by
  rcases h.lt_or_eq_last with hbefore | hlast
  · -- the number after this one is no multiple of one million
    rw [← h.ofNat_value, carries_ofNat, decide_eq_true_eq] at hcarry
    exact absurd hcarry (Nat.not_dvd_of_pos_of_lt (Nat.succ_pos _) hbefore)
  · exact hlast

end Code

/-- Whatever is visited on the way, a walk leaves a code that is a number of
moves ahead. -/
theorem exists_code_walk_eq {σ : Type} (visit : σ → Code → σ) (bound : Bound)
    (n : Nat) (state : σ) (c : Code) :
    ∃ k, (walk visit bound n state c).code = Code.next^[k] c := by
  induction n generalizing state c with
  | zero => exact ⟨0, rfl⟩
  | succ n ih =>
      have hnext := Code.advance_fst c bound
      rw [walk]
      split
      · next code h =>
        obtain rfl : code = c.next := by rwa [h] at hnext
        obtain ⟨k, hk⟩ := ih (visit state c) c.next
        exact ⟨k + 1, hk⟩
      · next code h =>
        obtain rfl : code = c.next := by rwa [h] at hnext
        exact ⟨1, rfl⟩
      · next code fault h =>
        obtain rfl : code = c.next := by rwa [h] at hnext
        exact ⟨1, rfl⟩

/-! ## Faults

Only moving on carries out; what cannot be written is too wide. -/

theorem Code.ofValue_ne_carryOut (value : UInt32) (text : String) :
    Code.ofValue value ≠ .error (.carryOut text) := by
  intro h
  obtain ⟨-, hfault⟩ := Code.ofValue_eq_error_iff.1 h
  cases hfault

theorem Bound.after_ne_carryOut (upper : UInt32) (text : String) :
    Bound.after upper ≠ .error (.carryOut text) := by
  rcases Nat.lt_or_ge (upper.toNat + 1) capacity with hlt | hge
  · rw [Bound.after_of_lt hlt]
    rintro ⟨⟩
  · rw [Bound.after_of_le hge]
    rintro ⟨⟩

/-! ## What a step can do -/

/-- The register that a step may write. -/
def Step.writes? : Step → Option String
  | .seed register _ | .recall register | .copy _ register => some register
  | .advance register | .scan register _ => some register
  | .bound _ | .compare _ _ | .test _ | .reached _ | .unreadable => none

namespace Session

/-- The effects of a step on a session, with the results that go with them. -/
inductive Effect (s : Session) : Step → Session → Except Refusal Answer → Prop
  | refused {step : Step} {refusal : Refusal}
      (h : ∀ text, refusal ≠ .fault (.carryOut text)) :
      Effect s step s (.error refusal)
  | asked {step : Step} {b : Bool} : Effect s step s (.ok (.flag b))
  | bounded {upper : UInt32} {bound : Bound} (h : Bound.after upper = .ok bound) :
      Effect s (.bound upper) { s with bound := some bound }
        (.ok (.code bound.code))
  | seeded {register : String} {value : UInt32} {c : Code}
      (h : Code.ofValue value = .ok c) :
      Effect s (.seed register value) (s.put register c) (.ok (.code c))
  | recalled {register : String} {bound : Bound} (h : s.bound = some bound) :
      Effect s (.recall register) (s.put register bound.code)
        (.ok (.code bound.code))
  | copied {source dest : String} {c : Code} (h : s.get? source = some c) :
      Effect s (.copy source dest) (s.put dest c) (.ok (.code c))
  | moved {register : String} {c : Code} {bound : Bound}
      (hc : s.get? register = some c) (hbound : s.bound = some bound)
      (h : c.carries = false) :
      Effect s (.advance register) (s.put register c.next)
        (.ok (.flag (!bound.reached c.next)))
  | carried {register : String} {c : Code} (hc : s.get? register = some c)
      (h : c.carries = true) :
      Effect s (.advance register) (s.put register c.next)
        (.error (.fault (.carryOut c.next.text)))
  | scanned {register : String} {visits : UInt32} {c : Code} {bound : Bound}
      {walked : Walk Survey} (hc : s.get? register = some c)
      (hbound : s.bound = some bound)
      (h : walk Survey.visit bound visits.toNat {} c = walked) :
      Effect s (.scan register visits) (s.put register walked.code)
        (.ok (.survey walked.state walked.ending))

theorem operands_eq_ok_iff {s : Session} {register : String} {c : Code}
    {bound : Bound} :
    s.operands register = .ok (c, bound) ↔
      s.get? register = some c ∧ s.bound = some bound := by
  rw [operands]
  split <;> simp_all

theorem ne_fault_of_operands {s : Session} {register : String}
    {refusal : Refusal} (h : s.operands register = .error refusal)
    (fault : Fault) : refusal ≠ .fault fault := by
  rw [operands] at h
  split at h
  · cases h
    exact Refusal.noConfusion
  · cases h
    exact Refusal.noConfusion
  · cases h

/-- Performing a step has one of these effects. -/
theorem effect_perform (s : Session) (step : Step) :
    s.Effect step (s.perform step).1 (s.perform step).2 := by
  match step with
  | .seed register value =>
      rw [perform]
      split
      · next c h => exact .seeded h
      · next fault h =>
        refine .refused ?_
        rintro text ⟨rfl⟩
        exact Code.ofValue_ne_carryOut value text h
  | .bound upper =>
      rw [perform]
      split
      · next bound h => exact .bounded h
      · next fault h =>
        refine .refused ?_
        rintro text ⟨rfl⟩
        exact Bound.after_ne_carryOut upper text h
  | .recall register =>
      rw [perform]
      split
      · next bound h => exact .recalled h
      · exact .refused (by simp)
  | .copy source dest =>
      rw [perform]
      split
      · next c h => exact .copied h
      · exact .refused (by simp)
  | .compare left right =>
      rw [perform]
      split
      · exact .asked
      · exact .refused (by simp)
  | .test register =>
      rw [perform]
      split
      · exact .asked
      · exact .refused (by simp)
  | .reached register =>
      rw [perform]
      split
      · exact .asked
      · next refusal h => exact .refused fun _ => ne_fault_of_operands h _
  | .advance register =>
      rw [perform]
      split
      · next c bound h =>
        obtain ⟨hc, hbound⟩ := operands_eq_ok_iff.1 h
        have hadvance : c.advance bound = (c.next, _) :=
          Prod.ext (Code.advance_fst c bound) (Code.advance_snd c bound)
        cases hcarry : c.carries with
        | false =>
            rw [hadvance, hcarry]
            exact .moved hc hbound hcarry
        | true =>
            rw [hadvance, hcarry]
            exact .carried hc hcarry
      · next refusal h => exact .refused fun _ => ne_fault_of_operands h _
  | .scan register visits =>
      rw [perform]
      split
      · exact .refused (by simp)
      · split
        · next c bound h =>
          obtain ⟨hc, hbound⟩ := operands_eq_ok_iff.1 h
          exact .scanned hc hbound rfl
        · next refusal h => exact .refused fun _ => ne_fault_of_operands h _
  | .unreadable => exact .refused (by simp)

/-! ## The invariant -/

/-- Every register holds digits, and the bound is the code of a number from 1 to
999999. -/
structure Sound (s : Session) : Prop where
  registers : ∀ name c, s.get? name = some c → c.Decimal
  bound : ∀ b, s.bound = some b →
    b.code.Decimal ∧ 1 ≤ b.code.value ∧ b.code.value ≤ 999999

theorem sound_empty : Sound {} where
  registers := by
    intro name c h
    simp [get?] at h
  bound := by
    intro b h
    cases h

variable {s t : Session} {step : Step} {result : Except Refusal Answer}

theorem Sound.put (h : s.Sound) {name : String} {c : Code} (hc : c.Decimal) :
    (s.put name c).Sound where
  registers := by
    intro other d hd
    by_cases hname : other = name
    · subst hname
      rw [get?_put_self] at hd
      cases hd
      exact hc
    · rw [get?_put_of_ne s c hname] at hd
      exact h.registers other d hd
  bound := h.bound

/-- A step keeps the invariant. -/
theorem Effect.sound (h : s.Effect step t result) (hs : s.Sound) : t.Sound := by
  cases h with
  | refused => exact hs
  | asked => exact hs
  | bounded h =>
      obtain ⟨hlt, rfl⟩ := Bound.after_eq_ok_iff.1 h
      refine ⟨hs.registers, ?_⟩
      rintro _ ⟨rfl⟩
      refine ⟨Code.decimal_ofNat _, ?_⟩
      rw [Code.value_ofNat hlt]
      exact ⟨Nat.succ_pos _, Nat.le_of_lt_succ hlt⟩
  | seeded h =>
      obtain ⟨-, rfl⟩ := Code.ofValue_eq_ok_iff.1 h
      exact hs.put (Code.decimal_ofNat _)
  | recalled h => exact hs.put (hs.bound _ h).1
  | copied h => exact hs.put (hs.registers _ _ h)
  | moved hc _ _ => exact hs.put (hs.registers _ _ hc).next
  | carried hc _ => exact hs.put (hs.registers _ _ hc).next
  | scanned hc _ h =>
      subst h
      obtain ⟨k, hk⟩ := exists_code_walk_eq Survey.visit _ _ {} _
      refine hs.put ?_
      rw [hk]
      exact (hs.registers _ _ hc).iterate_next k

/-! ## What a step leaves alone -/

theorem Effect.get?_eq (h : s.Effect step t result) {name : String}
    (hname : step.writes? ≠ some name) : t.get? name = s.get? name := by
  have hne : ∀ register, step.writes? = some register → name ≠ register := by
    rintro register hregister rfl
    exact hname hregister
  cases h with
  | refused => rfl
  | asked => rfl
  | bounded => rfl
  | seeded => exact get?_put_of_ne s _ (hne _ rfl)
  | recalled => exact get?_put_of_ne s _ (hne _ rfl)
  | copied => exact get?_put_of_ne s _ (hne _ rfl)
  | moved => exact get?_put_of_ne s _ (hne _ rfl)
  | carried => exact get?_put_of_ne s _ (hne _ rfl)
  | scanned => exact get?_put_of_ne s _ (hne _ rfl)

theorem Effect.bound_eq (h : s.Effect step t result)
    (hstep : ∀ upper, step ≠ .bound upper) : t.bound = s.bound := by
  cases h with
  | @bounded upper => exact absurd rfl (hstep upper)
  | _ => rfl

theorem Effect.eq_of_reads (h : s.Effect step t result)
    (hwrites : step.writes? = none) (hstep : ∀ upper, step ≠ .bound upper) :
    t = s := by
  cases h with
  | refused => rfl
  | asked => rfl
  | @bounded upper => exact absurd rfl (hstep upper)
  | _ => cases hwrites

theorem Effect.eq_of_error (h : s.Effect step t result) {refusal : Refusal}
    (hresult : result = .error refusal)
    (hrefusal : ∀ text, refusal ≠ .fault (.carryOut text)) : t = s := by
  cases h with
  | refused => rfl
  | carried =>
      cases hresult
      exact absurd rfl (hrefusal _)
  | asked => rfl
  | _ => cases hresult

/-! ## Carrying out -/

/-- The register goes from the last code to the first, and nothing else
changes. -/
def TurnsOver (s t : Session) (register : String) : Prop :=
  ∃ last first, s.get? register = some last ∧ last.text = "999999" ∧
    first.text = "000000" ∧ t = s.put register first

theorem turnsOver_put {register : String}
    (h : s.get? register = some (Code.ofNat (capacity - 1))) :
    s.TurnsOver (s.put register (Code.ofNat 0)) register :=
  ⟨_, _, h, by decide, by decide, rfl⟩

theorem Effect.turnsOver_of_error (h : s.Effect step t result) (hs : s.Sound)
    {text : String} (hresult : result = .error (.fault (.carryOut text))) :
    ∃ register, step = .advance register ∧ text = "000000" ∧
      s.TurnsOver t register := by
  cases h with
  | refused hrefusal =>
      cases hresult
      exact absurd rfl (hrefusal text)
  | carried hc hcarry =>
      have hnext : (Code.ofNat (capacity - 1)).next = Code.ofNat 0 := by decide
      have hlast := (hs.registers _ _ hc).eq_last_of_carries hcarry
      rw [hlast] at hc hresult ⊢
      rw [hnext] at hresult ⊢
      cases hresult
      exact ⟨_, rfl, by decide, turnsOver_put hc⟩
  | _ => cases hresult

theorem Effect.turnsOver_of_failed (h : s.Effect step t result) (hs : s.Sound)
    {seen : Survey} {fault : Fault}
    (hresult : result = .ok (.survey seen (.failed fault))) :
    ∃ register visits, step = .scan register visits ∧
      fault = .carryOut "000000" ∧ s.TurnsOver t register := by
  cases h with
  | scanned hc hbound hwalk =>
      subst hwalk
      obtain ⟨-, hending⟩ := Answer.survey.inj (Except.ok.inj hresult)
      obtain ⟨hlast, hcode, hfault⟩ :=
        walk_failed (hs.bound _ hbound).1 (hs.registers _ _ hc) hending
      rw [hlast] at hc
      rw [hcode]
      exact ⟨_, _, rfl, hfault, turnsOver_put hc⟩
  | _ => cases hresult

/-! ## Many steps -/

/-- The session after a list of steps. -/
def after (s : Session) (steps : List Step) : Session :=
  steps.foldl (fun s step => (s.perform step).1) s

theorem Sound.after (h : s.Sound) (steps : List Step) : (s.after steps).Sound := by
  induction steps generalizing s with
  | nil => exact h
  | cons step steps ih => exact ih ((s.effect_perform step).sound h)

/-- In a replay, every step is performed on the session that the steps before it
have left. -/
theorem getElem?_replay (s : Session) (earlier : List Step) (step : Step)
    (later : List Step) :
    (s.replay (earlier ++ step :: later))[earlier.length]? =
      some ((s.after earlier).perform step) := by
  induction earlier generalizing s with
  | nil => rfl
  | cons first earlier ih => exact ih (s.perform first).1

end Session

/-- **Sessions stay sound.** Take any steps from the empty session on, and one
step after them. Before and after it the registers hold digits and the bound is
a code from 1 to 999999, so no byte wraps around when a register is moved on,
once or often. The step changes only the register that it writes, or only the
bound, or nothing. A refused step leaves the session as it was, unless it has
carried out; in this case, and when a scan ends so, the register has gone from
the last code to the first, and nothing else has changed. -/
theorem session_stays_sound (history : List Step) (step : Step) :
    let s := Session.after {} history
    let t := (s.perform step).1
    let result := (s.perform step).2
    (∀ later, (Session.replay {} (history ++ step :: later))[history.length]? =
      some (t, result)) ∧
    s.Sound ∧ t.Sound ∧
    (∀ name c, s.get? name = some c → ∀ k, ∀ b ∈ (Code.next^[k] c).digits,
      (b + 1).toNat = b.toNat + 1 ∧ (b + 1).toNat ≤ 58) ∧
    (∀ name, step.writes? ≠ some name → t.get? name = s.get? name) ∧
    ((∀ upper, step ≠ .bound upper) → t.bound = s.bound) ∧
    (step.writes? = none → (∀ upper, step ≠ .bound upper) → t = s) ∧
    (∀ refusal, result = .error refusal →
      (∀ text, refusal ≠ .fault (.carryOut text)) → t = s) ∧
    (∀ text, result = .error (.fault (.carryOut text)) →
      ∃ register, step = .advance register ∧ text = "000000" ∧
        s.TurnsOver t register) ∧
    ∀ seen fault, result = .ok (.survey seen (.failed fault)) →
      ∃ register visits, step = .scan register visits ∧
        fault = .carryOut "000000" ∧ s.TurnsOver t register := by
  intro s t result
  have hs : s.Sound := Session.sound_empty.after history
  have heffect : s.Effect step t result := s.effect_perform step
  refine ⟨?_, hs, heffect.sound hs, ?_, ?_, heffect.bound_eq,
    heffect.eq_of_reads, ?_, ?_, ?_⟩
  · intro later
    exact Session.getElem?_replay {} history step later
  · intro name c hc k b hb
    exact ((hs.registers name c hc).iterate_next k b hb).toNat_add_one
  · intro name hname
    exact heffect.get?_eq hname
  · intro refusal hresult
    exact heffect.eq_of_error hresult
  · intro text hresult
    exact heffect.turnsOver_of_error hs hresult
  · intro seen fault hresult
    exact heffect.turnsOver_of_failed hs hresult

/-- A register that holds the last code turns over, also when a scan moves it. -/
theorem session_turns_over :
    let s := Session.after {} [.bound 5, .seed "a" 999999, .copy "a" "b"]
    s.TurnsOver (s.perform (.advance "a")).1 "a" ∧
      s.TurnsOver (s.perform (.scan "b" 9)).1 "b" := by
  intro s
  refine ⟨?_, ?_⟩
  · have hresult : (s.perform (.advance "a")).2 =
        .error (.fault (.carryOut "000000")) := by rfl
    obtain ⟨-, -, -, -, -, -, -, -, hcarry, -⟩ := session_stays_sound
      [.bound 5, .seed "a" 999999, .copy "a" "b"] (.advance "a")
    obtain ⟨register, hstep, -, hturn⟩ := hcarry "000000" hresult
    cases hstep
    exact hturn
  · have hresult : (s.perform (.scan "b" 9)).2 =
        .ok (.survey { checked := 1 } (.failed (.carryOut "000000"))) := by rfl
    obtain ⟨-, -, -, -, -, -, -, -, -, hfailed⟩ := session_stays_sound
      [.bound 5, .seed "a" 999999, .copy "a" "b"] (.scan "b" 9)
    obtain ⟨register, visits, hstep, -, hturn⟩ := hfailed _ _ hresult
    cases hstep
    exact hturn

end Passcode
