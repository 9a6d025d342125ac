import Passcode.Proofs.Reach
import Mathlib

/-! # Spellings in order

Each number below one million has one spelling, and each sequence of six digits
is the spelling of one number. Both kinds of spelling, the bytes of a code and
its text, are in the order of the dictionary, and this is the order of the
numbers.

- `DigitSeq.lt_iff_numeral_lt`: sequences of one length are ordered by what they
  denote.
- `Code.text_lt_text_iff`: a text shows its bytes in order.
- `spellings_follow_numbers`: what this makes of writing.
-/

namespace Passcode

/-! ## Bytes in order -/

namespace DigitSeq

variable {n : Nat} {d e : UInt8} {ds es : List UInt8}

theorem numeral_cons_lt_iff (hd : IsDigit d) (he : IsDigit e)
    (hds : DigitSeq n ds) (hes : DigitSeq n es) :
    numeral (d :: ds) < numeral (e :: es) ↔
      d < e ∨ d = e ∧ numeral ds < numeral es := by
  rw [← Nat.not_le, numeral_cons_le_iff he hd hes hds, not_or, UInt8.not_lt,
    UInt8.le_iff_lt_or_eq]
  constructor
  · rintro ⟨hlt | rfl, hrest⟩
    · exact Or.inl hlt
    · exact Or.inr ⟨rfl, Nat.not_le.1 fun hle => hrest ⟨rfl, hle⟩⟩
  · rintro (hlt | ⟨rfl, hrest⟩)
    · refine ⟨Or.inl hlt, ?_⟩
      rintro ⟨rfl, -⟩
      exact UInt8.lt_irrefl _ hlt
    · exact ⟨Or.inr rfl, fun h => Nat.not_le.2 hrest h.2⟩

/-- Sequences of one length are in the order of the numbers that they denote. -/
theorem lt_iff_numeral_lt (hds : DigitSeq n ds) (hes : DigitSeq n es) :
    ds < es ↔ numeral ds < numeral es := by
  induction n generalizing ds es with
  | zero =>
      rw [hds.eq_nil, hes.eq_nil]
      simp
  | succ n ih =>
      obtain ⟨d, ds, rfl, hd, hds⟩ := hds.exists_cons
      obtain ⟨e, es, rfl, he, hes⟩ := hes.exists_cons
      rw [List.cons_lt_cons_iff, ih hds hes,
        numeral_cons_lt_iff hd he hds hes]

end DigitSeq

/-! ## Characters in order -/

/-- Every byte is the number of a character. -/
theorem toNat_ofNat_toNat (b : UInt8) :
    (Char.ofNat b.toNat).toNat = b.toNat := by
  have hlt : b.toNat < 256 := b.toNat_lt
  rw [Char.toNat_ofNat, if_pos (Or.inl (by omega))]

theorem ofNat_toNat_lt_iff {a b : UInt8} :
    Char.ofNat a.toNat < Char.ofNat b.toNat ↔ a < b := by
  rw [Char.lt_def, UInt32.lt_iff_toNat_lt, Char.toNat_val, Char.toNat_val,
    toNat_ofNat_toNat, toNat_ofNat_toNat, UInt8.lt_iff_toNat_lt]

theorem ofNat_toNat_inj {a b : UInt8} :
    Char.ofNat a.toNat = Char.ofNat b.toNat ↔ a = b := by
  constructor
  · intro h
    have hnat := congrArg Char.toNat h
    rw [toNat_ofNat_toNat, toNat_ofNat_toNat] at hnat
    exact UInt8.toNat_inj.1 hnat
  · rintro rfl
    rfl

theorem map_ofNat_toNat_lt_iff {ds es : List UInt8} :
    ds.map (fun b => Char.ofNat b.toNat) <
      es.map (fun b => Char.ofNat b.toNat) ↔ ds < es := by
  induction ds generalizing es with
  | nil => cases es <;> simp
  | cons d ds ih =>
      cases es with
      | nil => simp
      | cons e es =>
          rw [List.map_cons, List.map_cons, List.cons_lt_cons_iff, ih,
            ofNat_toNat_lt_iff, ofNat_toNat_inj, List.cons_lt_cons_iff]

/-! ## Codes -/

namespace Code

theorem length_text (c : Code) : c.text.length = width := by
  rw [text, String.length_ofList, List.length_map, c.length_digits]

/-- A text shows its bytes in order. -/
theorem text_lt_text_iff {c d : Code} :
    c.text < d.text ↔ c.digits < d.digits := by
  rw [String.lt_iff, text, text, String.toList_ofList, String.toList_ofList,
    map_ofNat_toNat_lt_iff]

theorem text_inj {c d : Code} : c.text = d.text ↔ c = d := by
  constructor
  · intro h
    have hinj : Function.Injective fun b : UInt8 => Char.ofNat b.toNat :=
      fun _ _ => ofNat_toNat_inj.1
    have hchars := String.ofList_inj.1 h
    exact Code.ext (List.map_injective_iff.2 hinj hchars)
  · rintro rfl
    rfl

theorem ofNat_inj {v w : Nat} (hv : v < capacity) (hw : w < capacity) :
    ofNat v = ofNat w ↔ v = w := by
  constructor
  · intro h
    rw [← value_ofNat hv, h, value_ofNat hw]
  · rintro rfl
    rfl

theorem text_ofNat_lt_iff {v w : Nat} (hv : v < capacity) (hw : w < capacity) :
    (ofNat v).text < (ofNat w).text ↔ v < w := by
  have hdigits :=
    (digitSeq_decimal width v).lt_iff_numeral_lt (digitSeq_decimal width w)
  rw [numeral_decimal_of_lt hv, numeral_decimal_of_lt hw] at hdigits
  rw [text_lt_text_iff]
  exact hdigits

end Code

/-- **Spellings follow the numbers.** A value is refused exactly when it has a
seventh digit. Any other has a code of six digits that reads back as the value
and whose text is the padded numeral, and every six digits are the code of the
number that they denote. So codes, texts and values are equal together, and the
texts are in the order of the values. -/
theorem spellings_follow_numbers :
    (∀ (value : UInt32) (e : Fault), Code.ofValue value = .error e ↔
      999999 < value.toNat ∧ e = .tooWide value) ∧
    (∀ value : UInt32, value.toNat ≤ 999999 →
      ∃ c, Code.ofValue value = .ok c ∧
        (∀ b ∈ c.digits, 48 ≤ b.toNat ∧ b.toNat ≤ 57) ∧
        numeral c.digits = value.toNat ∧
        c.text = padded value.toNat ∧ c.text.length = 6) ∧
    (∀ ds : List UInt8, ds.length = 6 →
      (∀ b ∈ ds, 48 ≤ b.toNat ∧ b.toNat ≤ 57) →
      ∃ (value : UInt32) (c : Code), value.toNat = numeral ds ∧
        Code.ofValue value = .ok c ∧ c.digits = ds) ∧
    ∀ (x y : UInt32) (c d : Code),
      Code.ofValue x = .ok c → Code.ofValue y = .ok d →
      (c = d ↔ x = y) ∧ (c.text = d.text ↔ x = y) ∧
      (c.text < d.text ↔ x < y) := by
  refine ⟨?_, ?_, ?_, ?_⟩
  · intro value e
    exact Code.ofValue_eq_error_iff
  · intro value hvalue
    have hlt : value.toNat < capacity := Nat.lt_succ_of_le hvalue
    refine ⟨Code.ofNat value.toNat, Code.ofValue_of_lt hlt, ?_,
      numeral_decimal_of_lt hlt, Code.text_ofNat hlt, Code.length_text _⟩
    intro b hb
    exact isDigit_iff.1 (Code.decimal_ofNat value.toNat b hb)
  · intro ds hlength hdigits
    have hds : DigitSeq width ds :=
      ⟨hlength, fun b hb => isDigit_iff.2 (hdigits b hb)⟩
    exact ⟨(numeral ds).toUInt32, Code.ofNat (numeral ds),
      Code.toNat_toUInt32 hds.numeral_lt, Code.ofValue_toUInt32 hds.numeral_lt,
      hds.decimal_numeral⟩
  · intro x y c d hc hd
    obtain ⟨hx, rfl⟩ := Code.ofValue_eq_ok_iff.1 hc
    obtain ⟨hy, rfl⟩ := Code.ofValue_eq_ok_iff.1 hd
    have hcodes : Code.ofNat x.toNat = Code.ofNat y.toNat ↔ x = y := by
      rw [Code.ofNat_inj hx hy, UInt32.toNat_inj]
    refine ⟨hcodes, Code.text_inj.trans hcodes, ?_⟩
    rw [Code.text_ofNat_lt_iff hx hy, UInt32.lt_iff_toNat_lt]

/-- The text of 42 starts with zeros, so it stands before that of 357253. -/
theorem spelling_42_before_357253 :
    ∃ c d, Code.ofValue 42 = .ok c ∧ Code.ofValue 357253 = .ok d ∧
      c.text = padded 42 ∧ c.text.length = 6 ∧ c.text < d.text ∧
      Code.ofValue 1000000 = .error (.tooWide 1000000) := by
  obtain ⟨hwide, hcode, -, hpair⟩ := spellings_follow_numbers
  obtain ⟨c, hc, -, -, htext, hlength⟩ := hcode 42 (by decide)
  obtain ⟨d, hd, -⟩ := hcode 357253 (by decide)
  have hlt := (hpair 42 357253 c d hc hd).2.2
  refine ⟨c, d, hc, hd, htext, hlength, hlt.2 (by decide), ?_⟩
  exact (hwide 1000000 _).2 ⟨by decide, rfl⟩

end Passcode
