import PlcScan.Proofs.Listing
import PlcScan.Proofs.Numerals

namespace PlcScan

namespace Text

/-- Reads digits with an optional fraction, and returns how many of them it has behind the dot. -/
def readPlain? (t : Text) : Option (ℕ × ℕ) :=
  match fields '.' t with
  | [whole] => if whole ≠ [] ∧ whole.all Char.isDigit then some (toNat whole, 0) else none
  | [whole, fraction] =>
    if whole ≠ [] ∧ fraction ≠ [] ∧ (whole ++ fraction).all Char.isDigit then
      some (toNat (whole ++ fraction), fraction.length)
    else none
  | _ => none

def readUnsigned? (t : Text) : Option (ℕ × ℤ) :=
  match fields 'E' t with
  | [digits] => do
    let (n, places) ← readPlain? digits
    return (n, -places)
  | [digits, exponent] => do
    let (n, places) ← readPlain? digits
    let e ← readInt? exponent
    return (n, e - places)
  | _ => none

theorem readPlain?_of_digits {ds : Text} (hne : ds ≠ []) (hds : ∀ d ∈ ds, d.isDigit = true) :
    readPlain? ds = some (toNat ds, 0) := by
  have hdot : '.' ∉ ds := fun h => Bool.false_ne_true (hds '.' h)
  rw [readPlain?, fields_of_not_mem hdot]
  exact if_pos ⟨hne, List.all_eq_true.mpr hds⟩

theorem readPlain?_of_parts {whole fraction : Text} (hwhole : whole ≠ []) (hfraction : fraction ≠ [])
    (hdigits : ∀ d ∈ whole ++ fraction, d.isDigit = true) :
    readPlain? (whole ++ '.' :: fraction) = some (toNat (whole ++ fraction), fraction.length) := by
  have hdot : '.' ∉ whole ++ fraction := fun h => Bool.false_ne_true (hdigits '.' h)
  rw [List.mem_append, not_or] at hdot
  rw [readPlain?, fields_append hdot.1, fields_of_not_mem hdot.2]
  exact if_pos ⟨hwhole, hfraction, List.all_eq_true.mpr hdigits⟩

end Text

namespace Decimal

open Text

def read? : Text → Option Decimal
  | '-' :: t => (readUnsigned? t).map fun (n, e) => ⟨true, n, e⟩
  | t => (readUnsigned? t).map fun (n, e) => ⟨false, n, e⟩

theorem exists_plain (ds : Text) {places : ℕ} (hplaces : places ≠ 0) :
    ∃ whole fraction, whole ++ fraction = pad (places + 1) ds ∧ whole ≠ [] ∧
      fraction.length = places ∧ plain ds places = whole ++ '.' :: fraction := by
  have hlen : places + 1 ≤ (pad (places + 1) ds).length := by
    rw [pad, List.length_append, List.length_replicate]
    omega
  let k := (pad (places + 1) ds).length - places
  refine ⟨(pad (places + 1) ds).take k, (pad (places + 1) ds).drop k, List.take_append_drop _ _,
    ?_, ?_, ?_⟩
  · apply List.ne_nil_of_length_pos
    rw [List.length_take]
    omega
  · rw [List.length_drop]
    omega
  · rw [plain, if_neg hplaces]
    rfl

theorem readPlain?_plain {ds : Text} (hne : ds ≠ []) (hds : ∀ d ∈ ds, d.isDigit = true)
    (places : ℕ) : readPlain? (plain ds places) = some (toNat ds, places) := by
  by_cases hplaces : places = 0
  · rw [hplaces, plain, if_pos rfl, readPlain?_of_digits hne hds]
  · obtain ⟨whole, fraction, hpad, hwhole, hlen, hplain⟩ := exists_plain ds hplaces
    have hfraction : fraction ≠ [] := List.ne_nil_of_length_pos (by omega)
    have hdigits := isDigit_of_mem_pad (places + 1) hds
    rw [← hpad] at hdigits
    rw [hplain, readPlain?_of_parts hwhole hfraction hdigits, hpad, hlen, pad, toNat_zeros]

theorem exists_digit_plain {ds : Text} (hne : ds ≠ []) (hds : ∀ d ∈ ds, d.isDigit = true)
    (places : ℕ) : ∃ d t, plain ds places = d :: t ∧ d.isDigit = true ∧ 'E' ∉ plain ds places := by
  by_cases hplaces : places = 0
  · obtain ⟨d, t, rfl⟩ := List.exists_cons_of_ne_nil hne
    rw [hplaces, plain, if_pos rfl]
    exact ⟨d, t, rfl, hds d (List.mem_cons_self ..), fun h => Bool.false_ne_true (hds 'E' h)⟩
  · obtain ⟨whole, fraction, hpad, hwhole, -, hplain⟩ := exists_plain ds hplaces
    have hdigits := isDigit_of_mem_pad (places + 1) hds
    rw [← hpad] at hdigits
    have hletter : 'E' ∉ whole ++ fraction := fun h => Bool.false_ne_true (hdigits 'E' h)
    obtain ⟨d, t, rfl⟩ := List.exists_cons_of_ne_nil hwhole
    rw [hplain]
    refine ⟨d, t ++ '.' :: fraction, rfl, hdigits d (by simp), ?_⟩
    simpa using hletter

def signedExponent (e : ℤ) : Text := if e < 0 then ofInt e else '+' :: ofInt e

theorem readInt?_signedExponent (e : ℤ) : readInt? (signedExponent e) = some e := by
  cases e with
  | ofNat n => exact readInt?_of_readSign (t := '+' :: ofNat n) rfl
  | negSucc n =>
    rw [signedExponent, if_pos (Int.negSucc_lt_zero n), readInt?_ofInt]

theorem not_mem_signedExponent (e : ℤ) : 'E' ∉ signedExponent e := by
  have he := not_mem_ofInt (c := 'E') rfl (by decide) e
  rw [signedExponent]
  split
  · exact he
  · exact List.not_mem_cons_of_ne_of_not_mem (by decide) he

theorem scientific_eq (ds : Text) (e : ℤ) :
    scientific ds e = plain ds (ds.length - 1) ++ 'E' :: signedExponent e := by
  rcases ds with _ | ⟨d, _ | ⟨d', ds⟩⟩
  · rfl
  · rfl
  · have hlen : (d :: d' :: ds).length - (d' :: ds).length = 1 := by
      simp only [List.length_cons]
      omega
    simp [scientific, plain, signedExponent]

theorem digits_ne_nil (d : Decimal) : d.digits ≠ [] := Nat.toDigits_ne_nil

theorem isDigit_of_mem_digits (d : Decimal) : ∀ c ∈ d.digits, c.isDigit = true :=
  fun _ hc => isDigit_of_mem_ofNat hc

theorem toNat_digits (d : Decimal) : toNat d.digits = d.coefficient := toNat_ofNat d.coefficient

theorem readPlain?_digits (d : Decimal) (places : ℕ) :
    readPlain? (plain d.digits places) = some (d.coefficient, places) := by
  rw [readPlain?_plain d.digits_ne_nil d.isDigit_of_mem_digits, toNat_digits]

theorem exists_digit_plain_digits (d : Decimal) (places : ℕ) : ∃ c t,
    plain d.digits places = c :: t ∧ c.isDigit = true ∧ 'E' ∉ plain d.digits places :=
  exists_digit_plain d.digits_ne_nil d.isDigit_of_mem_digits places

theorem readUnsigned?_plain (d : Decimal) (places : ℕ) :
    readUnsigned? (plain d.digits places) = some (d.coefficient, (-places : ℤ)) := by
  obtain ⟨-, -, -, -, hletter⟩ := d.exists_digit_plain_digits places
  rw [readUnsigned?, fields_of_not_mem hletter]
  simp only [readPlain?_digits, Option.bind_eq_bind, Option.bind_some]
  rfl

theorem readUnsigned?_scientific (d : Decimal) :
    readUnsigned? (scientific d.digits d.adjusted) = some (d.coefficient, d.exponent) := by
  obtain ⟨-, -, -, -, hletter⟩ := d.exists_digit_plain_digits (d.digits.length - 1)
  have hlen := List.length_pos_of_ne_nil d.digits_ne_nil
  have hexponent : d.adjusted - (d.digits.length - 1 : ℕ) = d.exponent := by
    rw [adjusted]
    omega
  rw [scientific_eq, readUnsigned?, fields_append hletter,
    fields_of_not_mem (not_mem_signedExponent _)]
  simp only [readPlain?_digits, readInt?_signedExponent, Option.bind_eq_bind, Option.bind_some,
    hexponent]
  rfl

theorem exists_unsigned (d : Decimal) : ∃ c t, c.isDigit = true ∧
    readUnsigned? (c :: t) = some (d.coefficient, d.exponent) ∧
      d.text = if d.negative then '-' :: c :: t else c :: t := by
  rw [text]
  by_cases hnotation : (d.exponent ≤ 0 && -6 ≤ d.adjusted) = true
  · have hexponent : d.exponent = -((-d.exponent).toNat : ℤ) := by
      have hle := (Bool.and_eq_true _ _).mp hnotation
      rw [decide_eq_true_eq] at hle
      omega
    obtain ⟨c, t, hplain, hc, -⟩ := d.exists_digit_plain_digits (-d.exponent).toNat
    have hread := d.readUnsigned?_plain (-d.exponent).toNat
    rw [hplain, ← hexponent] at hread
    rw [if_pos hnotation, hplain]
    exact ⟨c, t, hc, hread, rfl⟩
  · obtain ⟨c, t, hplain, hc, -⟩ := d.exists_digit_plain_digits (d.digits.length - 1)
    have hread := d.readUnsigned?_scientific
    rw [scientific_eq, hplain, List.cons_append] at hread
    rw [if_neg hnotation, scientific_eq, hplain]
    exact ⟨c, _, hc, hread, rfl⟩

theorem read?_text (d : Decimal) : read? d.text = some d := by
  obtain ⟨c, t, hc, hread, htext⟩ := d.exists_unsigned
  rw [htext]
  cases hd : d.negative with
  | true =>
    simp only [if_true, read?, hread]
    rw [← hd]
    rfl
  | false =>
    have hminus : c ≠ '-' := by
      rintro rfl
      cases hc
    rw [if_neg Bool.false_ne_true, read?.eq_2 _ (by simp [hminus]), hread, ← hd]
    rfl

theorem text_inj {d e : Decimal} :
    d.text = e.text ↔ d.negative = e.negative ∧ d.digits = e.digits ∧ d.exponent = e.exponent := by
  constructor
  · intro h
    obtain rfl := injective_of_read read?_text h
    exact ⟨rfl, rfl, rfl⟩
  · rintro ⟨hnegative, hdigits, hexponent⟩
    have hde : d = e := by
      cases d
      cases e
      rw [mk.injEq]
      exact ⟨hnegative, ofNat_injective hdigits, hexponent⟩
    rw [hde]

structure Parts (t whole fraction : Text) : Prop where
  isDigit : ∀ d ∈ whole ++ fraction, d.isDigit = true
  ne_nil : whole ++ fraction ≠ []
  eq_or : t = whole ++ '.' :: fraction ∨ fraction = [] ∧ t = whole

theorem Parts.takeWhile_eq {t whole fraction : Text} (h : Parts t whole fraction) :
    t.takeWhile Char.isDigit = whole := by
  have hwhole := (List.forall_mem_append.mp h.isDigit).1
  rcases h.eq_or with rfl | ⟨-, rfl⟩
  · have hdot : ¬ Char.isDigit '.' = true := Bool.false_ne_true
    rw [List.takeWhile_append_of_pos hwhole, List.takeWhile_cons_of_neg hdot, List.append_nil]
  · exact List.takeWhile_eq_self_iff.mpr hwhole

theorem ofText?_of_parts {t whole fraction : Text} (h : Parts t.unsigned whole fraction) :
    ofText? t = some ⟨t.head? == some '-', toNat (whole ++ fraction), -fraction.length⟩ := by
  obtain ⟨hwhole, hfraction⟩ := List.forall_mem_append.mp h.isDigit
  have hne := h.ne_nil
  rw [ofText?, readSign_eq]
  simp only [h.takeWhile_eq]
  rcases h.eq_or with ht | ⟨rfl, ht⟩
  · have hdot : ¬ Char.isDigit '.' = true := Bool.false_ne_true
    have hdrop : (whole ++ '.' :: fraction).dropWhile Char.isDigit = '.' :: fraction := by
      rw [List.dropWhile_append_of_pos hwhole, List.dropWhile_cons_of_neg hdot]
    have hall : fraction.all Char.isDigit = true := List.all_eq_true.mpr hfraction
    simp only [ht, hdrop, hall, Bool.true_and, bne_iff_ne, if_pos hne]
  · have hdrop : whole.dropWhile Char.isDigit = [] := List.dropWhile_eq_nil_iff.mpr hwhole
    rw [List.append_nil] at hne
    simp [ht, hdrop, hne]

end Decimal

end PlcScan
