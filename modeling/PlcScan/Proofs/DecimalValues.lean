import PlcScan.Proofs.DecimalNotation
import PlcScan.Proofs.TokenValues

namespace PlcScan

namespace Grammar

open Computability

def unsignedNumeral : Language Char :=
  one digits * (one digits)∗ * (1 + one {'.'} * (one digits)∗) +
    one {'.'} * (one digits * (one digits)∗)

def numeral : Language Char := sign * unsignedNumeral

theorem mem_digits_star {w : Text} : w ∈ (one digits)∗ ↔ ∀ d ∈ w, d.isDigit = true := by
  simp only [mem_one_star, mem_digits]
  rfl

theorem mem_digits_plus {w : Text} :
    w ∈ one digits * (one digits)∗ ↔ w ≠ [] ∧ ∀ d ∈ w, d.isDigit = true := by
  simp only [mem_one_mul, mem_digits_star, mem_digits]
  constructor
  · rintro ⟨d, hd, ds, hds, rfl⟩
    exact ⟨List.cons_ne_nil d ds, List.forall_mem_cons.mpr ⟨hd, hds⟩⟩
  · rintro ⟨hne, hw⟩
    obtain ⟨d, ds, rfl⟩ := List.exists_cons_of_ne_nil hne
    exact ⟨d, (List.forall_mem_cons.mp hw).1, ds, (List.forall_mem_cons.mp hw).2, rfl⟩

theorem mem_unsignedNumeral {w : Text} :
    w ∈ unsignedNumeral ↔ ∃ whole fraction, Decimal.Parts w whole fraction := by
  constructor
  · rintro (⟨whole, hwhole, rest, hrest, rfl⟩ | hw)
    · obtain ⟨hne, hwhole⟩ := mem_digits_plus.mp hwhole
      rcases hrest with rfl | hrest
      · exact ⟨whole, [], by simpa using hwhole, by simpa using hne,
          .inr ⟨rfl, List.append_nil whole⟩⟩
      · obtain ⟨_, rfl, fraction, hfraction, rfl⟩ := mem_one_mul.mp hrest
        exact ⟨whole, fraction, List.forall_mem_append.mpr ⟨hwhole, mem_digits_star.mp hfraction⟩,
          by simp [hne], .inl rfl⟩
    · obtain ⟨_, rfl, fraction, hfraction, rfl⟩ := mem_one_mul.mp hw
      obtain ⟨hne, hfraction⟩ := mem_digits_plus.mp hfraction
      exact ⟨[], fraction, hfraction, hne, .inl rfl⟩
  · rintro ⟨whole, fraction, hdigits, hne, rfl | ⟨rfl, rfl⟩⟩
    · obtain ⟨hwhole, hfraction⟩ := List.forall_mem_append.mp hdigits
      by_cases hnil : whole = []
      · subst hnil
        exact .inr (mem_one_mul.mpr ⟨'.', rfl, fraction, mem_digits_plus.mpr ⟨hne, hfraction⟩, rfl⟩)
      · have hrest : '.' :: fraction ∈ one {'.'} * (one digits)∗ :=
          mem_one_mul.mpr ⟨'.', rfl, fraction, mem_digits_star.mpr hfraction, rfl⟩
        exact .inl ⟨whole, mem_digits_plus.mpr ⟨hnil, hwhole⟩, _, .inr hrest, rfl⟩
    · rw [List.append_nil] at hdigits hne
      exact .inl ⟨w, mem_digits_plus.mpr ⟨hne, hdigits⟩, [], .inl rfl, List.append_nil w⟩

end Grammar

namespace Text

def fractionValue : Text → ℚ
  | [] => 0
  | d :: t => (toNat [d] + fractionValue t) / 10

def number (t : Text) : ℚ := toNat (t.takeWhile Char.isDigit) + fractionValue t.afterDot

theorem fractionValue_mul (t : Text) : fractionValue t * 10 ^ t.length = toNat t := by
  induction t with
  | nil => simp [fractionValue, toNat]
  | cons d t ih =>
    rw [fractionValue, toNat_cons d t, List.length_cons, pow_succ]
    push_cast
    rw [← ih]
    ring

theorem toNat_mul_zpow (whole fraction : Text) :
    (toNat (whole ++ fraction) : ℚ) * 10 ^ (-(fraction.length : ℤ)) =
      toNat whole + fractionValue fraction := by
  have hpow : (10 : ℚ) ^ fraction.length ≠ 0 := pow_ne_zero _ (by norm_num)
  rw [toNat_append, zpow_neg, zpow_natCast, mul_inv_eq_iff_eq_mul₀ hpow]
  push_cast
  rw [← fractionValue_mul fraction]
  ring

end Text

namespace Decimal.Parts

variable {s t whole fraction : Text}

theorem filter_isDigit (h : Parts t whole fraction) : t.filter Char.isDigit = whole ++ fraction := by
  have hfilter : (whole ++ fraction).filter Char.isDigit = whole ++ fraction :=
    List.filter_eq_self.mpr h.isDigit
  rw [List.filter_append] at hfilter
  rcases h.eq_or with rfl | ⟨rfl, rfl⟩
  · rw [List.filter_append, List.filter_cons_of_neg (by decide), hfilter]
  · simpa using hfilter

theorem exists_cons (h : Parts t whole fraction) :
    ∃ c u, t = c :: u ∧ (c.isDigit = true ∨ c = '.') := by
  have hne := h.ne_nil
  have hdigits := h.isDigit
  rcases h.eq_or with rfl | ⟨rfl, rfl⟩
  · cases whole with
    | nil => exact ⟨'.', fraction, rfl, .inr rfl⟩
    | cons c whole => exact ⟨c, whole ++ '.' :: fraction, rfl, .inl (hdigits c (by simp))⟩
  · rw [List.append_nil] at hne hdigits
    obtain ⟨c, t, rfl⟩ := List.exists_cons_of_ne_nil hne
    exact ⟨c, t, rfl, .inl (hdigits c (by simp))⟩

theorem unsigned_append (h : Parts t whole fraction) (hs : s ∈ Grammar.sign) :
    (s ++ t).unsigned = t := by
  rcases Grammar.mem_sign.mp hs with rfl | ⟨c, hc, rfl⟩
  · obtain ⟨c, u, rfl, hc⟩ := h.exists_cons
    have hplus : c ≠ '+' := by
      rintro rfl
      simp at hc
    have hminus : c ≠ '-' := by
      rintro rfl
      simp at hc
    simp [Text.unsigned, hplus, hminus]
  · rcases CharClass.eq_of_sign hc with rfl | rfl <;> rfl

theorem afterDot_eq (h : Parts t whole fraction) (hs : '.' ∉ s) : (s ++ t).afterDot = fraction := by
  have hdot : '.' ∉ whole ++ fraction := fun hmem => Bool.false_ne_true (h.isDigit '.' hmem)
  rw [List.mem_append, not_or] at hdot
  have hfront : '.' ∉ s ++ whole := by
    rw [List.mem_append, not_or]
    exact ⟨hs, hdot.1⟩
  rcases h.eq_or with rfl | ⟨rfl, rfl⟩
  · rw [← List.append_assoc, afterDot_append hfront]
  · exact afterDot_of_not_mem hfront

end Decimal.Parts

structure Decimal.Exact (w : Text) (d : Decimal) : Prop where
  negative_iff : d.negative = true ↔ w.head? = some '-'
  digits_eq : d.digits = Text.withoutZeros (w.filter Char.isDigit)
  exponent_eq : d.exponent = -(w.afterDot.length : ℤ)
  number_eq : (Text.toNat d.digits : ℚ) * 10 ^ d.exponent = w.unsigned.number
  read_text : read? d.text = some d

theorem filter_isDigit_sign {s : Text} (hs : s ∈ Grammar.sign) : s.filter Char.isDigit = [] := by
  rcases Grammar.mem_sign.mp hs with rfl | ⟨c, hc, rfl⟩
  · rfl
  · rcases CharClass.eq_of_sign hc with rfl | rfl <;> rfl

theorem Decimal.exists_exact {w : Text} (hw : w ∈ Grammar.numeral) :
    ∃ d, Decimal.ofText? w = some d ∧ d.Exact w := by
  obtain ⟨s, hs, t, ht, he⟩ := hw
  replace he : w = s ++ t := he.symm
  subst he
  obtain ⟨whole, fraction, hparts⟩ := Grammar.mem_unsignedNumeral.mp ht
  have hunsigned := hparts.unsigned_append hs
  have hfilter : (s ++ t).filter Char.isDigit = whole ++ fraction := by
    rw [List.filter_append, filter_isDigit_sign hs, hparts.filter_isDigit, List.nil_append]
  have hafter : Text.afterDot (s ++ t) = fraction := hparts.afterDot_eq (dot_not_mem_sign hs)
  have hnumber : Text.number t = Text.toNat whole + Text.fractionValue fraction := by
    have hafter : Text.afterDot t = fraction := hparts.afterDot_eq (s := []) List.not_mem_nil
    rw [Text.number, hparts.takeWhile_eq, hafter]
  refine ⟨_, Decimal.ofText?_of_parts (hunsigned ▸ hparts), ?_, ?_, ?_, ?_, Decimal.read?_text _⟩
  · exact beq_iff_eq
  · rw [hfilter]
    exact Text.ofNat_toNat_eq hparts.isDigit
  · rw [hafter]
  · rw [Decimal.toNat_digits, hunsigned, hnumber, Text.toNat_mul_zpow]

theorem value_of_numeral {t : Token} (hk : t.kind = .decimal) (ht : t.lexeme ∈ Grammar.numeral) :
    ∃ d, t.value = .ok (.decimal d) ∧ d.Exact t.lexeme ∧
      ∀ u : Token, u.kind = .decimal → u.lexeme ∈ Grammar.numeral →
        ∃ e, u.value = .ok (.decimal e) ∧ (d.text = e.text ↔
          d.negative = e.negative ∧ d.digits = e.digits ∧ d.exponent = e.exponent) := by
  have hvalue {u : Token} (hk : u.kind = .decimal) (hu : u.lexeme ∈ Grammar.numeral) :
      ∃ e, u.value = .ok (.decimal e) ∧ e.Exact u.lexeme := by
    obtain ⟨e, he, hexact⟩ := Decimal.exists_exact hu
    exact ⟨e, by rw [Token.value, hk, he], hexact⟩
  obtain ⟨d, hd, hexact⟩ := hvalue hk ht
  refine ⟨d, hd, hexact, fun u hku hu => ?_⟩
  obtain ⟨e, he, -⟩ := hvalue hku hu
  exact ⟨e, he, Decimal.text_inj⟩

theorem value_of_numeral_notations :
    "-00.50".toList ∈ Grammar.numeral ∧ ".0000000".toList ∈ Grammar.numeral ∧
    ∃ d, Token.value ⟨.decimal, "-00.50".toList, 3⟩ = .ok (.decimal d) ∧
      d.Exact "-00.50".toList ∧ d.text = "-0.50".toList ∧
      ∃ e, Token.value ⟨.decimal, ".0000000".toList, 0⟩ = .ok (.decimal e) ∧
        e.text = "0E-7".toList ∧ (d.text = e.text ↔
          d.negative = e.negative ∧ d.digits = e.digits ∧ d.exponent = e.exponent) := by
  have hplain : "-00.50".toList ∈ Grammar.numeral :=
    ⟨['-'], Grammar.mem_sign.mpr (.inr ⟨'-', rfl, rfl⟩), "00.50".toList,
      Grammar.mem_unsignedNumeral.mpr ⟨['0', '0'], ['5', '0'], by simp, by simp, .inl rfl⟩,
      rfl⟩
  have hzero : ".0000000".toList ∈ Grammar.numeral :=
    ⟨[], Grammar.mem_sign.mpr (.inl rfl), ".0000000".toList,
      Grammar.mem_unsignedNumeral.mpr ⟨[], List.replicate 7 '0', by simp, by simp, .inl rfl⟩,
      rfl⟩
  obtain ⟨d, hd, hexact, hu⟩ :=
    value_of_numeral (t := ⟨.decimal, "-00.50".toList, 3⟩) rfl hplain
  obtain ⟨e, he, htext⟩ := hu ⟨.decimal, ".0000000".toList, 0⟩ rfl hzero
  have hd' : d = ⟨true, 50, -2⟩ := by
    have h : Token.value ⟨.decimal, "-00.50".toList, 3⟩ = .ok (.decimal ⟨true, 50, -2⟩) := by cbv
    exact Value.decimal.inj (Except.ok.inj (hd.symm.trans h))
  have he' : e = ⟨false, 0, -7⟩ := by
    have h : Token.value ⟨.decimal, ".0000000".toList, 0⟩ = .ok (.decimal ⟨false, 0, -7⟩) := by cbv
    exact Value.decimal.inj (Except.ok.inj (he.symm.trans h))
  refine ⟨hplain, hzero, d, hd, hexact, ?_, e, he, ?_, htext⟩
  · rw [hd']
    cbv
  · rw [he']
    cbv

end PlcScan
