import PlcScan.Proofs.LongestLexeme

namespace PlcScan

open Grammar

/-- What is wrong with a text, and after how many characters the rule finds out; then what the user
is told: a code, and how far from the beginning of the text the fault lies. -/
structure Finding where
  fault : Fault
  used : Nat
  code : Text
  offset : Nat

def Found.ahead : Text → Found
  | [] => .endOfInput
  | c :: _ => .char c

inductive Diagnosis (o : Options) : Text → Finding → Prop
  | invalidCharacter {c t} : Text.isPrintable c = false ∨ c = ' ' →
      Diagnosis o (c :: t) ⟨.invalidCharacter (.char c), 0, "L001".toList, 0⟩
  | leadingZero {s d t} : o.rejectLeadingZeros = true → s ∈ sign → d ∈ digits →
      Diagnosis o (s ++ '0' :: d :: t)
        ⟨Rule.leadingZero, s.length + 1, "L003".toList, s.length + 1⟩
  | unterminatedString {b t} : b ∈ stringBody →
      t = [] ∨ t = ['\\'] ∨ (∃ c ∈ breaks, ∃ u, t = c :: u) →
      Diagnosis o ('"' :: (b ++ t)) ⟨.unterminatedString, b.length + 1, "L002".toList, 0⟩
  | stringEscape {b c t} : b ∈ stringBody → c ∉ escapable →
      Diagnosis o ('"' :: (b ++ '\\' :: c :: t))
        ⟨.invalidEscape (.char c), b.length + 2, "L006".toList, b.length + 2⟩
  | characterEscape {t} : (∀ c ∈ t.head?, c ∉ escapable) →
      Diagnosis o ('\'' :: '\\' :: t) ⟨.invalidEscape (.ahead t), 2, "L006".toList, 2⟩
  | afterEscape {c t} : c ∈ escapable → t.head? ≠ some '\'' →
      Diagnosis o ('\'' :: '\\' :: c :: t) ⟨.malformedCharacter (.ahead t), 3, "L009".toList, 3⟩
  | noCharacter {t} : (∀ c ∈ t.head?, c = '\'' ∨ c ∈ breaks) →
      Diagnosis o ('\'' :: t) ⟨.malformedCharacter (.ahead t), 1, "L009".toList, 1⟩
  | afterCharacter {c t} : c ∈ characterRaw → t.head? ≠ some '\'' →
      Diagnosis o ('\'' :: c :: t) ⟨.malformedCharacter (.ahead t), 2, "L009".toList, 2⟩

namespace Diagnosis

variable {o : Options} {t : Text} {x : Finding}

theorem code_eq (h : Diagnosis o t x) : x.fault.code = x.code := by
  cases h <;> rfl

theorem offset_eq (h : Diagnosis o t x) (start : Nat) :
    x.fault.offset start x.used = start + x.offset := by
  cases h <;> rfl

theorem ne_nil (h : Diagnosis o t x) : t ≠ [] := by
  cases h <;> simp

end Diagnosis

theorem Text.isOperator_of_ascii {c : Char} (hlo : 0x20 < c.toNat) (hhi : c.toNat < 0x7f) :
    isOperator c = true := by
  have hne : c ≠ ' ' := by
    rintro rfl
    exact absurd hlo (by decide)
  simp only [isOperator, isPrintable, hhi, if_true, Bool.and_eq_true, decide_eq_true_eq, bne_iff_ne]
  exact ⟨hlo.le, hne⟩

theorem Text.isOperator_of_identifierStart {c : Char}
    (h : CharClass.identifierStart.mem c = true) : isOperator c = true := by
  simp only [CharClass.mem, Char.isAlpha, Char.isUpper, Char.isLower, Bool.or_eq_true,
    Bool.and_eq_true, decide_eq_true_eq, UInt32.le_iff_toNat_le, ge_iff_le] at h
  rcases h with rfl | ⟨hlo, hhi⟩ | ⟨hlo, hhi⟩
  · decide
  · change 65 ≤ c.toNat at hlo
    change c.toNat ≤ 90 at hhi
    exact isOperator_of_ascii (by omega) (by omega)
  · change 97 ≤ c.toNat at hlo
    change c.toNat ≤ 122 at hhi
    exact isOperator_of_ascii (by omega) (by omega)

theorem Text.isOperator_of_digit {c : Char} (h : CharClass.digit.mem c = true) :
    isOperator c = true := by
  obtain ⟨hlo, hhi⟩ := Char.isDigit_iff_toNat.mp h
  change 48 ≤ c.toNat at hlo
  change c.toNat ≤ 57 at hhi
  exact isOperator_of_ascii (by omega) (by omega)

namespace Rule

theorem token_invalid {o : Options} {c : Char} (hc : Text.isOperator c = false) (t : Text) :
    token o (c :: t) = .refuse 0 (.invalidCharacter (.char c)) := by
  have hi : CharClass.identifierStart.mem c = false := by
    rw [← Bool.not_eq_true] at hc ⊢
    exact fun h => hc (Text.isOperator_of_identifierStart h)
  have hd : CharClass.digit.mem c = false := by
    rw [← Bool.not_eq_true] at hc ⊢
    exact fun h => hc (Text.isOperator_of_digit h)
  have hne (d : Char) (hd : Text.isOperator d = true) : c ≠ d := by
    rintro rfl
    exact Bool.false_ne_true (hc.symm.trans hd)
  have hp : c ≠ '+' := hne _ (by decide)
  have hm : c ≠ '-' := hne _ (by decide)
  have hs : c ≠ '\'' := hne _ (by decide)
  have hq : c ≠ '"' := hne _ (by decide)
  have hsign : CharClass.sign.mem c = false := by simp [CharClass.mem, hp, hm]
  have hsingle : CharClass.singleQuote.mem c = false := by simp [CharClass.mem, hs]
  have hdouble : CharClass.doubleQuote.mem c = false := by simp [CharClass.mem, hq]
  simp [token, hi, hd, hsign, hsingle, hdouble, hc]

theorem token_leadingZero {o : Options} {s t : Text} {d : Char} (ho : o.rejectLeadingZeros = true)
    (hs : s ∈ sign) (hd : CharClass.digit.mem d = true) :
    token o (s ++ '0' :: d :: t) = .refuse (s.length + 1) leadingZero := by
  have hz : CharClass.zero.mem '0' = true := rfl
  rw [token_signed hs rfl, unsigned, if_pos hz]
  simp [ho, leading, hd]

theorem stringRest_unterminated {t : Text}
    (ht : t = [] ∨ t = ['\\'] ∨ ∃ c ∈ breaks, ∃ u, t = c :: u) :
    stringRest t = .refuse 0 .unterminatedString := by
  rcases ht with rfl | rfl | ⟨c, hc, u, rfl⟩
  · rfl
  · rfl
  · rcases hc with rfl | rfl <;> rfl

theorem stringRest_escape {c : Char} (hc : CharClass.escapeChar.mem c = false) (t : Text) :
    stringRest ('\\' :: c :: t) = .refuse 1 (.invalidEscape (.char c)) := by
  simp [stringRest, hc]

theorem characterRest_badEscape {t : Text} (h : ∀ c ∈ t.head?, CharClass.escapeChar.mem c = false) :
    characterRest ('\\' :: t) = .refuse 1 (.invalidEscape (.ahead t)) := by
  cases t with
  | nil => rfl
  | cons c t =>
    have hb : CharClass.backslash.mem '\\' = true := rfl
    have he : escape ('\\' :: c :: t) = .refuse 1 (.invalidEscape (.char c)) := by
      simp [escape, leading, hb, h c rfl]
    rw [characterRest, if_pos hb, he]
    rfl

theorem closingQuote_refuse {t : Text} (h : t.head? ≠ some '\'') :
    closingQuote t = .refuse 0 (.malformedCharacter (.ahead t)) := by
  cases t with
  | nil => rfl
  | cons c t =>
    have hc : CharClass.singleQuote.mem c = false := by simpa [CharClass.mem] using h
    simp [closingQuote, hc, Found.ahead]

theorem characterRest_none {t : Text} (h : ∀ c ∈ t.head?, c = '\'' ∨ c ∈ breaks) :
    characterRest t = .refuse 0 (.malformedCharacter (.ahead t)) := by
  cases t with
  | nil => rfl
  | cons c t => rcases h c rfl with rfl | rfl | rfl <;> rfl

theorem token_of_diagnosis {o : Options} {t : Text} {x : Finding} (h : Diagnosis o t x) :
    token o t = .refuse x.used x.fault := by
  cases h with
  | invalidCharacter hc =>
    apply token_invalid
    rcases hc with hc | rfl
    · simp [Text.isOperator, hc]
    · rfl
  | leadingZero ho hs hd => exact token_leadingZero ho hs ((mem_digits _).mp hd)
  | unterminatedString hb ht =>
    simp [token_doubleQuote, stringRest_append hb, stringRest_unterminated ht, Nat.add_comm]
  | stringEscape hb hc =>
    rw [mem_escapable, Bool.not_eq_true] at hc
    simp [token_doubleQuote, stringRest_append hb, stringRest_escape hc,
      Nat.add_left_comm]
  | characterEscape ht =>
    simp only [mem_escapable, Bool.not_eq_true] at ht
    simp [token_singleQuote, characterRest_badEscape ht]
  | afterEscape hc ht =>
    simp [token_singleQuote, characterRest_escape ((mem_escapable _).mp hc), closingQuote_refuse ht]
  | noCharacter ht => simp [token_singleQuote, characterRest_none ht]
  | afterCharacter hc ht =>
    simp [token_singleQuote, characterRest_raw ((mem_characterRaw _).mp hc), closingQuote_refuse ht]

end Rule

theorem exists_stringBody (t : Text) : ∃ b ∈ stringBody, ∃ r, t = b ++ r ∧
    ((r = [] ∨ r = ['\\'] ∨ ∃ c ∈ breaks, ∃ u, r = c :: u) ∨
      (∃ c ∉ escapable, ∃ u, r = '\\' :: c :: u) ∨ ∃ u, r = '"' :: u) := by
  -- The body that the rule runs over is the longest.
  fun_induction Rule.stringRest t with
  | case1 => exact ⟨[], nil_mem_stringBody, [], rfl, .inl (.inl rfl)⟩
  | case2 => exact ⟨[], nil_mem_stringBody, ['\\'], rfl, .inl (.inr (.inl rfl))⟩
  | case3 c u hc ih =>
    obtain ⟨b, hb, r, rfl, hr⟩ := ih
    exact ⟨'\\' :: c :: b, escape_mem_stringBody hc hb, r, rfl, hr⟩
  | case4 c u hc =>
    rw [← mem_escapable] at hc
    exact ⟨[], nil_mem_stringBody, _, rfl, .inr (.inl ⟨c, hc, u, rfl⟩)⟩
  | case5 c u _ _ hc =>
    obtain rfl : c = '"' := by simpa [CharClass.mem] using hc
    exact ⟨[], nil_mem_stringBody, _, rfl, .inr (.inr ⟨u, rfl⟩)⟩
  | case6 c u _ _ _ hc ih =>
    obtain ⟨b, hb, r, rfl, hr⟩ := ih
    exact ⟨c :: b, raw_mem_stringBody hc hb, r, rfl, hr⟩
  | case7 c u hlast hpair hq hc =>
    have hslash : c ≠ '\\' := by
      rintro rfl
      cases u with
      | nil => exact hlast rfl rfl
      | cons d u => exact hpair d u rfl rfl
    have hq : c ≠ '"' := by simpa [CharClass.mem] using hq
    have hbreak : c ∈ breaks := by
      by_contra hb
      exact hc ((mem_stringRaw c).mp (by simp [stringRaw, hb, hq, hslash]))
    exact ⟨[], nil_mem_stringBody, _, rfl, .inl (.inr (.inr ⟨c, hbreak, u, rfl⟩))⟩

theorem diagnosis_singleQuote (o : Options) (t : Text) :
    (∃ w, w <+: '\'' :: t ∧ w ∈ character) ∨ ∃ x, Diagnosis o ('\'' :: t) x := by
  rcases t with _ | ⟨c, t⟩
  · exact .inr ⟨_, .noCharacter (by simp)⟩
  by_cases hn : c = '\'' ∨ c ∈ breaks
  · exact .inr ⟨_, .noCharacter (by simpa using hn)⟩
  by_cases hslash : c = '\\'
  · subst hslash
    rcases t with _ | ⟨d, t⟩
    · exact .inr ⟨_, .characterEscape (by simp)⟩
    by_cases hd : d ∈ escapable
    · by_cases hq : t.head? = some '\''
      · obtain ⟨u, rfl⟩ := List.head?_eq_some_iff.mp hq
        have hw := mem_character.mpr (.inr ⟨d, (mem_escapable d).mp hd, rfl⟩)
        exact .inl ⟨_, ⟨u, rfl⟩, hw⟩
      · exact .inr ⟨_, .afterEscape hd hq⟩
    · exact .inr ⟨_, .characterEscape (by simpa using hd)⟩
  · have hraw : c ∈ characterRaw := by
      rw [not_or] at hn
      simp [characterRaw, hn.1, hn.2, hslash]
    by_cases hq : t.head? = some '\''
    · obtain ⟨u, rfl⟩ := List.head?_eq_some_iff.mp hq
      have hw := mem_character.mpr (.inl ⟨c, (mem_characterRaw c).mp hraw, rfl⟩)
      exact .inl ⟨_, ⟨u, rfl⟩, hw⟩
    · exact .inr ⟨_, .afterCharacter hraw hq⟩

theorem diagnosis_doubleQuote (o : Options) (t : Text) :
    (∃ w, w <+: '"' :: t ∧ w ∈ string) ∨ ∃ x, Diagnosis o ('"' :: t) x := by
  obtain ⟨b, hb, r, rfl, hr | ⟨c, hc, u, rfl⟩ | ⟨u, rfl⟩⟩ := exists_stringBody t
  · exact .inr ⟨_, .unterminatedString hb hr⟩
  · exact .inr ⟨_, .stringEscape hb hc⟩
  · exact .inl ⟨'"' :: (b ++ ['"']), ⟨u, by simp⟩, mem_string.mpr ⟨b, hb, rfl⟩⟩

theorem prefix_or_diagnosis (o : Options) (c : Char) (t : Text) :
    (∃ k w, w <+: c :: t ∧ w ∈ lexemes o k) ∨ ∃ x, Diagnosis o (c :: t) x := by
  by_cases hs : c = '\''
  · subst hs
    exact (diagnosis_singleQuote o t).imp_left fun ⟨w, hw, hk⟩ => ⟨.character, w, hw, hk⟩
  by_cases hq : c = '"'
  · subst hq
    exact (diagnosis_doubleQuote o t).imp_left fun ⟨w, hw, hk⟩ => ⟨.string, w, hw, hk⟩
  have hone : [c] <+: c :: t := ⟨t, rfl⟩
  by_cases hi : CharClass.identifierStart.mem c = true
  · exact .inl ⟨.identifier, [c], hone, mem_identifier.mpr ⟨c, [], hi, by simp, rfl⟩⟩
  by_cases hd : CharClass.digit.mem c = true
  · exact .inl ⟨.integer, [c], hone, signed_digit (mem_sign.mpr (.inl rfl)) hd⟩
  by_cases hop : Text.isOperator c = true
  · rw [Bool.not_eq_true] at hi hd
    have hc : c ∈ symbols := (mem_symbols c).mpr ⟨hop, hi, hd, hs, hq⟩
    exact .inl ⟨.operator, [c], hone, mem_operator.mpr (.inr ⟨c, hc, rfl⟩)⟩
  · refine .inr ⟨_, .invalidCharacter ?_⟩
    simpa [Text.isOperator, or_iff_not_imp_left] using hop

theorem ends_or_diagnosis (o : Options) {t : Text} (ht : t ≠ []) :
    (∃ k w rest, t = w ++ rest ∧ Ends o k w rest) ∨ ∃ x, Diagnosis o t x := by
  obtain ⟨c, u, rfl⟩ := List.exists_cons_of_ne_nil ht
  rcases prefix_or_diagnosis o c u with ⟨k, w, hw, hk⟩ | h
  · obtain ⟨l, v, hv⟩ := exists_longest hw hk
    obtain ⟨rest, he⟩ := hv.isPrefix
    rw [← he] at hv ⊢
    by_cases hz : o.rejectLeadingZeros = true ∧ LeadingZero v rest
    · obtain ⟨ho, ⟨s, hs, z, hz, rfl⟩, d, hd, r, rfl⟩ := hz
      obtain rfl := mem_zero.mp hz
      have hx := Diagnosis.leadingZero (t := r) ho hs hd
      exact .inr ⟨_, by simpa using hx⟩
    · exact .inl ⟨l, v, rest, rfl, ends_iff.mpr ⟨hv, hz⟩⟩
  · exact .inr h

theorem Ends.not_diagnosis {o : Options} {k : Kind} {w rest : Text} {x : Finding}
    (h : Ends o k w rest) : ¬ Diagnosis o (w ++ rest) x := by
  intro hx
  have hr := congrArg Munch.result ((Rule.token_append h).symm.trans (Rule.token_of_diagnosis hx))
  simp [Munch.accept, Munch.refuse] at hr

end PlcScan
