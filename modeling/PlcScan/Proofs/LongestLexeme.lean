import PlcScan.Proofs.RuleAcceptance

namespace PlcScan

open Grammar

def LeadingZero (w rest : Text) : Prop := w ∈ sign * zero ∧ ∃ d ∈ digits, ∃ t, rest = d :: t

structure Longest (o : Options) (t : Text) (k : Kind) (w : Text) : Prop where
  isPrefix : w <+: t
  mem : w ∈ lexemes o k
  longest : ∀ l v, v <+: t → v ∈ lexemes o l → v.length ≤ w.length

theorem ne_nil_of_barred {o : Options} {k : Kind} {w : Text} {tests : List (Char → Bool)}
    (h : tests ∈ barred o k w) : tests ≠ [] := by
  rintro rfl
  cases k <;> simp [barred] at h

namespace Ends

variable {o : Options} {k : Kind} {w rest : Text}

theorem mono {t : Text} (h : Ends o k w rest)
    (ht : ∀ tests ∈ barred o k w, t.starts tests = true → rest.starts tests = true) :
    Ends o k w t := by
  refine ⟨h.mem, fun tests htests => ?_⟩
  rw [← Bool.not_eq_true]
  intro hs
  have hr := ht tests htests hs
  rw [h.follow tests htests] at hr
  exact Bool.false_ne_true hr

theorem of_prefix {t : Text} (h : Ends o k w rest) (ht : t <+: rest) : Ends o k w t :=
  h.mono fun _ _ hs => Text.starts_of_prefix ht hs

theorem of_nil (h : w ∈ lexemes o k) : Ends o k w [] := by
  refine ⟨h, fun tests htests => ?_⟩
  cases tests with
  | nil => exact absurd rfl (ne_nil_of_barred htests)
  | cons test tests => rfl

end Ends

theorem Grammar.kind_unique {o : Options} {k l : Kind} {w : Text} (hk : w ∈ lexemes o k)
    (hl : w ∈ lexemes o l) : k = l := by
  have h := (Rule.token_append (Ends.of_nil hk)).symm.trans (Rule.token_append (Ends.of_nil hl))
  simpa [Munch.accept] using h

theorem mem_zeros {w : Text} : w ∈ zeros ↔ w ∈ sign * zero := by
  simp only [zeros, Language.mem_mul, mem_sign, mem_zero]
  constructor
  · intro h
    simp only [List.mem_cons, List.not_mem_nil, or_false] at h
    rcases h with rfl | rfl | rfl
    · exact ⟨[], .inl rfl, _, rfl, rfl⟩
    · exact ⟨['+'], .inr ⟨'+', rfl, rfl⟩, _, rfl, rfl⟩
    · exact ⟨['-'], .inr ⟨'-', rfl, rfl⟩, _, rfl, rfl⟩
  · rintro ⟨s, rfl | ⟨c, hc, rfl⟩, _, rfl, rfl⟩
    · simp
    · rcases CharClass.eq_of_sign hc with rfl | rfl <;> simp

theorem integer_of_leadingZero {w rest : Text} (h : LeadingZero w rest) : w ∈ integer := by
  obtain ⟨s, hs, z, hz, rfl⟩ := h.1
  exact ⟨s, hs, z, .inl hz, rfl⟩

theorem identifier_append {o : Options} {w : Text} {d : Char} (hw : w ∈ identifier o)
    (hd : o.identifierPart.mem d = true) : w ++ [d] ∈ identifier o := by
  obtain ⟨c, p, hc, hp, rfl⟩ := mem_identifier.mp hw
  refine mem_identifier.mpr ⟨c, p ++ [d], hc, ?_, rfl⟩
  simpa [or_imp, forall_and, hd] using hp

theorem integer_append {w : Text} {d : Char} (hw : w ∈ integer) (hz : w ∉ zeros)
    (hd : CharClass.digit.mem d = true) : w ++ [d] ∈ integer := by
  obtain ⟨s, hs, n, hn, rfl⟩ := hw
  rcases mem_natural.mp hn with rfl | ⟨e, es, he, hes, rfl⟩
  · exact absurd (mem_zeros.mpr ⟨s, hs, _, mem_zero.mpr rfl, rfl⟩) hz
  · refine ⟨s, hs, e :: (es ++ [d]), mem_natural.mpr (.inr ⟨e, es ++ [d], he, ?_, rfl⟩), by simp⟩
    simpa [or_imp, forall_and, hd] using hes

theorem decimal_append {w : Text} {d : Char} (hw : w ∈ decimal)
    (hd : CharClass.digit.mem d = true) : w ++ [d] ∈ decimal := by
  obtain ⟨i, hi, e, es, he, hes, rfl⟩ := mem_decimal.mp hw
  refine mem_decimal.mpr ⟨i, hi, e, es ++ [d], he, ?_, by simp⟩
  simpa [or_imp, forall_and, hd] using hes

theorem signed_digit {w : Text} {d : Char} (hw : w ∈ sign) (hd : CharClass.digit.mem d = true) :
    w ++ [d] ∈ integer := by
  refine ⟨w, hw, [d], mem_natural.mpr ?_, rfl⟩
  by_cases hz : d = '0'
  · exact .inl (by rw [hz])
  · have hn : CharClass.nonzeroDigit.mem d = true := by
      simp only [CharClass.mem] at hd
      simp [CharClass.mem, hd, hz]
    exact .inr ⟨d, [], hn, by simp, rfl⟩

theorem exists_longer {o : Options} {k : Kind} {w rest : Text} {tests : List (Char → Bool)}
    (hw : w ∈ lexemes o k) (htests : tests ∈ barred o k w) (h : rest.starts tests = true) :
    (o.rejectLeadingZeros = true ∧ LeadingZero w rest) ∨
      ∃ l x, x <+: rest ∧ x ≠ [] ∧ w ++ x ∈ lexemes o l := by
  cases k with
  | identifier =>
    obtain rfl := List.mem_singleton.mp htests
    obtain ⟨d, t, rfl, hd⟩ := Text.starts_singleton.mp h
    exact .inr ⟨.identifier, [d], ⟨t, rfl⟩, by simp, identifier_append hw hd⟩
  | integer =>
    rcases List.mem_cons.mp htests with rfl | htests
    · obtain ⟨c, d, t, rfl, hc, hd⟩ := Text.starts_pair.mp h
      obtain rfl : c = '.' := by simpa [CharClass.mem] using hc
      have hdec : w ++ ['.', d] ∈ decimal := mem_decimal.mpr ⟨w, hw, d, [], hd, by simp, rfl⟩
      exact .inr ⟨.decimal, ['.', d], ⟨t, rfl⟩, by simp, hdec⟩
    · obtain rfl := List.mem_singleton.mp htests
      obtain ⟨d, t, rfl, hd⟩ := Text.starts_singleton.mp h
      simp only [Bool.and_eq_true, Bool.or_eq_true, Bool.not_eq_true', List.contains_iff_mem,
        ← Bool.not_eq_true] at hd
      by_cases hz : w ∈ zeros
      · have ho : o.rejectLeadingZeros = true := by simpa [hz] using hd.2
        exact .inl ⟨ho, mem_zeros.mp hz, d, (mem_digits d).mpr hd.1, t, rfl⟩
      · exact .inr ⟨.integer, [d], ⟨t, rfl⟩, by simp, integer_append hw hz hd.1⟩
  | decimal =>
    obtain rfl := List.mem_singleton.mp htests
    obtain ⟨d, t, rfl, hd⟩ := Text.starts_singleton.mp h
    exact .inr ⟨.decimal, [d], ⟨t, rfl⟩, by simp, decimal_append hw hd⟩
  | character => exact absurd htests (List.not_mem_nil)
  | string => exact absurd htests (List.not_mem_nil)
  | operator =>
    rcases List.mem_cons.mp htests with rfl | htests
    · obtain ⟨d, t, rfl, hd⟩ := Text.starts_singleton.mp h
      have hop : w ++ [d] ∈ operator := mem_operator.mpr (.inl (List.contains_iff_mem.mp hd))
      exact .inr ⟨.operator, [d], ⟨t, rfl⟩, by simp, hop⟩
    · obtain rfl := List.mem_singleton.mp htests
      obtain ⟨d, t, rfl, hd⟩ := Text.starts_singleton.mp h
      simp only [Bool.and_eq_true, List.contains_iff_mem] at hd
      have hs : w ∈ sign := by
        rcases List.mem_cons.mp hd.1 with rfl | hm
        · exact mem_sign.mpr (.inr ⟨'+', rfl, rfl⟩)
        · obtain rfl := List.mem_singleton.mp hm
          exact mem_sign.mpr (.inr ⟨'-', rfl, rfl⟩)
      exact .inr ⟨.integer, [d], ⟨t, rfl⟩, by simp, signed_digit hs hd.2⟩

theorem ends_iff {o : Options} {k : Kind} {w rest : Text} : Ends o k w rest ↔
    Longest o (w ++ rest) k w ∧ ¬ (o.rejectLeadingZeros = true ∧ LeadingZero w rest) := by
  constructor
  · intro h
    refine ⟨⟨List.prefix_append w rest, h.mem, fun l v hv hl => ?_⟩, ?_⟩
    · by_contra hlt
      obtain ⟨x, rfl⟩ := List.prefix_of_prefix_length_le (List.prefix_append w rest) hv (by omega)
      have hx : Ends o k w x := h.of_prefix ((List.prefix_append_right_inj w).mp hv)
      have hshort := Rule.token_append hx
      have hlong := Rule.token_append (Ends.of_nil hl)
      rw [List.append_nil, hshort] at hlong
      have hlen := congrArg Munch.used hlong
      exact hlt (by simp only [Munch.accept] at hlen; omega)
    · rintro ⟨ho, hw, d, hd, t, rfl⟩
      have hi : w ∈ lexemes o .integer := integer_of_leadingZero ⟨hw, d, hd, t, rfl⟩
      obtain rfl := kind_unique h.mem hi
      have hz := h.follow _ (List.mem_cons_of_mem _ (List.mem_cons_self ..))
      simp [Text.starts, ho, (mem_digits d).mp hd] at hz
  · rintro ⟨h, hz⟩
    refine ⟨h.mem, fun tests htests => ?_⟩
    rw [← Bool.not_eq_true]
    intro hs
    rcases exists_longer h.mem htests hs with hz' | ⟨l, x, hx, hne, hl⟩
    · exact hz hz'
    · have hle := h.longest l (w ++ x) ((List.prefix_append_right_inj w).mpr hx) hl
      have hpos := List.length_pos_of_ne_nil hne
      rw [List.length_append] at hle
      omega

theorem exists_longest {o : Options} {t : Text} {k : Kind} {w : Text} (hw : w <+: t)
    (hk : w ∈ lexemes o k) : ∃ l v, Longest o t l v := by
  by_contra hno
  -- Without a longest one there are lexemes of every length in front of the text.
  have hgrow : ∀ n, ∃ l v, v <+: t ∧ v ∈ lexemes o l ∧ n ≤ v.length := by
    intro n
    induction n with
    | zero => exact ⟨k, w, hw, hk, Nat.zero_le _⟩
    | succ n ih =>
      obtain ⟨l, v, hv, hl, hn⟩ := ih
      by_contra hmax
      apply hno
      refine ⟨l, v, hv, hl, fun l' u hu hl' => ?_⟩
      by_contra hlt
      exact hmax ⟨l', u, hu, hl', by omega⟩
  obtain ⟨l, v, hv, -, hn⟩ := hgrow (t.length + 1)
  have := hv.length_le
  omega

end PlcScan
