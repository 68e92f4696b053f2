import PlcScan.Proofs.MaximalMunch

namespace PlcScan

open Reference

theorem Diagnosis.unique {o : Options} {t : Text} {x y : Finding} (hx : Diagnosis o t x)
    (hy : Diagnosis o t y) : x = y := by
  have he := (Rule.token_of_diagnosis hx).symm.trans (Rule.token_of_diagnosis hy)
  simp only [Munch.refuse, Munch.mk.injEq, Except.error.injEq, Halt.fault.injEq] at he
  have hoffset : x.offset = y.offset := by
    have h := hx.offset_eq 0
    rw [he.1, he.2, hy.offset_eq] at h
    omega
  have hcode : x.code = y.code := by rw [← hx.code_eq, he.2, hy.code_eq]
  obtain ⟨f, n, c, i⟩ := x
  obtain ⟨g, m, d, j⟩ := y
  simp_all

theorem Reference.not_blank_iff {o : Options} {source : Text} {k : Nat} {x : Finding}
    (hx : Diagnosis o (source.drop k) x) :
    (∀ c ∈ (source.drop k).head?, o.isBlank c = false) ↔
      ∃ c, source[k]? = some c ∧ [c] ∉ o.whitespace := by
  obtain ⟨c, t, ht⟩ := List.exists_cons_of_ne_nil hx.ne_nil
  have hc : source[k]? = some c := by rw [← List.head?_drop, ht]; rfl
  simp [ht, hc, ← isBlank_iff]

theorem lex_fault_iff (o : Options) (filename source : Text) (e : LexicalError) :
    lex o filename source = .error (.lexical e) ↔
      ∃ k ts x, Reaches o source ⟨k, ts⟩ ∧ (∃ c, source[k]? = some c ∧ [c] ∉ o.whitespace) ∧
        Diagnosis o (source.drop k) x ∧ e.fault.code = x.code ∧ e.location.offset = k + x.offset ∧
        e = ⟨x.fault, .of source e.location.offset filename⟩ := by
  constructor
  · intro h
    obtain ⟨ps, x, hps, hx, he⟩ := lex_error_iff.mp h
    obtain rfl := Failure.lexical.inj he
    obtain ⟨y, hb, hy, -⟩ := hps.diagnosis rfl
    exact ⟨_, _, x, reaches_of_scans hps, (not_blank_iff hy).mp hb, hx, hx.code_eq, rfl, rfl⟩
  · rintro ⟨k, ts, x, hr, hc, hx, -, hoffset, he⟩
    have hstuck : ∀ s, ¬ Step o source ⟨k, ts⟩ s :=
      not_step_diagnosis ((not_blank_iff hx).mpr hc) hx
    rcases scans_cases o source with ⟨ps, hps⟩ | ⟨ps, y, hps, hy⟩
    · have hs := final_unique Step.unique hr (reaches_of_done hps) hstuck not_step_end
      obtain rfl := (State.mk.inj hs).1
      exact absurd (List.drop_length ..) hx.ne_nil
    · have hs := final_unique Step.unique hr (reaches_of_scans hps) hstuck (stuck_of_halt hps).2
      obtain rfl := (State.mk.inj hs).1
      obtain rfl := hx.unique hy
      rw [lex_of_halt hps hx, he, hoffset]
      rfl

end PlcScan
