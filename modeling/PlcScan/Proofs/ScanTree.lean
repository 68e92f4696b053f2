import PlcScan.Proofs.Diagnosis
import PlcScan.Scan

namespace PlcScan

theorem isBlank_iff {o : Options} {c : Char} : o.isBlank c = true ↔ [c] ∈ o.whitespace := by
  simp [Options.isBlank]

inductive Scans (o : Options) : Text → Scan → Prop
  | done : Scans o [] ⟨[], none⟩
  | blank {c t s} : o.isBlank c = true → Scans o t s → Scans o (c :: t) (s.cons (.blank c))
  | lexeme {k w rest s} : (∀ c ∈ w.head?, o.isBlank c = false) → Ends o k w rest →
      Scans o rest s → Scans o (w ++ rest) (s.cons (.lexeme k w))
  | halt {t x} : (∀ c ∈ t.head?, o.isBlank c = false) → Diagnosis o t x →
      Scans o t ⟨[], some ⟨x.used, .fault x.fault⟩⟩

namespace Scan

variable {o : Options} {rule : Text → Munch Kind}

theorem of_blank {c : Char} (hc : o.isBlank c = true) (t : Text) :
    of o rule (c :: t) = (of o rule t).cons (.blank c) := by
  rw [of, if_pos hc]

theorem of_accept {k : Kind} {w rest : Text} (hw : w ≠ []) (hb : ∀ c ∈ w.head?, o.isBlank c = false)
    (h : rule (w ++ rest) = .accept w.length k) :
    of o rule (w ++ rest) = (of o rule rest).cons (.lexeme k w) := by
  obtain ⟨c, w, rfl⟩ := List.exists_cons_of_ne_nil hw
  have hc : o.isBlank c = false := hb c rfl
  rw [List.cons_append] at h ⊢
  rw [of, h]
  simp [hc, Munch.accept]

theorem of_refuse {t : Text} {n : Nat} {f : Fault} (ht : t ≠ [])
    (hb : ∀ c ∈ t.head?, o.isBlank c = false) (h : rule t = .refuse n f) :
    of o rule t = ⟨[], some ⟨n, .fault f⟩⟩ := by
  obtain ⟨c, t, rfl⟩ := List.exists_cons_of_ne_nil ht
  have hc : o.isBlank c = false := hb c rfl
  rw [of, h]
  simp [hc, Munch.refuse]

end Scan

theorem Scans.eq {o : Options} {t : Text} {s : Scan} (h : Scans o t s) :
    Scan.of o (Rule.token o) t = s := by
  induction h with
  | done => rw [Scan.of]
  | blank hc _ ih => rw [Scan.of_blank hc, ih]
  | lexeme hb hw _ ih =>
    rw [Scan.of_accept (Grammar.ne_nil_of_mem hw.mem) hb (Rule.token_append hw), ih]
  | halt hb hx => exact Scan.of_refuse hx.ne_nil hb (Rule.token_of_diagnosis hx)

theorem scans_of (o : Options) (t : Text) : Scans o t (Scan.of o (Rule.token o) t) := by
  -- A lexeme is any part of the text in front, so the induction is on the length.
  induction hn : t.length using Nat.strong_induction_on generalizing t with
  | h n ih =>
    subst hn
    rcases t with _ | ⟨c, t⟩
    · rw [Scan.of]
      exact .done
    by_cases hc : o.isBlank c = true
    · rw [Scan.of_blank hc]
      exact .blank hc (ih t.length (by simp) t rfl)
    have hb : ∀ d ∈ (c :: t).head?, o.isBlank d = false := by simpa using hc
    rcases ends_or_diagnosis o (List.cons_ne_nil c t) with ⟨k, w, rest, he, hw⟩ | ⟨x, hx⟩
    · have hne := Grammar.ne_nil_of_mem hw.mem
      have hhead : w.head? = (c :: t).head? := by
        rw [he, List.head?_append_of_ne_nil _ hne]
      rw [he, Scan.of_accept hne (hhead ▸ hb) (Rule.token_append hw)]
      refine .lexeme (hhead ▸ hb) hw (ih rest.length ?_ rest rfl)
      have hpos := List.length_pos_of_ne_nil hne
      have hlen := congrArg List.length he
      rw [List.length_append] at hlen
      omega
    · rw [Scan.of_refuse (List.cons_ne_nil c t) hb (Rule.token_of_diagnosis hx)]
      exact .halt hb hx

theorem Scans.exists_blank {o : Options} {c : Char} {t : Text} {s : Scan} (h : Scans o (c :: t) s)
    (hc : o.isBlank c = true) : ∃ s', s = s'.cons (.blank c) ∧ Scans o t s' :=
  ⟨_, h.eq.symm.trans (Scan.of_blank hc t), scans_of o t⟩

theorem Scans.exists_lexeme {o : Options} {k : Kind} {w rest : Text} {s : Scan}
    (h : Scans o (w ++ rest) s) (hb : ∀ c ∈ w.head?, o.isBlank c = false) (hw : Ends o k w rest) :
    ∃ s', s = s'.cons (.lexeme k w) ∧ Scans o rest s' :=
  ⟨_, h.eq.symm.trans (Scan.of_accept (Grammar.ne_nil_of_mem hw.mem) hb (Rule.token_append hw)),
    scans_of o rest⟩

namespace Piece

@[simp]
theorem width_nil : width [] = 0 := rfl

@[simp]
theorem width_cons (p : Piece) (ps : List Piece) : width (p :: ps) = p.text.length + width ps := rfl

@[simp]
theorem text_blank (c : Char) : (blank c).text = [c] := rfl

@[simp]
theorem text_lexeme (k : Kind) (w : Text) : (lexeme k w).text = w := rfl

end Piece

theorem Scans.width_eq {o : Options} {t : Text} {s : Scan} (h : Scans o t s) (hs : s.stop = none) :
    Piece.width s.pieces = t.length := by
  induction h with
  | done => rfl
  | blank _ _ ih => simp [Scan.cons, ih hs, Nat.add_comm]
  | lexeme _ _ _ ih => simp [Scan.cons, ih hs]
  | halt => simp at hs

theorem Scans.diagnosis {o : Options} {t : Text} {s : Scan} {stop : Stop} (h : Scans o t s)
    (hs : s.stop = some stop) :
    ∃ x, (∀ c ∈ (t.drop (Piece.width s.pieces)).head?, o.isBlank c = false) ∧
      Diagnosis o (t.drop (Piece.width s.pieces)) x ∧ stop = ⟨x.used, .fault x.fault⟩ := by
  induction h with
  | done => simp at hs
  | blank _ _ ih => simpa [Scan.cons, ← List.drop_drop] using ih hs
  | lexeme _ _ _ ih => simpa [Scan.cons, ← List.drop_drop] using ih hs
  | @halt t x hb hx => exact ⟨x, hb, hx, (Option.some.inj hs).symm⟩

theorem scans_cases (o : Options) (t : Text) : (∃ ps, Scans o t ⟨ps, none⟩) ∨
    ∃ ps x, Scans o t ⟨ps, some ⟨x.used, .fault x.fault⟩⟩ ∧
      Diagnosis o (t.drop (Piece.width ps)) x := by
  have h := scans_of o t
  rcases hs : Scan.of o (Rule.token o) t with ⟨ps, _ | stop⟩
  · exact .inl ⟨ps, hs ▸ h⟩
  · rw [hs] at h
    obtain ⟨x, -, hx, rfl⟩ := h.diagnosis rfl
    exact .inr ⟨ps, x, h, hx⟩

variable {o : Options} {filename t : Text}

theorem lex_of_done {ps : List Piece} (h : Scans o t ⟨ps, none⟩) :
    lex o filename t = .ok (Piece.tokens 0 ps) := by
  rw [lex, lexWith, h.eq]
  rfl

theorem lex_of_halt {ps : List Piece} {x : Finding}
    (h : Scans o t ⟨ps, some ⟨x.used, .fault x.fault⟩⟩)
    (hx : Diagnosis o (t.drop (Piece.width ps)) x) :
    lex o filename t =
      .error (.lexical ⟨x.fault, .of t (Piece.width ps + x.offset : ℕ) filename⟩) := by
  rw [lex, lexWith, h.eq, ← hx.offset_eq]
  rfl

theorem lex_ok_iff {ts : List Token} :
    lex o filename t = .ok ts ↔ ∃ ps, Scans o t ⟨ps, none⟩ ∧ Piece.tokens 0 ps = ts := by
  constructor
  · intro h
    rcases scans_cases o t with ⟨ps, hps⟩ | ⟨ps, x, hps, hx⟩
    · rw [lex_of_done hps] at h
      exact ⟨ps, hps, Except.ok.inj h⟩
    · rw [lex_of_halt hps hx] at h
      cases h
  · rintro ⟨ps, hps, rfl⟩
    exact lex_of_done hps

theorem lex_error_iff {f : Failure} : lex o filename t = .error f ↔
    ∃ ps x, Scans o t ⟨ps, some ⟨x.used, .fault x.fault⟩⟩ ∧
      Diagnosis o (t.drop (Piece.width ps)) x ∧
      f = .lexical ⟨x.fault, .of t (Piece.width ps + x.offset : ℕ) filename⟩ := by
  constructor
  · intro h
    rcases scans_cases o t with ⟨ps, hps⟩ | ⟨ps, x, hps, hx⟩
    · rw [lex_of_done hps] at h
      cases h
    · rw [lex_of_halt hps hx] at h
      exact ⟨ps, x, hps, hx, (Except.error.inj h).symm⟩
  · rintro ⟨ps, x, hps, hx, rfl⟩
    exact lex_of_halt hps hx

end PlcScan
