import PlcScan.Proofs.Pieces

namespace PlcScan

open Piece

def Boundary (source : Text) (ts : List Token) (b : ℕ) : Prop :=
  b ≤ source.length ∧ ∀ u ∈ ts, ¬ (u.offset < b ∧ b < u.stop)

def Token.within (a b : ℕ) (u : Token) : Bool := a ≤ u.offset && u.stop ≤ b

variable {o : Options} {filename source : Text} {ps : List Piece}

theorem Boundary.split {b : ℕ} (hps : Scans o source ⟨ps, none⟩)
    (hb : Boundary source (tokens 0 ps) b) : ∃ xs ys, ps = xs ++ ys ∧ width xs = b := by
  have hwidth : width ps = source.length := hps.width_eq rfl
  obtain ⟨xs, ys, he, hxs⟩ := exists_split (Nat.zero_le b) (by have := hb.1; omega) hb.2
  exact ⟨xs, ys, he, by omega⟩

theorem Boundary.split_two {a b : ℕ} (hps : Scans o source ⟨ps, none⟩) (hab : a ≤ b)
    (ha : Boundary source (tokens 0 ps) a) (hb : Boundary source (tokens 0 ps) b) :
    ∃ xs ys zs, ps = xs ++ (ys ++ zs) ∧ width xs = a ∧ width ys = b - a := by
  obtain ⟨xs, rs, rfl, rfl⟩ := ha.split hps
  have hrs : ∀ u ∈ tokens (width xs) rs, ¬ (u.offset < b ∧ b < u.stop) := by
    intro u hu
    apply hb.2
    rw [tokens_append, Nat.zero_add]
    exact List.mem_append_right _ hu
  have hwidth : width xs + width rs = source.length := by
    rw [← width_append]
    exact hps.width_eq rfl
  obtain ⟨ys, zs, rfl, hys⟩ := exists_split hab (by have := hb.1; omega) hrs
  exact ⟨xs, ys, zs, rfl, rfl, by omega⟩

theorem offset_lt_stop {p : ℕ} {u : Token} (hvalid : ∀ x ∈ ps, x.Valid o) (hu : u ∈ tokens p ps) :
    u.offset < u.stop := by
  obtain ⟨xs, k, w, ys, rfl, rfl⟩ := mem_tokens.mp hu
  have hw := hvalid (.lexeme k w) (List.mem_append_right _ (List.mem_cons_self ..))
  have hpos := List.length_pos_of_ne_nil (Grammar.ne_nil_of_mem hw.1)
  simp only [Token.stop]
  omega

theorem filter_within {a b : ℕ} {xs ys zs : List Piece}
    (hvalid : ∀ x ∈ xs ++ (ys ++ zs), x.Valid o) (ha : width xs = a) (hb : width ys = b - a)
    (hab : a ≤ b) : (tokens 0 (xs ++ (ys ++ zs))).filter (Token.within a b) = tokens a ys := by
  obtain ⟨hxs, hrest⟩ := List.forall_mem_append.mp hvalid
  obtain ⟨hys, hzs⟩ := List.forall_mem_append.mp hrest
  have hbefore : (tokens 0 xs).filter (Token.within a b) = [] := by
    apply List.filter_eq_nil_iff.mpr
    intro u hu
    have hle := (bounds_of_mem_tokens hu).2
    have hlt := offset_lt_stop hxs hu
    simp only [Token.within, Bool.and_eq_true, decide_eq_true_eq]
    omega
  have hwithin : (tokens a ys).filter (Token.within a b) = tokens a ys := by
    apply List.filter_eq_self.mpr
    intro u hu
    have hbounds := bounds_of_mem_tokens hu
    simp only [Token.within, Bool.and_eq_true, decide_eq_true_eq]
    omega
  have hafter : (tokens b zs).filter (Token.within a b) = [] := by
    apply List.filter_eq_nil_iff.mpr
    intro u hu
    have hle := (bounds_of_mem_tokens hu).1
    have hlt := offset_lt_stop hzs hu
    simp only [Token.within, Bool.and_eq_true, decide_eq_true_eq]
    omega
  have hsum : a + width ys = b := by omega
  rw [tokens_append, tokens_append, Nat.zero_add, ha, hsum, List.filter_append, List.filter_append,
    hbefore, hwithin, hafter, List.nil_append, List.append_nil]

theorem shift_tokens (a : ℕ) (ys : List Piece) :
    (tokens a ys).map (Token.shift (-a)) = tokens 0 ys := by
  have h := tokens_add a 0 ys
  rw [Nat.add_zero] at h
  rw [h, List.map_map]
  have hid : Token.shift (-a) ∘ Token.shift a = id := by
    funext u
    simp [Token.shift]
  rw [hid, List.map_id]

theorem Scans.slice {xs ys zs : List Piece} (h : Scans o source ⟨xs ++ (ys ++ zs), none⟩) :
    Scans o (source.slice (width xs) (width xs + width ys : ℕ)) ⟨ys, none⟩ := by
  rw [Text.slice_natCast, Nat.add_sub_cancel_left]
  exact (h.drop rfl).take rfl

theorem lex_slice {ts : List Token} (h : lex o filename source = .ok ts) :
    (∀ a b : ℕ, a ≤ b → Boundary source ts a → Boundary source ts b →
      lex o filename (source.slice a b) =
        .ok ((ts.filter (Token.within a b)).map (Token.shift (-a)))) ∧
    (∀ u ∈ ts, lex o filename u.lexeme = .ok [⟨u.kind, u.lexeme, 0⟩]) ∧
    ∀ b, Boundary source ts b → ∃ us vs, lex o filename (source.take b) = .ok us ∧
      lex o filename (source.drop b) = .ok vs ∧ ts = us ++ vs.map (Token.shift b) := by
  refine ⟨fun a b hab ha hb => ?_, fun u hu => ?_, fun b hb => ?_⟩
  · obtain ⟨ps, hps, rfl⟩ := lex_ok_iff.mp h
    obtain ⟨xs, ys, zs, rfl, hxs, hys⟩ := Boundary.split_two hps hab ha hb
    have hslice := hps.slice
    rw [hxs, hys, Nat.add_sub_cancel' hab] at hslice
    rw [lex_of_done hslice, filter_within hps.valid hxs hys hab, shift_tokens]
  · obtain ⟨hw, hb⟩ := mem_lexemes_of_mem h hu
    exact lex_of_mem_lexemes hw hb filename
  · obtain ⟨ps, hps, rfl⟩ := lex_ok_iff.mp h
    obtain ⟨xs, ys, rfl, rfl⟩ := hb.split hps
    refine ⟨_, _, lex_of_done (hps.take rfl), lex_of_done (hps.drop rfl), ?_⟩
    rw [tokens_append, Nat.zero_add, ← tokens_add, Nat.add_zero]

theorem lex_slice_in_blanks :
    lex {} [] "x=-1  0.5".toList = .ok [⟨.identifier, ['x'], 0⟩, ⟨.operator, ['='], 1⟩,
      ⟨.integer, ['-', '1'], 2⟩, ⟨.decimal, ['0', '.', '5'], 6⟩] ∧
    lex {} [] (Text.slice "x=-1  0.5".toList 1 5) =
      .ok [⟨.operator, ['='], 0⟩, ⟨.integer, ['-', '1'], 1⟩] := by
  have h : lex {} [] "x=-1  0.5".toList = .ok [⟨.identifier, ['x'], 0⟩, ⟨.operator, ['='], 1⟩,
      ⟨.integer, ['-', '1'], 2⟩, ⟨.decimal, ['0', '.', '5'], 6⟩] := by cbv
  have hboundary : ∀ b ∈ [1, 5], Boundary "x=-1  0.5".toList [⟨.identifier, ['x'], 0⟩,
      ⟨.operator, ['='], 1⟩, ⟨.integer, ['-', '1'], 2⟩, ⟨.decimal, ['0', '.', '5'], 6⟩] b := by
    simp [Boundary, Token.stop]
  exact ⟨h, (lex_slice h).1 1 5 (by decide) (hboundary 1 (by simp)) (hboundary 5 (by simp))⟩

end PlcScan
