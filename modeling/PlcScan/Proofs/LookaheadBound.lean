import PlcScan.Proofs.Continuation
import PlcScan.Proofs.Pieces

namespace PlcScan

open Grammar Piece

def Token.settled (n : ℕ) (u : Token) : Bool := u.stop + 2 ≤ n

theorem Token.settled_iff {n : ℕ} {u : Token} : u.settled n = true ↔ u.stop + 2 ≤ n :=
  decide_eq_true_iff

variable {o : Options}

theorem length_le_two_of_barred {k : Kind} {w : Text} {tests : List (Char → Bool)}
    (h : tests ∈ barred o k w) : tests.length ≤ 2 := by
  rcases barred_cases h with ⟨p, rfl⟩ | rfl <;> simp

theorem Text.starts_take (tests : List (Char → Bool)) (t : Text) {n : ℕ} (hn : tests.length ≤ n) :
    Text.starts tests (t.take n) = t.starts tests := by
  induction tests generalizing t n with
  | nil => rfl
  | cons test tests ih =>
    obtain ⟨m, rfl⟩ := Nat.exists_eq_add_of_le' hn
    cases t with
    | nil => rfl
    | cons c t =>
      rw [List.length_cons, ← Nat.add_assoc, List.take_succ_cons, starts, starts, ih]
      exact Nat.le_add_left ..

theorem Ends.of_take_eq {k : Kind} {w rest t : Text} {n : ℕ} (h : Ends o k w rest) (hn : 2 ≤ n)
    (ht : rest.take n = t.take n) : Ends o k w t := by
  apply h.mono
  intro tests htests hs
  have hlen := (length_le_two_of_barred htests).trans hn
  rwa [← Text.starts_take tests rest hlen, ht, Text.starts_take tests t hlen]

theorem append_of_take_eq {w rest t : Text} {n : ℕ} (hn : w.length ≤ n)
    (h : (w ++ rest).take n = t.take n) :
    ∃ rest', t = w ++ rest' ∧ rest.take (n - w.length) = rest'.take (n - w.length) := by
  have hw : w <+: t.take n := by
    rw [← h, List.take_append, List.take_of_length_le hn]
    exact List.prefix_append ..
  obtain ⟨rest', rfl⟩ := hw.trans (List.take_prefix n t)
  refine ⟨rest', rfl, ?_⟩
  rwa [List.take_append, List.take_append, List.take_of_length_le hn, List.append_cancel_left_eq]
    at h

theorem filter_settled_eq_nil {p n : ℕ} (hn : n < p + 2) (ps : List Piece) :
    (tokens p ps).filter (Token.settled n) = [] := by
  apply List.filter_eq_nil_iff.mpr
  intro u hu
  have hp := (bounds_of_mem_tokens hu).1
  simp only [Token.settled_iff, Token.stop]
  omega

theorem Scans.settled_prefix {t t' : Text} {s s' : Scan} (h : Scans o t s) (h' : Scans o t' s')
    (p : ℕ) {n : ℕ} (ht : t.take n = t'.take n) :
    (tokens p s.pieces).filter (Token.settled (p + n)) <+: tokens p s'.pieces := by
  induction h generalizing t' s' p n with
  | done => exact List.nil_prefix
  | @blank c t s hc h ih =>
    cases n with
    | zero =>
      rw [filter_settled_eq_nil (by omega)]
      exact List.nil_prefix
    | succ n =>
      obtain ⟨rest', rfl, hrest⟩ := append_of_take_eq (w := [c]) (by simp) ht
      obtain ⟨s', rfl, hs'⟩ := h'.exists_blank hc
      have hsettled := ih hs' (p + 1) hrest
      rwa [List.length_singleton, Nat.add_sub_cancel, Nat.add_right_comm] at hsettled
  | @lexeme k w rest s hb hw h ih =>
    by_cases hn : w.length + 2 ≤ n
    -- The two characters behind the lexeme are the same, so it ends here in the other text too.
    · obtain ⟨rest', rfl, hrest⟩ := append_of_take_eq (by omega) ht
      obtain ⟨s', rfl, hs'⟩ := h'.exists_lexeme hb (hw.of_take_eq (by omega) hrest)
      have hsettled := ih hs' (p + w.length) hrest
      have hsum : p + w.length + (n - w.length) = p + n := by omega
      have hfirst : Token.settled (p + n) ⟨k, w, p⟩ = true := by
        simp only [Token.settled_iff, Token.stop]
        omega
      rw [hsum] at hsettled
      simp only [Scan.cons, tokens]
      rw [List.filter_cons_of_pos hfirst]
      exact (List.prefix_cons_inj _).mpr hsettled
    · have hfirst : ¬ Token.settled (p + n) ⟨k, w, p⟩ = true := by
        simp only [Token.settled_iff, Token.stop]
        omega
      simp only [Scan.cons, tokens]
      rw [List.filter_cons_of_neg hfirst, filter_settled_eq_nil (by omega)]
      exact List.nil_prefix
  | halt => exact List.nil_prefix

theorem filter_prefix_filter {α : Type} {p : α → Bool} {xs ys : List α} (h : xs.filter p <+: ys) :
    xs.filter p <+: ys.filter p := by
  have hp := h.filter p
  simpa only [List.filter_filter, Bool.and_self] using hp

theorem lex_settled {filename filename' s t : Text} {us vs : List Token} {n : ℕ}
    (hst : s.take n = t.take n) (hs : lex o filename s = .ok us)
    (ht : lex o filename' t = .ok vs) :
    us.filter (Token.settled n) = vs.filter (Token.settled n) := by
  obtain ⟨ps, hps, rfl⟩ := lex_ok_iff.mp hs
  obtain ⟨qs, hqs, rfl⟩ := lex_ok_iff.mp ht
  have hle := filter_prefix_filter (hps.settled_prefix hqs 0 hst)
  have hge := filter_prefix_filter (hqs.settled_prefix hps 0 hst.symm)
  rw [Nat.zero_add] at hle hge
  exact hle.eq_of_length_le hge.length_le

theorem lex_settled_fraction :
    lex {} [] "ab +1.5".toList = .ok [⟨.identifier, ['a', 'b'], 0⟩, ⟨.decimal, "+1.5".toList, 3⟩] ∧
    lex {} [] "ab +1.x".toList = .ok [⟨.identifier, ['a', 'b'], 0⟩, ⟨.integer, ['+', '1'], 3⟩,
      ⟨.operator, ['.'], 5⟩, ⟨.identifier, ['x'], 6⟩] ∧
    [⟨.identifier, ['a', 'b'], 0⟩, ⟨.decimal, "+1.5".toList, 3⟩].filter (Token.settled 6) =
      [⟨.identifier, ['a', 'b'], 0⟩, ⟨.integer, ['+', '1'], 3⟩, ⟨.operator, ['.'], 5⟩,
        ⟨.identifier, ['x'], 6⟩].filter (Token.settled 6) := by
  have hs : lex {} [] "ab +1.5".toList =
      .ok [⟨.identifier, ['a', 'b'], 0⟩, ⟨.decimal, "+1.5".toList, 3⟩] := by cbv
  have ht : lex {} [] "ab +1.x".toList = .ok [⟨.identifier, ['a', 'b'], 0⟩,
      ⟨.integer, ['+', '1'], 3⟩, ⟨.operator, ['.'], 5⟩, ⟨.identifier, ['x'], 6⟩] := by cbv
  have hst : "ab +1.5".toList.take 6 = "ab +1.x".toList.take 6 := by decide
  exact ⟨hs, ht, lex_settled hst hs ht⟩

end PlcScan
