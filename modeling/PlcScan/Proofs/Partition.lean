import PlcScan.Proofs.Continuation
import PlcScan.Proofs.Pieces

namespace PlcScan

open Grammar Piece

/-- The text from the offset on, as the gaps before the tokens, their lexemes, and what is left. -/
def replay (source : Text) (p : ℤ) : List Token → Text
  | [] => source.slice p source.length
  | u :: us => source.slice p u.offset ++ u.lexeme ++ replay source u.stop us

theorem Text.slice_append {t v rest : Text} {p q : ℕ} (hpq : p ≤ q) (h : t.drop q = v ++ rest) :
    t.slice p (q + v.length : ℕ) = t.slice p q ++ v := by
  have hlen : q + v.length - p = q - p + v.length := by omega
  have hdrop : (t.drop p).drop (q - p) = v ++ rest := by
    rw [List.drop_drop, Nat.add_sub_cancel' hpq, h]
  rw [slice_natCast, slice_natCast, hlen, List.take_add, hdrop, List.take_left]

theorem replay_tokens {source : Text} {p q : ℕ} {ps : List Piece} (hpq : p ≤ q)
    (h : source.drop q = written ps) :
    replay source p (tokens q ps) = source.slice p q ++ written ps := by
  induction ps generalizing p q with
  | nil =>
    have hle : source.length ≤ q := List.drop_eq_nil_iff.mp h
    have hall {n : ℕ} (hn : source.length ≤ n) : source.slice p n = source.drop p := by
      rw [Text.slice_natCast]
      apply List.take_of_length_le
      rw [List.length_drop]
      omega
    change source.slice p source.length = source.slice p q ++ []
    rw [hall le_rfl, hall hle, List.append_nil]
  | cons x ps ih =>
    have hx : source.drop q = x.text ++ written ps := h
    have hnext : source.drop (q + x.text.length) = written ps := by
      rw [← List.drop_drop, hx, List.drop_left]
    have hslice := Text.slice_append hpq hx
    have hwritten : source.slice p q ++ written (x :: ps) =
        source.slice p q ++ x.text ++ written ps := (List.append_assoc ..).symm
    cases x with
    | blank c =>
      rw [hwritten, ← hslice]
      exact ih (by omega) hnext
    | lexeme k w =>
      have hrest := ih le_rfl hnext
      have hempty : source.slice (q + w.length : ℕ) (q + w.length : ℕ) = [] := by
        rw [Text.slice_natCast, Nat.sub_self, List.take_zero]
      rw [text_lexeme, hempty, List.nil_append] at hrest
      rw [hwritten, ← hrest]
      rfl

theorem slice_written (xs : List Piece) (k : Kind) (w : Text) (ys : List Piece) :
    (written (xs ++ lexeme k w :: ys)).slice (width xs) (width xs + w.length : ℕ) = w := by
  have hw : written (xs ++ lexeme k w :: ys) = written xs ++ (w ++ written ys) := by simp [written]
  rw [Text.slice_natCast, hw, ← length_written, List.drop_left, Nat.add_sub_cancel_left,
    List.take_left]

theorem Piece.exists_at {p i : ℕ} {ps : List Piece} (hp : p ≤ i) (hi : i < p + width ps) :
    ∃ xs x ys, ps = xs ++ x :: ys ∧ p + width xs ≤ i ∧ i < p + width xs + x.text.length := by
  induction ps generalizing p with
  | nil => simp only [width_nil] at hi; omega
  | cons x ps ih =>
    rw [width_cons, ← Nat.add_assoc] at hi
    by_cases hx : i < p + x.text.length
    · exact ⟨[], x, ps, rfl, hp, hx⟩
    · obtain ⟨xs, y, ys, rfl, hxs⟩ := ih (Nat.not_lt.mp hx) hi
      refine ⟨x :: xs, y, ys, rfl, ?_⟩
      rwa [width_cons, ← Nat.add_assoc]

theorem blank_of_uncovered {o : Options} {ps : List Piece} {i : ℕ} {c : Char}
    (hvalid : ∀ p ∈ ps, p.Valid o) (hc : (written ps)[i]? = some c)
    (hi : ∀ u ∈ tokens 0 ps, ¬ (u.offset ≤ i ∧ i < u.stop)) : o.isBlank c = true := by
  have hlt : i < 0 + width ps := by
    rw [Nat.zero_add, ← length_written]
    exact (List.getElem?_eq_some_iff.mp hc).1
  obtain ⟨xs, x, ys, rfl, hlo, hhi⟩ := Piece.exists_at (Nat.zero_le i) hlt
  cases x with
  | blank d =>
    have hd := hvalid (.blank d) (List.mem_append_right _ (List.mem_cons_self ..))
    have hw : written (xs ++ blank d :: ys) = written xs ++ d :: written ys := by simp [written]
    have he : i = (written xs).length := by
      rw [length_written]
      simp only [text_blank, List.length_singleton] at hhi
      omega
    rw [hw, he, List.getElem?_append_right le_rfl, Nat.sub_self] at hc
    obtain rfl := Option.some.inj hc
    exact hd
  | lexeme k w =>
    have hu : ⟨k, w, (0 + width xs : ℕ)⟩ ∈ tokens 0 (xs ++ lexeme k w :: ys) :=
      mem_tokens.mpr ⟨xs, k, w, ys, rfl, rfl⟩
    have hcover := hi _ hu
    simp only [text_lexeme] at hhi
    simp only [Token.stop] at hcover
    omega

theorem identifierPart_break (o : Options) :
    o.identifierPart.mem '\n' = false ∧ o.identifierPart.mem '\r' = false := by
  cases h : o.identifierHyphens <;> simp only [Options.identifierPart, h] <;> decide

theorem not_break_of_mem_integer {w : Text} (h : w ∈ integer) : ∀ c ∈ w, c ≠ '\n' ∧ c ≠ '\r' := by
  obtain ⟨s, hs, n, hn, rfl⟩ := h
  refine List.forall_mem_append.mpr ⟨?_, ?_⟩
  · rcases mem_sign.mp hs with rfl | ⟨c, hc, rfl⟩
    · exact List.forall_mem_nil _
    · exact List.forall_mem_singleton.mpr (CharClass.not_break rfl rfl hc)
  · rcases mem_natural.mp hn with rfl | ⟨d, ds, hd, hds, rfl⟩
    · exact List.forall_mem_singleton.mpr (by decide)
    · exact List.forall_mem_cons.mpr
        ⟨CharClass.not_break rfl rfl hd, fun e he => CharClass.not_break rfl rfl (hds e he)⟩

theorem not_break_of_mem_operator {w : Text} (h : w ∈ operator) :
    ∀ c ∈ w, c ≠ '\n' ∧ c ≠ '\r' := by
  rcases mem_operator.mp h with hl | ⟨c, hc, rfl⟩
  · rcases Rule.mem_longOperators.mp hl with rfl | rfl | rfl | rfl <;> simp
  · have hop : Text.isOperator c = true := ((mem_symbols c).mp hc).1
    intro d hd
    obtain rfl := List.mem_singleton.mp hd
    constructor <;> rintro rfl <;> exact absurd hop (by decide)

theorem not_break_of_mem_lexemes {o : Options} {k : Kind} {w : Text} (h : w ∈ lexemes o k) :
    ∀ c ∈ w, c ≠ '\n' ∧ c ≠ '\r' := by
  cases k with
  | identifier =>
    obtain ⟨c, p, hc, hp, rfl⟩ := mem_identifier.mp h
    obtain ⟨hn, hr⟩ := identifierPart_break o
    refine List.forall_mem_cons.mpr ⟨CharClass.not_break rfl rfl hc, fun d hd => ?_⟩
    exact CharClass.not_break hn hr (hp d hd)
  | integer => exact not_break_of_mem_integer h
  | decimal =>
    obtain ⟨i, hi, d, ds, hd, hds, rfl⟩ := mem_decimal.mp h
    have htail : ∀ e ∈ d :: ds, e ≠ '\n' ∧ e ≠ '\r' := List.forall_mem_cons.mpr
      ⟨CharClass.not_break rfl rfl hd, fun e he => CharClass.not_break rfl rfl (hds e he)⟩
    refine List.forall_mem_append.mpr ⟨not_break_of_mem_integer hi, ?_⟩
    exact List.forall_mem_cons.mpr ⟨by decide, htail⟩
  | character =>
    rcases mem_character.mp h with ⟨c, hc, rfl⟩ | ⟨c, hc, rfl⟩
    · simpa using CharClass.not_break rfl rfl hc
    · simpa using CharClass.not_break rfl rfl hc
  | string =>
    obtain ⟨b, hb, rfl⟩ := mem_string.mp h
    exact not_break_string hb (List.forall_mem_singleton.mpr (by decide))
  | operator => exact not_break_of_mem_operator h

theorem lex_partition {o : Options} {filename source : Text} {ts : List Token}
    (h : lex o filename source = .ok ts) :
    (∀ u ∈ ts, u.lexeme ≠ [] ∧ 0 ≤ u.offset ∧ u.stop ≤ source.length ∧
      u.lexeme = source.slice u.offset u.stop ∧ (∀ c ∈ u.lexeme.head?, [c] ∉ o.whitespace) ∧
      ∀ c ∈ u.lexeme, c ≠ '\n' ∧ c ≠ '\r') ∧
    ts.Pairwise (fun u v => u.stop ≤ v.offset) ∧
    (∀ (i : ℕ) (c : Char), source[i]? = some c → (∀ u ∈ ts, ¬ (u.offset ≤ i ∧ i < u.stop)) →
      [c] ∈ o.whitespace) ∧
    replay source 0 ts = source := by
  obtain ⟨ps, hps, rfl⟩ := lex_ok_iff.mp h
  have hwritten : written ps = source := hps.written_eq rfl
  have hwidth : width ps = source.length := hps.width_eq rfl
  refine ⟨fun u hu => ?_, tokens_pairwise 0 ps, fun i c hc hi => ?_, ?_⟩
  · obtain ⟨hw, hb⟩ := mem_lexemes_of_mem h hu
    have hbounds := bounds_of_mem_tokens hu
    refine ⟨ne_nil_of_mem hw, hbounds.1, by omega, ?_, fun c hc => ?_, not_break_of_mem_lexemes hw⟩
    · obtain ⟨xs, k, w, ys, rfl, rfl⟩ := mem_tokens.mp hu
      simpa [Token.stop, hwritten] using (slice_written xs k w ys).symm
    · simp [← isBlank_iff, hb c hc]
  · rw [← hwritten] at hc
    exact isBlank_iff.mp (blank_of_uncovered hps.valid hc hi)
  · have hall : replay source (0 : ℕ) (tokens 0 ps) = _ := replay_tokens le_rfl hwritten.symm
    rw [Text.slice_natCast, hwritten] at hall
    exact hall

theorem lex_partition_odd_blanks :
    lex { whitespace := [[' '], ['b']] } [] "ab b1 ".toList =
      .ok [⟨.identifier, ['a', 'b'], 0⟩, ⟨.integer, ['1'], 4⟩] ∧
    replay "ab b1 ".toList 0 [⟨.identifier, ['a', 'b'], 0⟩, ⟨.integer, ['1'], 4⟩] =
      "ab b1 ".toList := by
  have h : lex { whitespace := [[' '], ['b']] } [] "ab b1 ".toList =
      .ok [⟨.identifier, ['a', 'b'], 0⟩, ⟨.integer, ['1'], 4⟩] := by cbv
  exact ⟨h, (lex_partition h).2.2.2⟩

end PlcScan
