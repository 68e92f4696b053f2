import PlcScan.Proofs.Pieces

namespace PlcScan

open Grammar

def layoutChars : List Char := [' ', '\x08', '\n', '\r', '\t']

/-- The lexemes of the tokens with gaps before, between and behind them. -/
def weave (gap : ℕ → Text) : List Token → Text
  | [] => gap 0
  | u :: us => gap 0 ++ u.lexeme ++ weave (fun i => gap (i + 1)) us

def place (gap : ℕ → Text) (offset : ℕ) : List Token → List Token
  | [] => []
  | u :: us =>
    { u with offset := offset + (gap 0).length } ::
      place (fun i => gap (i + 1)) (offset + (gap 0).length + u.lexeme.length) us

structure Layout (o : Options) (us : List Token) (gap : ℕ → Text) : Prop where
  blank : ∀ i ≤ us.length, ∀ c ∈ gap i, c ∈ layoutChars ∧ [c] ∈ o.whitespace
  inner : ∀ i (h : i + 1 < us.length), gap (i + 1) = [] → us[i].stop = us[i + 1].offset

def layoutPieces (gap : ℕ → Text) : List Token → List Piece
  | [] => (gap 0).map .blank
  | u :: us => (gap 0).map .blank ++ .lexeme u.kind u.lexeme :: layoutPieces (fun i => gap (i + 1)) us

namespace Layout

variable {o : Options} {u : Token} {us : List Token} {gap : ℕ → Text}

theorem tail (h : Layout o (u :: us) gap) : Layout o us (fun i => gap (i + 1)) where
  blank i hi := h.blank (i + 1) (Nat.succ_le_succ hi)
  inner i hi := h.inner (i + 1) (Nat.succ_lt_succ hi)

theorem adjacent (h : Layout o (u :: us) gap) (hg : gap 1 = []) :
    ∀ v ∈ us.head?, v.offset = u.stop := by
  cases us with
  | nil => simp
  | cons v us =>
    intro w hw
    obtain rfl := Option.some.inj hw
    exact (h.inner 0 (by simp) hg).symm

end Layout

theorem mem_eq_false_of_layoutChar (o : Options) {c : Char} (hc : c ∈ layoutChars) :
    o.identifierPart.mem c = false ∧ CharClass.digit.mem c = false ∧
      CharClass.dot.mem c = false := by
  simp only [layoutChars, List.mem_cons, List.not_mem_nil, or_false] at hc
  cases ho : o.identifierHyphens <;> rcases hc with rfl | rfl | rfl | rfl | rfl <;>
    simp only [Options.identifierPart, ho] <;> decide

theorem longOperator_layoutChar {w : Text} {c : Char} (hc : c ∈ layoutChars) :
    Rule.longOperators.contains (w ++ [c]) = false := by
  rw [← Bool.not_eq_true, List.contains_iff_mem]
  intro h
  have hlast : (w ++ [c]).getLast? = some c := by simp
  rcases Rule.mem_longOperators.mp h with h | h | h | h
  all_goals
    rw [h] at hlast
    obtain rfl := Option.some.inj hlast
    exact absurd hc (by decide)

theorem barred_layoutChar {o : Options} {k : Kind} {w : Text} {tests : List (Char → Bool)}
    (h : tests ∈ barred o k w) : ∀ test ∈ tests, ∀ c ∈ layoutChars, test c = false := by
  intro test htest c hc
  obtain ⟨hpart, hdigit, hdot⟩ := mem_eq_false_of_layoutChar o hc
  have hlong := longOperator_layoutChar (w := w) hc
  cases k with
  | identifier =>
    obtain rfl := List.mem_singleton.mp h
    obtain rfl := List.mem_singleton.mp htest
    exact hpart
  | integer =>
    rcases List.mem_cons.mp h with rfl | h
    · rcases List.mem_cons.mp htest with rfl | htest
      · exact hdot
      · obtain rfl := List.mem_singleton.mp htest
        exact hdigit
    · obtain rfl := List.mem_singleton.mp h
      obtain rfl := List.mem_singleton.mp htest
      simp [hdigit]
  | decimal =>
    obtain rfl := List.mem_singleton.mp h
    obtain rfl := List.mem_singleton.mp htest
    exact hdigit
  | character => exact absurd h List.not_mem_nil
  | string => exact absurd h List.not_mem_nil
  | operator =>
    rcases List.mem_cons.mp h with rfl | h
    · obtain rfl := List.mem_singleton.mp htest
      exact hlong
    · obtain rfl := List.mem_singleton.mp h
      obtain rfl := List.mem_singleton.mp htest
      simp [hdigit]

theorem eq_nil_of_starts_layoutChar {tests : List (Char → Bool)} {c : Char} {t : Text}
    (htests : ∀ test ∈ tests, ∀ c ∈ layoutChars, test c = false) (hc : c ∈ layoutChars)
    (h : Text.starts tests (c :: t) = true) : tests = [] := by
  cases tests with
  | nil => rfl
  | cons test tests => simp [Text.starts, htests test (by simp) c hc] at h

theorem eq_nil_of_starts_weave {o : Options} {us : List Token} {gap : ℕ → Text}
    {tests : List (Char → Bool)} (hl : Layout o us gap) (hg : gap 0 ≠ [])
    (htests : ∀ test ∈ tests, ∀ c ∈ layoutChars, test c = false)
    (hstarts : Text.starts tests (weave gap us) = true) : tests = [] := by
  obtain ⟨c, g, hcg⟩ := List.exists_cons_of_ne_nil hg
  have hc := (hl.blank 0 (Nat.zero_le _) c (by simp [hcg])).1
  have hw : ∃ v, weave gap us = c :: v := by
    cases us <;> simp [weave, hcg]
  obtain ⟨v, hv⟩ := hw
  rw [hv] at hstarts
  exact eq_nil_of_starts_layoutChar htests hc hstarts

theorem starts_of_weave {o : Options} {t : Text} {s : Scan} (h : Scans o t s) (hs : s.stop = none)
    {p : ℕ} {gap : ℕ → Text} (hl : Layout o (Piece.tokens p s.pieces) gap)
    (hfirst : gap 0 = [] → ∀ u ∈ (Piece.tokens p s.pieces).head?, u.offset = p)
    {tests : List (Char → Bool)} (htests : ∀ test ∈ tests, ∀ c ∈ layoutChars, test c = false)
    (hstarts : Text.starts tests (weave gap (Piece.tokens p s.pieces)) = true) :
    Text.starts tests t = true := by
  induction h generalizing p gap tests with
  | done =>
    by_cases hg : gap 0 = []
    · simpa [Piece.tokens, weave, hg] using hstarts
    · rw [eq_nil_of_starts_weave hl hg htests hstarts]
      rfl
  | @blank c t s hc h ih =>
    by_cases hg : gap 0 = []
    -- The blank was a gap, so no token comes behind it.
    · have hnone : Piece.tokens (p + 1) s.pieces = [] := by
        by_contra hne
        obtain ⟨u, us, hu⟩ := List.exists_cons_of_ne_nil hne
        have hle := (Piece.bounds_of_mem_tokens (hu ▸ List.mem_cons_self ..)).1
        have heq := hfirst hg u (by simp [Scan.cons, Piece.tokens, hu])
        push_cast at hle
        omega
      simp only [Scan.cons, Piece.tokens, hnone, weave, hg] at hstarts
      cases tests with
      | nil => rfl
      | cons test tests => simp [Text.starts] at hstarts
    · rw [eq_nil_of_starts_weave hl hg htests hstarts]
      rfl
  | @lexeme k w rest s hb hw h ih =>
    by_cases hg : gap 0 = []
    · simp only [Scan.cons, Piece.tokens, weave, hg, List.nil_append, Text.starts_append,
        Bool.and_eq_true] at hstarts ⊢
      refine ⟨hstarts.1, ih hs hl.tail ?_ ?_ hstarts.2⟩
      · intro hg' u hu
        rw [hl.adjacent hg' u hu]
        simp [Token.stop]
      · exact fun test htest => htests test (List.mem_of_mem_drop htest)
    · rw [eq_nil_of_starts_weave hl hg htests hstarts]
      rfl
  | halt => cases hs

theorem Ends.of_layout {o : Options} {k : Kind} {w rest : Text} {s : Scan} (hw : Ends o k w rest)
    (h : Scans o rest s) (hs : s.stop = none) {p : ℕ} {gap : ℕ → Text}
    (hl : Layout o (Piece.tokens p s.pieces) gap)
    (hfirst : gap 0 = [] → ∀ u ∈ (Piece.tokens p s.pieces).head?, u.offset = p) :
    Ends o k w (weave gap (Piece.tokens p s.pieces)) := by
  apply hw.mono
  intro tests htests hstarts
  exact starts_of_weave h hs hl hfirst (barred_layoutChar htests) hstarts

theorem Scans.blanks {o : Options} {t : Text} {s : Scan} (h : Scans o t s) {g : Text}
    (hg : ∀ c ∈ g, o.isBlank c = true) : Scans o (g ++ t) ⟨g.map .blank ++ s.pieces, s.stop⟩ := by
  induction g with
  | nil => exact h
  | cons c g ih =>
    obtain ⟨hc, hg⟩ := List.forall_mem_cons.mp hg
    exact .blank hc (ih hg)

theorem Layout.isBlank {o : Options} {us : List Token} {gap : ℕ → Text} (h : Layout o us gap) :
    ∀ c ∈ gap 0, o.isBlank c = true :=
  fun c hc => isBlank_iff.mpr (h.blank 0 (Nat.zero_le _) c hc).2

theorem scans_weave {o : Options} {t : Text} {s : Scan} (h : Scans o t s) (hs : s.stop = none)
    {p : ℕ} {gap : ℕ → Text} (hl : Layout o (Piece.tokens p s.pieces) gap) :
    Scans o (weave gap (Piece.tokens p s.pieces))
      ⟨layoutPieces gap (Piece.tokens p s.pieces), none⟩ := by
  induction h generalizing p gap with
  | done =>
    have := Scans.blanks .done hl.isBlank
    simpa [Piece.tokens, weave, layoutPieces] using this
  | blank _ _ ih => exact ih hs hl
  | @lexeme k w rest s hb hw h ih =>
    have hfirst : gap 1 = [] →
        ∀ u ∈ (Piece.tokens (p + w.length) s.pieces).head?, u.offset = (p + w.length : ℕ) := by
      intro hg u hu
      rw [hl.adjacent hg u hu]
      simp [Token.stop]
    have hends := hw.of_layout h hs hl.tail hfirst
    have := Scans.blanks (.lexeme hb hends (ih hs hl.tail)) hl.isBlank
    simpa [Scan.cons, Piece.tokens, weave, layoutPieces] using this
  | halt => cases hs

theorem tokens_layoutPieces (p : ℕ) (gap : ℕ → Text) (us : List Token) :
    Piece.tokens p (layoutPieces gap us) = place gap p us := by
  induction us generalizing p gap with
  | nil => exact Piece.tokens_blanks p (gap 0)
  | cons u us ih =>
    rw [layoutPieces, Piece.tokens_append, Piece.tokens_blanks, Piece.width_blanks,
      List.nil_append, Piece.tokens, ih]
    rfl

theorem lex_weave {o : Options} {filename source : Text} {ts : List Token} {gap : ℕ → Text}
    (h : lex o filename source = .ok ts) (hl : Layout o ts gap) :
    lex o filename (weave gap ts) = .ok (place gap 0 ts) := by
  obtain ⟨ps, hps, rfl⟩ := lex_ok_iff.mp h
  rw [lex_of_done (scans_weave hps rfl hl), tokens_layoutPieces]

theorem lex_weave_signs :
    lex {} [] "x= =-1".toList = .ok [⟨.identifier, ['x'], 0⟩, ⟨.operator, ['='], 1⟩,
      ⟨.operator, ['='], 3⟩, ⟨.integer, ['-', '1'], 4⟩] ∧
    lex {} [] "\nx =\t=-1 ".toList = .ok [⟨.identifier, ['x'], 1⟩, ⟨.operator, ['='], 3⟩,
      ⟨.operator, ['='], 5⟩, ⟨.integer, ['-', '1'], 6⟩] := by
  have h : lex {} [] "x= =-1".toList = .ok [⟨.identifier, ['x'], 0⟩, ⟨.operator, ['='], 1⟩,
      ⟨.operator, ['='], 3⟩, ⟨.integer, ['-', '1'], 4⟩] := by cbv
  have hl : Layout {} [⟨.identifier, ['x'], 0⟩, ⟨.operator, ['='], 1⟩, ⟨.operator, ['='], 3⟩,
      ⟨.integer, ['-', '1'], 4⟩] (fun i => [['\n'], [' '], ['\t'], [], [' ']].getD i []) := by
    constructor
    · intro i hi
      have h5 : i < 5 := Nat.lt_succ_of_le hi
      interval_cases i <;> simp [layoutChars]
    · intro i hi
      have h3 : i < 3 := Nat.lt_of_succ_lt_succ hi
      interval_cases i <;> simp [Token.stop]
  exact ⟨h, lex_weave h hl⟩

end PlcScan
