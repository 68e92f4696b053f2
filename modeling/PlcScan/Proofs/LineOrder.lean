import PlcScan.Proofs.LineColumns

namespace PlcScan

namespace Text

def breakEnds (t : Text) : Finset ℕ :=
  {i ∈ Finset.range t.length | t[i]? = some '\n' ∨ t[i]? = some '\r' ∧ t[i + 1]? ≠ some '\n'}

theorem mem_breakEnds {t : Text} {i : ℕ} :
    i ∈ t.breakEnds ↔ t[i]? = some '\n' ∨ t[i]? = some '\r' ∧ t[i + 1]? ≠ some '\n' := by
  rw [breakEnds, Finset.mem_filter, Finset.mem_range, and_iff_right_iff_imp]
  rintro (h | ⟨h, -⟩)
  · exact (List.getElem?_eq_some_iff.mp h).1
  · exact (List.getElem?_eq_some_iff.mp h).1

theorem lt_of_mem_breakEnds {t : Text} {i : ℕ} (h : i ∈ t.breakEnds) : i < t.length :=
  Finset.mem_range.mp (Finset.mem_of_mem_filter i h)

theorem breakEnds_concat_other {c : Char} (hr : c ≠ '\r') (hn : c ≠ '\n') (t : Text) :
    (t ++ [c]).breakEnds = t.breakEnds := by
  ext i
  simp only [mem_breakEnds]
  grind

theorem breakEnds_concat_break {c : Char} {t : Text} (hc : c = '\r' ∨ c = '\n')
    (h : ¬ (c = '\n' ∧ t.getLast? = some '\r')) :
    (t ++ [c]).breakEnds = insert t.length t.breakEnds := by
  ext i
  simp only [mem_breakEnds, Finset.mem_insert]
  rw [List.getLast?_eq_getElem?] at h
  grind

theorem breakEnds_concat_pair (t : Text) :
    (t ++ ['\r'] ++ ['\n']).breakEnds = insert (t.length + 1) t.breakEnds := by
  ext i
  simp only [mem_breakEnds, Finset.mem_insert]
  grind

theorem card_insert_breakEnds {t : Text} {n : ℕ} (hn : t.length ≤ n) :
    (insert n t.breakEnds).card = t.breakEnds.card + 1 := by
  apply Finset.card_insert_of_notMem
  intro h
  exact absurd (lt_of_mem_breakEnds h) (Nat.not_lt.mpr hn)

theorem sup_insert_breakEnds {t : Text} {n : ℕ} (hn : t.length ≤ n) :
    (insert n t.breakEnds).sup (· + 1) = n + 1 := by
  rw [Finset.sup_insert]
  apply sup_eq_left.mpr
  apply Finset.sup_le
  intro i hi
  have hlt := lt_of_mem_breakEnds hi
  omega

theorem lineAtEnd_eq (t : Text) :
    lineAtEnd t 0 1 0 = (1 + t.breakEnds.card, t.breakEnds.sup (· + 1)) := by
  induction t using List.reverseRecOn with
  | nil => rfl
  | append_singleton t c ih =>
    rw [lineAtEnd_concat, Nat.zero_add]
    by_cases hc : c = '\r' ∨ c = '\n'
    · rw [if_pos hc]
      by_cases hpair : c = '\n' ∧ t.getLast? = some '\r'
      · obtain ⟨rfl, hlast⟩ := hpair
        obtain ⟨u, rfl⟩ := List.getLast?_eq_some_iff.mp hlast
        have hreturn : breakEnds (u ++ ['\r']) = insert u.length (breakEnds u) :=
          breakEnds_concat_break (.inl rfl) (by simp)
        rw [if_pos ⟨rfl, hlast⟩, ih, hreturn, breakEnds_concat_pair, card_insert_breakEnds le_rfl,
          card_insert_breakEnds (Nat.le_succ _), sup_insert_breakEnds (Nat.le_succ _),
          List.length_append, List.length_singleton]
      · rw [if_neg hpair, ih, breakEnds_concat_break hc hpair, card_insert_breakEnds le_rfl,
          sup_insert_breakEnds le_rfl, Nat.add_assoc]
    · rw [if_neg hc, ih]
      rw [not_or] at hc
      rw [breakEnds_concat_other hc.1 hc.2]

end Text

namespace Location

def before (s : Text) (o : ℤ) : Text := s.take (max 0 (min o s.length)).toNat

def InsideBreak (s : Text) (o : ℤ) : Prop :=
  0 < o ∧ s[(o - 1).toNat]? = some '\r' ∧ s[o.toNat]? = some '\n'

instance (s : Text) (o : ℤ) : Decidable (InsideBreak s o) := inferInstanceAs (Decidable (_ ∧ _ ∧ _))

theorem before_eq (s : Text) (o : ℤ) : before s o = s.take o.toNat := by
  rw [before, List.take_eq_take_iff]
  omega

theorem lineColumn_eq (s : Text) (o : ℤ) (f : Text) : (of s o f).lineColumn =
    ((Text.lineAtEnd (before s o) 0 1 0).1, o - (Text.lineAtEnd (before s o) 0 1 0).2 + 1) := by
  rw [before_eq]
  rfl

theorem before_concat {s : Text} {o : ℤ} {c : Char} (ho : 0 ≤ o) (hc : s[o.toNat]? = some c) :
    ((before s o).length : ℤ) = o ∧ before s (o + 1) = before s o ++ [c] := by
  obtain ⟨hlt, rfl⟩ := List.getElem?_eq_some_iff.mp hc
  have hnat : (o + 1).toNat = o.toNat + 1 := by omega
  rw [before_eq, before_eq, List.length_take_of_le hlt.le, hnat,
    List.take_succ_eq_append_getElem hlt]
  exact ⟨Int.toNat_of_nonneg ho, rfl⟩

theorem before_succ (s : Text) (o : ℤ) :
    before s (o + 1) = before s o ∨ 0 ≤ o ∧ ∃ c, s[o.toNat]? = some c := by
  rw [before_eq, before_eq]
  by_cases ho : 0 ≤ o ∧ o.toNat < s.length
  · exact .inr ⟨ho.1, _, List.getElem?_eq_getElem ho.2⟩
  · left
    rw [List.take_eq_take_iff]
    omega

theorem insideBreak_iff {s : Text} {o : ℤ} :
    InsideBreak s o ↔ (before s o).getLast? = some '\r' ∧ s[o.toNat]? = some '\n' := by
  rw [before_eq, InsideBreak, ← and_assoc]
  apply and_congr_left
  intro ho
  have hlt := (List.getElem?_eq_some_iff.mp ho).1
  by_cases hpos : 0 < o
  · have hnat : (o - 1).toNat = o.toNat - 1 := by omega
    rw [and_iff_right hpos, hnat, List.getLast?_eq_getElem?, List.length_take_of_le hlt.le,
      List.getElem?_take_of_lt (by omega)]
  · have hnat : o.toNat = 0 := by omega
    rw [hnat]
    simp [hpos]

variable {s : Text} {o : ℤ}

theorem lineColumn_succ_lt (h : ¬ InsideBreak s o) (f : Text) :
    toLex (of s o f).lineColumn < toLex (of s (o + 1) f).lineColumn := by
  rw [lineColumn_eq, lineColumn_eq, Prod.Lex.toLex_lt_toLex]
  dsimp only
  rcases before_succ s o with he | ⟨ho, c, hc⟩
  · right
    rw [he]
    exact ⟨rfl, by omega⟩
  · obtain ⟨hlength, he⟩ := before_concat ho hc
    rw [he, Text.lineAtEnd_concat]
    by_cases hbreak : c = '\r' ∨ c = '\n'
    -- A break makes the line greater, and any other character the column.
    · rw [if_pos hbreak]
      by_cases hpair : c = '\n' ∧ (before s o).getLast? = some '\r'
      · obtain ⟨rfl, hlast⟩ := hpair
        exact absurd (insideBreak_iff.mpr ⟨hlast, hc⟩) h
      · left
        rw [if_neg hpair]
        exact Nat.lt_succ_self _
    · right
      rw [if_neg hbreak]
      exact ⟨rfl, by omega⟩

theorem lineColumn_succ_eq (h : InsideBreak s o) (f : Text) :
    (of s (o + 1) f).lineColumn = (of s o f).lineColumn := by
  obtain ⟨hlast, hfeed⟩ := insideBreak_iff.mp h
  obtain ⟨hlength, he⟩ := before_concat h.1.le hfeed
  have hstart : (Text.lineAtEnd (before s o) 0 1 0).2 = (before s o).length := by
    obtain ⟨u, hu⟩ := List.getLast?_eq_some_iff.mp hlast
    rw [hu, Text.lineAtEnd_concat, if_pos (.inl rfl), List.length_append, Nat.zero_add]
    rfl
  rw [lineColumn_eq, lineColumn_eq, he, Text.lineAtEnd_concat, if_pos (.inr rfl),
    if_pos ⟨rfl, hlast⟩, hstart, Prod.mk.injEq]
  exact ⟨rfl, by omega⟩

theorem lineColumn_mono (s f : Text) : Monotone fun o => toLex (of s o f).lineColumn := by
  apply monotone_int_of_le_succ
  intro o
  by_cases h : InsideBreak s o
  · exact (congrArg toLex (lineColumn_succ_eq h f)).ge
  · exact (lineColumn_succ_lt h f).le

theorem not_insideBreak_succ (h : InsideBreak s o) : ¬ InsideBreak s (o + 1) := by
  rintro ⟨-, hreturn, -⟩
  rw [Int.add_sub_cancel, h.2.2] at hreturn
  exact absurd hreturn (by decide)

theorem lineColumn_lt {a b : ℤ} (hab : a < b) (h : ¬ (b = a + 1 ∧ InsideBreak s a)) (f : Text) :
    toLex (of s a f).lineColumn < toLex (of s b f).lineColumn := by
  by_cases ha : InsideBreak s a
  · -- The next place shares the line and the column, and lies inside of no break.
    have hb : a + 1 + 1 ≤ b := by
      have hne : b ≠ a + 1 := fun he => h ⟨he, ha⟩
      omega
    rw [← lineColumn_succ_eq ha f]
    exact (lineColumn_succ_lt (not_insideBreak_succ ha) f).trans_le (lineColumn_mono s f hb)
  · exact (lineColumn_succ_lt ha f).trans_le (lineColumn_mono s f hab)

theorem lineColumn_order (s f : Text) :
    (∀ o, (of s o f).line = 1 + (before s o).breakEnds.card ∧
      (of s o f).column = o + 1 - ((before s o).breakEnds.sup (· + 1) : ℕ)) ∧
    (∀ a b, a < b → if b = a + 1 ∧ InsideBreak s a
      then (of s b f).lineColumn = (of s a f).lineColumn
      else toLex (of s a f).lineColumn < toLex (of s b f).lineColumn) ∧
    Set.InjOn (fun o => (of s o f).lineColumn) {o | ¬ InsideBreak s o} := by
  refine ⟨?_, ?_, ?_⟩
  · intro o
    have h := lineColumn_eq s o f
    rw [Text.lineAtEnd_eq, lineColumn, Prod.mk.injEq] at h
    refine ⟨h.1, h.2.trans ?_⟩
    omega
  · intro a b hab
    split_ifs with h
    · obtain ⟨rfl, ha⟩ := h
      exact lineColumn_succ_eq ha f
    · exact lineColumn_lt hab h f
  · intro a ha b hb he
    have hlt {a b : ℤ} (ha : ¬ InsideBreak s a) (hab : a < b) :
        (of s a f).lineColumn ≠ (of s b f).lineColumn := by
      intro he
      have h := lineColumn_lt hab (fun h => ha h.2) f
      rw [he] at h
      exact lt_irrefl _ h
    rcases lt_trichotomy a b with h | h | h
    · exact absurd he (hlt ha h)
    · exact h
    · exact absurd he.symm (hlt hb h)

theorem lineColumn_order_pair :
    (of "\r\r\n\n".toList 2 []).lineColumn = (3, 1) ∧
    (of "\r\r\n\n".toList 3 []).lineColumn = (3, 1) ∧
    toLex (of "\r\r\n\n".toList 3 []).lineColumn <
      toLex (of "\r\r\n\n".toList 9 []).lineColumn := by
  have hpair : (3 : ℤ) = 2 + 1 ∧ InsideBreak "\r\r\n\n".toList 2 := by decide
  have hend : ¬ ((9 : ℤ) = 3 + 1 ∧ InsideBreak "\r\r\n\n".toList 3) := by decide
  have horder := (lineColumn_order "\r\r\n\n".toList []).2.1
  have heq := horder 2 3 (by decide)
  have hlt := horder 3 9 (by decide)
  rw [if_pos hpair] at heq
  rw [if_neg hend] at hlt
  have htwo : (of "\r\r\n\n".toList 2 []).lineColumn = (3, 1) := by decide
  exact ⟨htwo, heq.trans htwo, hlt⟩

end Location

end PlcScan
