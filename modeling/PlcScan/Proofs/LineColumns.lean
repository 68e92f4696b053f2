import Mathlib
import PlcScan.Location

namespace PlcScan

namespace Text

/-- The character and the text behind it share a line break. -/
def Broken (c : Char) (t : Text) : Prop := c = '\r' ∧ t.head? = some '\n'

theorem not_broken_iff {c : Char} {t : Text} :
    ¬ Broken c t ↔ ∀ u, c = '\r' → t = '\n' :: u → False := by
  constructor
  · rintro h u rfl rfl
    exact h ⟨rfl, rfl⟩
  · rintro h ⟨rfl, ht⟩
    obtain ⟨u, rfl⟩ := List.head?_eq_some_iff.mp ht
    exact h u rfl rfl

theorem not_broken {c : Char} (hc : c ≠ '\r') (t : Text) : ¬ Broken c t := fun h => hc h.1

@[elab_as_elim]
theorem lineBreak_induction {motive : Text → Prop} (nil : motive [])
    (pair : ∀ t, motive t → motive ('\r' :: '\n' :: t))
    (cons : ∀ c t, ¬ Broken c t → motive t → motive (c :: t)) (t : Text) : motive t := by
  induction t using unifyNewlines.induct with
  | case1 => exact nil
  | case2 t ih => exact pair t ih
  | case3 c t h ih => exact cons c t (not_broken_iff.mpr h) ih

theorem lineAtEnd_cons {c : Char} {t : Text} (h : ¬ Broken c t) (i line start : ℕ) :
    lineAtEnd (c :: t) i line start =
      if c = '\r' ∨ c = '\n' then lineAtEnd t (i + 1) (line + 1) (i + 1)
      else lineAtEnd t (i + 1) line start := by
  rw [lineAtEnd.eq_3 _ _ _ _ _ (not_broken_iff.mp h)]
  simp only [Bool.or_eq_true, decide_eq_true_eq]

theorem unifyNewlines_cons {c : Char} {t : Text} (h : ¬ Broken c t) :
    unifyNewlines (c :: t) = (if c = '\r' then '\n' else c) :: unifyNewlines t :=
  unifyNewlines.eq_3 _ _ (not_broken_iff.mp h)

theorem lineAtEnd_concat (t : Text) (c : Char) (i line start : ℕ) :
    lineAtEnd (t ++ [c]) i line start =
      if c = '\r' ∨ c = '\n' then
        (if c = '\n' ∧ t.getLast? = some '\r' then (lineAtEnd t i line start).1
          else (lineAtEnd t i line start).1 + 1, i + t.length + 1)
      else lineAtEnd t i line start := by
  induction t using lineBreak_induction generalizing i line start with
  | nil => by_cases hc : c = '\r' ∨ c = '\n' <;> simp [lineAtEnd, hc]
  | pair t ih =>
    have hlast : ('\r' :: '\n' :: t).getLast? = some '\r' ↔ t.getLast? = some '\r' := by
      cases t <;> simp
    rw [List.cons_append, List.cons_append, lineAtEnd, lineAtEnd, ih]
    simp only [hlast, List.length_cons]
    rw [Nat.add_right_comm i 2, Nat.add_assoc i t.length]
  | cons d t hd ih =>
    cases t with
    | nil =>
      by_cases hfeed : d = '\r' ∧ c = '\n'
      · obtain ⟨rfl, rfl⟩ := hfeed
        rfl
      · have hdc : ¬ Broken d [c] := by simpa [Broken] using hfeed
        have hcd : ¬ (c = '\n' ∧ [d].getLast? = some '\r') := by simpa [and_comm] using hfeed
        rw [List.singleton_append, lineAtEnd_cons hdc, lineAtEnd_cons hd, if_neg hcd]
        split <;> simp [lineAtEnd]
    | cons e t =>
      have hdt : ¬ Broken d (e :: t ++ [c]) := hd
      have hlast : (d :: e :: t).getLast? = (e :: t).getLast? := rfl
      rw [List.cons_append, lineAtEnd_cons hdt, lineAtEnd_cons hd, ih, ih, hlast,
        List.length_cons, Nat.add_right_comm i 1]
      split <;> rfl

theorem lineStart_append_lineFeed (t u : Text) :
    (lineAtEnd (t ++ '\n' :: u) 0 1 0).2 = t.length + 1 + (lineAtEnd u 0 1 0).2 := by
  induction u using List.reverseRecOn with
  | nil => simp [lineAtEnd_concat, lineAtEnd]
  | append_singleton u c ih =>
    have he : t ++ '\n' :: (u ++ [c]) = t ++ '\n' :: u ++ [c] := by simp
    rw [he, lineAtEnd_concat, lineAtEnd_concat]
    by_cases hc : c = '\r' ∨ c = '\n'
    · rw [if_pos hc, if_pos hc]
      simp only [List.length_append, List.length_cons]
      omega
    · rw [if_neg hc, if_neg hc, ih]

theorem unifyNewlines_append {t u : Text} (h : ∀ c ∈ t.getLast?, ¬ Broken c u) :
    unifyNewlines (t ++ u) = unifyNewlines t ++ unifyNewlines u := by
  induction t using lineBreak_induction with
  | nil => rfl
  | pair t ih =>
    rw [List.cons_append, List.cons_append, unifyNewlines, ih]
    · rfl
    · intro c hc
      apply h
      rw [List.getLast?_cons, List.getLast?_cons, Option.mem_def.mp hc]
      rfl
  | cons c t hc ih =>
    have hcu : ¬ Broken c (t ++ u) := by
      cases t with
      | nil => exact h c rfl
      | cons d t => exact hc
    rw [List.cons_append, unifyNewlines_cons hcu, unifyNewlines_cons hc, ih]
    · rfl
    · intro d hd
      apply h
      rw [List.getLast?_cons, Option.mem_def.mp hd]
      rfl

theorem unifyNewlines_eq_self {t : Text} (h : ∀ c ∈ t, c ≠ '\r') : unifyNewlines t = t := by
  induction t with
  | nil => rfl
  | cons c t ih =>
    obtain ⟨hc, ht⟩ := List.forall_mem_cons.mp h
    rw [unifyNewlines_cons (not_broken hc t), if_neg hc, ih ht]

theorem lineAtEnd_unifyNewlines (t : Text) {i j start start' : ℕ} (h : i + start' = j + start)
    (line : ℕ) : (lineAtEnd (unifyNewlines t) j line start').1 = (lineAtEnd t i line start).1 ∧
      j + (unifyNewlines t).length + (lineAtEnd t i line start).2 =
        i + t.length + (lineAtEnd (unifyNewlines t) j line start').2 := by
  induction t using lineBreak_induction generalizing i j line start start' with
  | nil => exact ⟨rfl, by simp only [unifyNewlines, lineAtEnd, List.length_nil]; omega⟩
  | pair t ih =>
    obtain ⟨hline, hlength⟩ := ih (Nat.add_comm (i + 2) (j + 1)) (line + 1)
    rw [unifyNewlines, lineAtEnd_cons (not_broken (by decide) _), if_pos (.inr rfl), lineAtEnd]
    refine ⟨hline, ?_⟩
    simp only [List.length_cons]
    omega
  | cons c t hc ih =>
    have hne : (if c = '\r' then '\n' else c) ≠ '\r' := by split <;> [decide; assumption]
    have hbreak : ((if c = '\r' then '\n' else c) = '\r' ∨ (if c = '\r' then '\n' else c) = '\n') ↔
        (c = '\r' ∨ c = '\n') := by split <;> simp_all
    rw [unifyNewlines_cons hc, lineAtEnd_cons (not_broken hne _), lineAtEnd_cons hc]
    simp only [hbreak, List.length_cons]
    split
    · obtain ⟨hline, hlength⟩ := ih (Nat.add_comm (i + 1) (j + 1)) (line + 1)
      refine ⟨hline, ?_⟩
      omega
    · have hnext : i + 1 + start' = j + 1 + start := by omega
      obtain ⟨hline, hlength⟩ := ih hnext line
      refine ⟨hline, ?_⟩
      omega

end Text

namespace Location

def lineColumn (l : Location) : ℕ × ℤ := (l.line, l.column)

theorem column_append_lineFeed (t u filename : Text) (n : ℕ) :
    (of (t ++ '\n' :: u) (t.length + 1 + n : ℕ) filename).column = (of u n filename).column := by
  have htake : (t ++ '\n' :: u).take (t.length + 1 + n) = t ++ '\n' :: u.take n := by
    rw [Nat.add_assoc, List.take_length_add_append, Nat.add_comm 1, List.take_succ_cons]
  simp only [of, Int.toNat_natCast, htake, Text.lineStart_append_lineFeed]
  omega

theorem lineColumn_unifyNewlines {t : Text} {n : ℕ} (hle : n ≤ t.length)
    (h : ∀ c ∈ (t.take n).getLast?, ¬ Text.Broken c (t.drop n)) (f g : Text) :
    (of (Text.unifyNewlines t) (Text.unifyNewlines (t.take n)).length f).lineColumn =
      (of t n g).lineColumn := by
  obtain ⟨hline, hlength⟩ := Text.lineAtEnd_unifyNewlines (t.take n) (Nat.add_comm 0 0) 1
  have hsplit := Text.unifyNewlines_append h
  rw [List.take_append_drop] at hsplit
  rw [List.length_take_of_le hle] at hlength
  simp only [lineColumn, of, Int.toNat_natCast, hsplit, List.take_left, Prod.mk.injEq]
  refine ⟨hline, ?_⟩
  omega

end Location

end PlcScan
