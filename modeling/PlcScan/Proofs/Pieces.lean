import PlcScan.Proofs.ScanTree

namespace PlcScan

open Grammar

theorem Text.slice_natCast (t : Text) (a b : ℕ) : t.slice a b = (t.drop a).take (b - a) := by
  have hlen : ((b : ℤ) - ((a : ℤ).toNat : ℤ)).toNat = b - a := by omega
  rw [slice, hlen, Int.toNat_natCast]

def Token.shift (n : ℤ) (u : Token) : Token := { u with offset := u.offset + n }

namespace Piece

def written (ps : List Piece) : Text := ps.flatMap text

def Valid (o : Options) : Piece → Prop
  | blank c => o.isBlank c = true
  | lexeme k w => w ∈ lexemes o k ∧ ∀ c ∈ w.head?, o.isBlank c = false

theorem length_written (ps : List Piece) : (written ps).length = width ps := by
  induction ps with
  | nil => rfl
  | cons p ps ih =>
    rw [width_cons, ← ih]
    simp [written]

theorem width_append (xs ys : List Piece) : width (xs ++ ys) = width xs + width ys := by
  induction xs with
  | nil => simp
  | cons x xs ih => rw [List.cons_append, width_cons, width_cons, ih, Nat.add_assoc]

theorem tokens_append (p : ℕ) (xs ys : List Piece) :
    tokens p (xs ++ ys) = tokens p xs ++ tokens (p + width xs) ys := by
  induction xs generalizing p with
  | nil => rfl
  | cons x xs ih =>
    cases x with
    | blank c => simp [tokens, ih, Nat.add_assoc]
    | lexeme k w => simp [tokens, ih, Nat.add_assoc]

theorem tokens_blanks (p : ℕ) (g : Text) : tokens p (g.map blank) = [] := by
  induction g generalizing p with
  | nil => rfl
  | cons c g ih => exact ih (p + 1)

theorem width_blanks (g : Text) : width (g.map blank) = g.length := by
  induction g with
  | nil => rfl
  | cons c g ih => simp [ih, Nat.add_comm]

theorem tokens_add (p q : ℕ) (ps : List Piece) :
    tokens (p + q) ps = (tokens q ps).map (Token.shift p) := by
  induction ps generalizing q with
  | nil => rfl
  | cons x xs ih =>
    cases x with
    | blank c => exact ih (q + 1)
    | lexeme k w =>
      have hoffset : ((p + q : ℕ) : ℤ) = q + p := by omega
      simp only [tokens, List.map_cons, Token.shift, hoffset, Nat.add_assoc, ih]

theorem mem_tokens {p : ℕ} {ps : List Piece} {u : Token} : u ∈ tokens p ps ↔
    ∃ xs k w ys, ps = xs ++ lexeme k w :: ys ∧ u = ⟨k, w, (p + width xs : ℕ)⟩ := by
  constructor
  · intro h
    induction ps generalizing p with
    | nil => exact absurd h List.not_mem_nil
    | cons x ps ih =>
      cases x with
      | blank c =>
        obtain ⟨xs, k, w, ys, rfl, rfl⟩ := ih h
        exact ⟨blank c :: xs, k, w, ys, rfl, by simp [Nat.add_assoc]⟩
      | lexeme l v =>
        rcases List.mem_cons.mp h with rfl | h
        · exact ⟨[], l, v, ps, rfl, rfl⟩
        · obtain ⟨xs, k, w, ys, rfl, rfl⟩ := ih h
          exact ⟨lexeme l v :: xs, k, w, ys, rfl, by simp [Nat.add_assoc]⟩
  · rintro ⟨xs, k, w, ys, rfl, rfl⟩
    rw [tokens_append]
    exact List.mem_append_right _ (List.mem_cons_self ..)

theorem bounds_of_mem_tokens {p : ℕ} {ps : List Piece} {u : Token} (h : u ∈ tokens p ps) :
    (p : ℤ) ≤ u.offset ∧ u.stop ≤ (p + width ps : ℕ) := by
  obtain ⟨xs, k, w, ys, rfl, rfl⟩ := mem_tokens.mp h
  simp only [Token.stop, width_append, width_cons, text_lexeme]
  omega

theorem tokens_pairwise (p : ℕ) (ps : List Piece) :
    (tokens p ps).Pairwise fun u v => u.stop ≤ v.offset := by
  induction ps generalizing p with
  | nil => exact .nil
  | cons x ps ih =>
    cases x with
    | blank c => exact ih (p + 1)
    | lexeme k w =>
      apply List.Pairwise.cons _ (ih (p + w.length))
      intro v hv
      have hle := (bounds_of_mem_tokens hv).1
      simp only [Token.stop]
      omega

theorem exists_split {p b : ℕ} {ps : List Piece} (hp : p ≤ b) (hb : b ≤ p + width ps)
    (h : ∀ u ∈ tokens p ps, ¬ (u.offset < b ∧ b < u.stop)) :
    ∃ xs ys, ps = xs ++ ys ∧ p + width xs = b := by
  induction ps generalizing p with
  | nil => exact ⟨[], [], rfl, by simp only [width_nil] at hb ⊢; omega⟩
  | cons x ps ih =>
    by_cases he : p = b
    · exact ⟨[], x :: ps, rfl, he⟩
    have hx : p + x.text.length ≤ b ∧
        ∀ u ∈ tokens (p + x.text.length) ps, ¬ (u.offset < b ∧ b < u.stop) := by
      cases x with
      | blank c => exact ⟨by simp only [text_blank, List.length_singleton]; omega, h⟩
      | lexeme k w =>
        obtain ⟨hw, hps⟩ := List.forall_mem_cons.mp h
        simp only [Token.stop] at hw
        exact ⟨by simp only [text_lexeme]; omega, hps⟩
    obtain ⟨xs, ys, rfl, hxs⟩ := ih hx.1 (by rw [width_cons] at hb; omega) hx.2
    exact ⟨x :: xs, ys, rfl, by rw [width_cons]; omega⟩

end Piece

open Piece

namespace Scans

variable {o : Options} {t : Text} {s : Scan} {xs ys : List Piece}

theorem drop (h : Scans o t s) (hs : s.pieces = xs ++ ys) :
    Scans o (t.drop (width xs)) ⟨ys, s.stop⟩ := by
  induction h generalizing xs with
  | done =>
    obtain ⟨rfl, rfl⟩ := List.append_eq_nil_iff.mp hs.symm
    exact .done
  | @blank c t s hc h ih =>
    cases xs with
    | nil =>
      subst hs
      exact .blank hc h
    | cons x xs =>
      obtain ⟨rfl, hps⟩ := List.cons.inj hs
      rw [width_cons, ← List.drop_drop]
      exact ih hps
  | @lexeme k w rest s hb hw h ih =>
    cases xs with
    | nil =>
      subst hs
      exact .lexeme hb hw h
    | cons x xs =>
      obtain ⟨rfl, hps⟩ := List.cons.inj hs
      rw [width_cons, ← List.drop_drop, text_lexeme, List.drop_left]
      exact ih hps
  | halt hb hx =>
    obtain ⟨rfl, rfl⟩ := List.append_eq_nil_iff.mp hs.symm
    exact .halt hb hx

theorem take (h : Scans o t s) (hs : s.pieces = xs ++ ys) :
    Scans o (t.take (width xs)) ⟨xs, none⟩ := by
  induction h generalizing xs with
  | done =>
    obtain ⟨rfl, -⟩ := List.append_eq_nil_iff.mp hs.symm
    exact .done
  | @blank c t s hc h ih =>
    cases xs with
    | nil => exact .done
    | cons x xs =>
      obtain ⟨rfl, hps⟩ := List.cons.inj hs
      rw [width_cons, text_blank, List.length_singleton, Nat.add_comm, List.take_succ_cons]
      exact .blank hc (ih hps)
  | @lexeme k w rest s hb hw h ih =>
    cases xs with
    | nil => exact .done
    | cons x xs =>
      obtain ⟨rfl, hps⟩ := List.cons.inj hs
      rw [width_cons, text_lexeme, List.take_length_add_append]
      exact .lexeme hb (hw.of_prefix (List.take_prefix ..)) (ih hps)
  | halt hb hx =>
    obtain ⟨rfl, -⟩ := List.append_eq_nil_iff.mp hs.symm
    exact .done

theorem written_eq (h : Scans o t s) (hs : s.stop = none) : written s.pieces = t := by
  induction h with
  | done => rfl
  | @blank c t s hc h ih =>
    rw [← ih hs]
    rfl
  | @lexeme k w rest s hb hw h ih =>
    rw [← ih hs]
    rfl
  | halt => cases hs

theorem valid (h : Scans o t s) : ∀ p ∈ s.pieces, p.Valid o := by
  induction h with
  | done => exact List.forall_mem_nil _
  | blank hc _ ih => exact List.forall_mem_cons.mpr ⟨hc, ih⟩
  | lexeme hb hw _ ih => exact List.forall_mem_cons.mpr ⟨⟨hw.mem, hb⟩, ih⟩
  | halt => exact List.forall_mem_nil _

end Scans

theorem mem_lexemes_of_mem {o : Options} {filename source : Text} {ts : List Token} {u : Token}
    (h : lex o filename source = .ok ts) (hu : u ∈ ts) :
    u.lexeme ∈ lexemes o u.kind ∧ ∀ c ∈ u.lexeme.head?, o.isBlank c = false := by
  obtain ⟨ps, hps, rfl⟩ := lex_ok_iff.mp h
  obtain ⟨xs, k, w, ys, rfl, rfl⟩ := mem_tokens.mp hu
  exact hps.valid (.lexeme k w) (List.mem_append_right _ (List.mem_cons_self ..))

theorem lex_of_mem_lexemes {o : Options} {k : Kind} {w : Text} (hw : w ∈ lexemes o k)
    (hb : ∀ c ∈ w.head?, o.isBlank c = false) (filename : Text) :
    lex o filename w = .ok [⟨k, w, 0⟩] := by
  have hscan := Scans.lexeme hb (.of_nil hw) .done
  rw [List.append_nil] at hscan
  exact lex_of_done hscan

end PlcScan
