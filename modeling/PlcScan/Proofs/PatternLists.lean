import PlcScan.Proofs.Sessions

namespace PlcScan

open Grammar

namespace Pattern

def texts (o : Options) : Pattern → Language Char
  | never => 0
  | charClass k => one {c | k.mem c = true}
  | literal t => {t}
  | anyInLine => one {'\n'}ᶜ
  | oneOf ranges => one {c | ∃ r ∈ ranges, c ∈ Set.Icc r.1 r.2}
  | noneOf ranges => one {c | ∀ r ∈ ranges, c ∉ Set.Icc r.1 r.2}
  | operator => one {c | Text.isPrintable c = true ∧ c ≠ ' '}
  | blank => one {c | [c] ∈ o.whitespace}

theorem singleton_mem_one {s : Set Char} {c : Char} : [c] ∈ one s ↔ c ∈ s := by
  simp [mem_one]

theorem singleton_mem_texts {o : Options} {p : Pattern} {c : Char} :
    [c] ∈ p.texts o ↔ p.test o c = true := by
  cases p with
  | never => simp [texts, test]
  | charClass k => exact singleton_mem_one
  | literal t =>
    rw [test, decide_eq_true_eq, eq_comm]
    rfl
  | anyInLine => simp [texts, test, singleton_mem_one]
  | oneOf ranges => simp [texts, test, singleton_mem_one, inRanges]
  | noneOf ranges => simp [texts, test, singleton_mem_one, inRanges]
  | operator => simp [texts, test, singleton_mem_one, Text.isOperator]
  | blank => exact singleton_mem_one.trans isBlank_iff.symm

end Pattern

namespace Text

theorem starts_iff {tests : List (Char → Bool)} {t : Text} :
    t.starts tests = true ↔ tests.length ≤ t.length ∧
      ∀ (i : ℕ) (test : Char → Bool), tests[i]? = some test →
        ∃ c, t[i]? = some c ∧ test c = true := by
  induction tests generalizing t with
  | nil => simp [starts]
  | cons first tests ih =>
    cases t with
    | nil => simp [starts]
    | cons c t =>
      rw [starts, Bool.and_eq_true, ih]
      constructor
      · rintro ⟨hfirst, hlen, htests⟩
        refine ⟨Nat.succ_le_succ hlen, fun i test htest => ?_⟩
        cases i with
        | zero =>
          obtain rfl := Option.some.inj htest
          exact ⟨c, rfl, hfirst⟩
        | succ i => exact htests i test htest
      · rintro ⟨hlen, htests⟩
        obtain ⟨d, hd, hfirst⟩ := htests 0 first rfl
        obtain rfl := Option.some.inj hd
        exact ⟨hfirst, Nat.le_of_succ_le_succ hlen, fun i => htests (i + 1)⟩

theorem starts_append_tests (ps qs : List (Char → Bool)) (t : Text) :
    t.starts (ps ++ qs) = (t.starts ps && starts qs (t.drop ps.length)) := by
  induction ps generalizing t with
  | nil => rfl
  | cons p ps ih =>
    cases t with
    | nil => rfl
    | cons c t => rw [List.cons_append, starts, starts, ih, Bool.and_assoc, List.length_cons,
        List.drop_succ_cons]

end Text

namespace Cursor

theorem charAt?_natCast (c : Cursor) (i : ℕ) : c.charAt? i = c.rest[i]? := by
  rw [charAt?, rest, List.getElem?_drop, if_pos (by omega)]
  rfl

theorem peek_append (c : Cursor) (ps qs : List (Char → Bool)) :
    c.peek (ps ++ qs) = (c.peek ps && (c.move ps.length).peek qs) := by
  rw [peek, peek, peek, rest_move, Text.starts_append_tests]

end Cursor

namespace Session

def matchesAhead (s : Session) (ps : List Pattern) : Bool :=
  s.cursor.peek (ps.map (·.test s.options))

variable {s : Session}

theorem matchesAhead_iff {ps : List Pattern} : s.matchesAhead ps = true ↔
    ps.length ≤ s.cursor.rest.length ∧ ∀ (i : ℕ) (p : Pattern), ps[i]? = some p →
      ∃ c, s.cursor.charAt? i = some c ∧ [c] ∈ p.texts s.options := by
  rw [matchesAhead, Cursor.peek, Text.starts_iff, List.length_map]
  simp only [List.getElem?_map, Option.map_eq_some_iff, forall_exists_index, and_imp,
    forall_apply_eq_imp_iff₂, Cursor.charAt?_natCast, Pattern.singleton_mem_texts]

theorem perform_accept_of_match {ps : List Pattern} (h : s.matchesAhead ps = true) :
    s.perform (.accept ps) = (s.moveTo (s.cursor.move ps.length), .truth true) := by
  rw [matchesAhead] at h
  rw [perform, Cursor.accept, if_pos h, List.length_map]

theorem perform_accept_of_not_match {ps : List Pattern} (h : s.matchesAhead ps = false) :
    s.perform (.accept ps) = (s, .truth false) := by
  rw [matchesAhead] at h
  rw [perform, Cursor.accept, h, if_neg Bool.false_ne_true]
  rfl

theorem matchesAhead_append (s : Session) (ps qs : List Pattern) :
    s.matchesAhead (ps ++ qs) = (s.matchesAhead ps &&
      (s.moveTo (s.cursor.move ps.length)).matchesAhead qs) := by
  rw [matchesAhead, List.map_append, Cursor.peek_append, List.length_map]
  rfl

theorem advances_of_matchesAhead {ps : List Pattern} (h : s.matchesAhead ps = true) :
    s.cursor.advances ps.length = .ok (s.cursor.move ps.length) :=
  Cursor.advances_eq (matchesAhead_iff.mp h).1

theorem perform_accept_append (s : Session) (ps qs : List Pattern) :
    let first := s.perform (.accept ps)
    let both := s.perform (.accept (ps ++ qs))
    (both.2 = .truth true ↔
      first.2 = .truth true ∧ (first.1.perform (.peek qs)).2 = .truth true) ∧
    (both.2 = .truth true → both.1 = (first.1.perform (.accept qs)).1) := by
  intro first both
  have happend := s.matchesAhead_append ps qs
  cases hps : s.matchesAhead ps with
  | false =>
    rw [hps, Bool.false_and] at happend
    have hfirst : first = (s, .truth false) := perform_accept_of_not_match hps
    have hboth : both = (s, .truth false) := perform_accept_of_not_match happend
    rw [hfirst, hboth]
    simp
  | true =>
    let next := s.moveTo (s.cursor.move ps.length)
    rw [hps, Bool.true_and] at happend
    have hfirst : first = (next, .truth true) := perform_accept_of_match hps
    rw [hfirst]
    cases hqs : next.matchesAhead qs with
    | false =>
      have hpeek : (next.perform (.peek qs)).2 = .truth false := congrArg Reply.truth hqs
      have hboth : both = (s, .truth false) := perform_accept_of_not_match (happend.trans hqs)
      rw [hpeek, hboth]
      simp
    | true =>
      have hpeek : (next.perform (.peek qs)).2 = .truth true := congrArg Reply.truth hqs
      have hboth : both = (s.moveTo (s.cursor.move (ps ++ qs).length), .truth true) :=
        perform_accept_of_match (happend.trans hqs)
      rw [hpeek, hboth, perform_accept_of_match hqs, List.length_append, ← Cursor.move_move]
      exact ⟨⟨fun _ => ⟨rfl, rfl⟩, fun _ => rfl⟩, fun _ => rfl⟩

theorem perform_patterns (s : Session) :
    -- Whatever texts a pattern may match, there is one that matches the same characters.
    (∀ l : Language Char, ∃ p : Pattern, ∀ c, [c] ∈ p.texts s.options ↔ [c] ∈ l) ∧
    (∀ ps : List Pattern, ∃ matched : Bool,
      (matched = true ↔ ps.length ≤ s.cursor.rest.length ∧
        ∀ (i : ℕ) (p : Pattern), ps[i]? = some p →
          ∃ c, s.cursor.charAt? i = some c ∧ [c] ∈ p.texts s.options) ∧
      s.perform (.peek ps) = (s, .truth matched) ∧
      (s.perform (.accept ps)).2 = .truth matched ∧
      match matched with
      | true =>
        let next : Cursor := ⟨s.source, s.cursor.position + ps.length, s.cursor.pending + ps.length⟩
        (s.perform (.accept ps)).1 = ⟨s.options, s.filename, next⟩ ∧
          s.cursor.advances ps.length = .ok next
      | false => (s.perform (.accept ps)).1 = s) ∧
    ∀ ps qs : List Pattern,
      let first := s.perform (.accept ps)
      let both := s.perform (.accept (ps ++ qs))
      (both.2 = .truth true ↔
        first.2 = .truth true ∧ (first.1.perform (.peek qs)).2 = .truth true) ∧
      (both.2 = .truth true → both.1 = (first.1.perform (.accept qs)).1) := by
  refine ⟨fun l => ?_, fun ps => ⟨s.matchesAhead ps, matchesAhead_iff, rfl, ?_⟩, fun ps qs => ?_⟩
  · classical
    obtain ⟨p, hp⟩ := exists_pattern fun c => decide ([c] ∈ l)
    refine ⟨p, fun c => ?_⟩
    rw [Pattern.singleton_mem_texts, hp, decide_eq_true_eq]
  · cases h : s.matchesAhead ps with
    | true =>
      rw [perform_accept_of_match h]
      exact ⟨rfl, rfl, advances_of_matchesAhead h⟩
    | false =>
      rw [perform_accept_of_not_match h]
      exact ⟨rfl, rfl⟩
  · exact s.perform_accept_append ps qs

end Session

end PlcScan
