import PlcScan.Proofs.FreshScans

/-!
Characters that a failure has left pending. A rule looks at the text in front of the cursor, so they
become the front of the next lexeme and change nothing else. Main statement: entered at the same
position, a rule takes the same characters to the same end, whatever is pending, and so do lists of
commands. Only the number rule, entered without a digit, says where the pending text starts.
-/

namespace PlcScan

namespace Munch

variable {α : Type} {m : Munch α}

def Decides (m : Munch α) : Prop :=
  (∃ a, m.result = .ok a) ∨ ∃ f, m.result = .error (.fault f)

theorem decides_accept (n : ℕ) (a : α) : (accept n a).Decides := .inl ⟨a, rfl⟩

theorem decides_refuse (n : ℕ) (f : Fault) : (refuse n f : Munch α).Decides := .inr ⟨f, rfl⟩

theorem Decides.after (h : m.Decides) (n : ℕ) : (m.after n).Decides := h

end Munch

namespace Rule

open Munch

theorem fraction_decides (t : Text) : (fraction t).Decides := by
  fun_cases fraction t <;> exact decides_accept ..

theorem unsigned_cases (o : Options) (t : Text) : (unsigned o t).Decides ∨
    leading .digit t = 0 ∧ (unsigned o t).result = .error .noDigit := by
  fun_cases unsigned o t with
  | case1 => exact .inr ⟨rfl, rfl⟩
  | case2 => exact .inl (decides_refuse ..)
  | case3 => exact .inl ((fraction_decides _).after _)
  | case4 => exact .inl ((fraction_decides _).after _)
  | case5 c rest hzero hnonzero =>
    have hdigit : CharClass.digit.mem c ≠ true := by
      simp_all [CharClass.mem]
    exact .inr ⟨if_neg hdigit, rfl⟩

theorem number_cases (o : Options) (t : Text) : (number o t).Decides ∨
    leading .digit (t.drop (leading .sign t)) = 0 ∧ (number o t).result = .error .noDigit := by
  rcases unsigned_cases o (t.drop (leading .sign t)) with hdecides | ⟨hdigit, h⟩
  · exact .inl (hdecides.after _)
  · exact .inr ⟨hdigit, h⟩

theorem escape_decides (t : Text) : (escape t).Decides := by
  fun_cases escape t with
  | case1 => exact decides_refuse ..
  | case2 => exact decides_accept ..
  | case3 => exact decides_refuse ..

theorem closingQuote_decides (t : Text) : (closingQuote t).Decides := by
  fun_cases closingQuote t with
  | case1 => exact decides_refuse ..
  | case2 => exact decides_accept ..
  | case3 => exact decides_refuse ..

theorem characterRest_decides (t : Text) : (characterRest t).Decides := by
  fun_cases characterRest t with
  | case1 => exact decides_refuse ..
  | case2 => exact (closingQuote_decides _).after _
  | case3 c rest _ n halt h =>
    have hescape := escape_decides (c :: rest)
    rw [h] at hescape
    obtain ⟨_, hescape⟩ | ⟨f, hescape⟩ := hescape
    · cases hescape
    · right
      use f
      exact congrArg Except.error (Except.error.inj hescape)
  | case4 => exact (closingQuote_decides _).after _
  | case5 => exact decides_refuse ..

theorem stringRest_decides (t : Text) : (stringRest t).Decides := by
  fun_induction stringRest t with
  | case1 => exact decides_refuse ..
  | case2 => exact decides_refuse ..
  | case3 _ _ _ ih => exact ih.after _
  | case4 => exact decides_refuse ..
  | case5 => exact decides_accept ..
  | case6 _ _ _ _ _ _ ih => exact ih.after _
  | case7 => exact decides_refuse ..

theorem operator_decides (t : Text) : (operator t).Decides := by
  fun_cases operator t <;> exact decides_accept ..

theorem token_decides (o : Options) (t : Text) : (token o t).Decides := by
  rcases token_cases o t with ⟨k, w, rest, -, -, h⟩ | ⟨n, f, -, h⟩
  · rw [h]
    exact decides_accept ..
  · rw [h]
    exact decides_refuse ..

end Rule

open Rule in
theorem RuleName.decides_or (name : RuleName) (o : Options) (t : Text) :
    (name.rule o t).Decides ∨ name = .number ∧
      leading .digit (t.drop (leading .sign t)) = 0 ∧ (name.rule o t).result = .error .noDigit := by
  cases name with
  | token => exact .inl (token_decides o t)
  | identifier => exact .inl (Munch.decides_accept ..)
  | number =>
    rcases number_cases o t with hdecides | hhalt
    · exact .inl hdecides
    · exact .inr ⟨rfl, hhalt⟩
  | character => exact .inl ((characterRest_decides _).after _)
  | string => exact .inl ((stringRest_decides _).after _)
  | operator => exact .inl (operator_decides t)

inductive Reply.Alike : Reply → Reply → Prop
  | same (r : Reply) : Alike r r
  | token {u v : Token} : u.kind = v.kind → u.stop = v.stop → Alike (.token u) (.token v)
  | noDigit (a b : Int) :
    Alike (.failure (.internal (.noDigit a))) (.failure (.internal (.noDigit b)))

namespace Session

variable {o : Options} {filename source : Text} {p : ℕ}

theorem emit_leftover (p n m : ℕ) (kind : Kind) :
    Cursor.emit ⟨source, p + n, m + n⟩ kind =
      (⟨kind, source.slice (p - m) (p + n), p - m⟩, ⟨source, p + n, 0⟩) := by
  have hstart : Cursor.start ⟨source, p + n, m + n⟩ = p - m := by
    simp only [Cursor.start]
    omega
  rw [Cursor.emit, hstart]
  push_cast
  rfl

theorem stop_leftover {n m : ℕ} (hm : m ≤ p) (hn : p + n ≤ source.length) (kind : Kind) :
    (⟨kind, source.slice (p - m) (p + n), p - m⟩ : Token).stop = p + n := by
  have hc : Cursor.InText ⟨source, p + n, m + n⟩ := ⟨Nat.add_le_add_right hm n, hn⟩
  have hstop := Cursor.stop_emit hc kind
  rw [emit_leftover] at hstop
  exact_mod_cast hstop

theorem read_of_ok {name : RuleName} {kind : Kind}
    (h : (name.rule o (source.drop p)).result = .ok kind) (m : ℕ) :
    let n := (name.rule o (source.drop p)).used
    (⟨o, filename, ⟨source, p, m⟩⟩ : Session).perform (.read name) =
      (⟨o, filename, ⟨source, p + n, 0⟩⟩,
        .token ⟨kind, source.slice (p - m) (p + n), p - m⟩) := by
  intro n
  simp only [perform, enter, Cursor.rest, Cursor.move, h, emit_leftover]
  rfl

theorem enter_of_error {α : Type} {munch : Munch α} {halt : Halt} (h : munch.result = .error halt)
    (emit : Cursor → α → Reply × Cursor) (m : ℕ) :
    (⟨o, filename, ⟨source, p, m⟩⟩ : Session).enter munch emit =
      (⟨o, filename, ⟨source, p + munch.used, m + munch.used⟩⟩,
        .failure (halt.failure source filename p munch.used m)) := by
  rw [enter, h]
  rfl

theorem read_cases (o : Options) (filename : Text) (hp : p ≤ source.length) (name : RuleName) :
    let s (m : ℕ) : Session := ⟨o, filename, ⟨source, p, m⟩⟩
    let text := source.drop p
    ∃ n, p + n ≤ source.length ∧
      ((∃ kind, ∀ m ≤ p,
          let u : Token := ⟨kind, source.slice (p - m) (p + n), p - m⟩
          u.stop = p + n ∧
            (s m).perform (.read name) = (⟨o, filename, ⟨source, p + n, 0⟩⟩, .token u)) ∨
        (∃ e, ∀ m, (s m).perform (.read name) =
          (⟨o, filename, ⟨source, p + n, m + n⟩⟩, .failure (.lexical e))) ∨
        name = .number ∧ Rule.leading .digit (text.drop (Rule.leading .sign text)) = 0 ∧
          ∀ m, (s m).perform (.read name) =
            (⟨o, filename, ⟨source, p + n, m + n⟩⟩, .failure (.internal (.noDigit (p - m))))) := by
  intro s text
  have hused := name.used_le o text
  rw [List.length_drop] at hused
  have hn : p + (name.rule o text).used ≤ source.length := by omega
  refine ⟨(name.rule o text).used, hn, ?_⟩
  rcases name.decides_or o text with (⟨kind, hkind⟩ | ⟨f, hf⟩) | ⟨rfl, hdigit, hhalt⟩
  · left
    use kind
    intro m hm
    exact ⟨stop_leftover hm hn kind, read_of_ok hkind m⟩
  · right; left
    use ⟨f, .of source (f.offset p (name.rule o text).used) filename⟩
    intro m
    rw [perform]
    exact enter_of_error hf _ m
  · right; right
    refine ⟨rfl, hdigit, ?_⟩
    intro m
    rw [perform]
    exact enter_of_error hhalt _ m

theorem escape_cases (o : Options) (filename : Text) (hp : p ≤ source.length) :
    let s (m : ℕ) : Session := ⟨o, filename, ⟨source, p, m⟩⟩
    ∃ n, p + n ≤ source.length ∧
      ((∀ m, (s m).perform .escape = (⟨o, filename, ⟨source, p + n, m + n⟩⟩, .done)) ∨
        ∃ e, ∀ m, (s m).perform .escape =
          (⟨o, filename, ⟨source, p + n, m + n⟩⟩, .failure (.lexical e))) := by
  intro s
  have hused := Rule.escape_used_le (source.drop p)
  rw [List.length_drop] at hused
  refine ⟨(Rule.escape (source.drop p)).used, by omega, ?_⟩
  rcases Rule.escape_decides (source.drop p) with ⟨_, hok⟩ | ⟨f, hf⟩
  · left
    intro m
    simp only [s, perform, enter, Cursor.rest, Cursor.move, hok]
    rfl
  · right
    use ⟨f, .of source (f.offset p (Rule.escape (source.drop p)).used) filename⟩
    intro m
    rw [perform]
    exact enter_of_error hf _ m

inductive Alike : Session → Session → Prop
  | leftover {o filename source p m m'} : m ≤ p → m' ≤ p → p ≤ source.length →
    Alike ⟨o, filename, ⟨source, p, m⟩⟩ ⟨o, filename, ⟨source, p, m'⟩⟩

theorem Alike.refl {s : Session} (hc : s.cursor.InText) : s.Alike s :=
  .leftover hc.pending_le hc.pending_le hc.position_le

theorem Alike.move {o : Options} {filename source : Text} {p m m' n : ℕ} (hm : m ≤ p)
    (hm' : m' ≤ p) (hn : p + n ≤ source.length) :
    Alike ⟨o, filename, ⟨source, p + n, m + n⟩⟩ ⟨o, filename, ⟨source, p + n, m' + n⟩⟩ :=
  .leftover (Nat.add_le_add_right hm n) (Nat.add_le_add_right hm' n) hn

theorem alike_read {s s' : Session} (h : s.Alike s') (name : RuleName) :
    (s.perform (.read name)).1.Alike (s'.perform (.read name)).1 ∧
      (s.perform (.read name)).2.Alike (s'.perform (.read name)).2 := by
  obtain @⟨o, filename, source, p, m, m', hm, hm', hp⟩ := h
  obtain ⟨n, hn, ⟨kind, htoken⟩ | ⟨e, hfault⟩ | ⟨-, -, hdigit⟩⟩ := read_cases o filename hp name
  · obtain ⟨hstop, hread⟩ := htoken m hm
    obtain ⟨hstop', hread'⟩ := htoken m' hm'
    rw [hread, hread']
    exact ⟨.refl ⟨Nat.zero_le _, hn⟩, .token rfl (hstop.trans hstop'.symm)⟩
  · rw [hfault, hfault]
    exact ⟨.move hm hm' hn, .same _⟩
  · rw [hdigit, hdigit]
    exact ⟨.move hm hm' hn, .noDigit _ _⟩

theorem alike_perform {s s' : Session} (h : s.Alike s') (command : Command) :
    (s.perform command).1.Alike (s'.perform command).1 ∧
      (s.perform command).2.Alike (s'.perform command).2 := by
  obtain @⟨o, filename, source, p, m, m', hm, hm', hp⟩ := h
  cases command with
  | has n => exact ⟨.leftover hm hm' hp, .same _⟩
  | charAt n => exact ⟨.leftover hm hm' hp, .same _⟩
  | advance =>
    simp only [perform, Cursor.advance]
    by_cases hlt : p < source.length
    · rw [if_pos hlt, if_pos hlt]
      exact ⟨.move hm hm' hlt, .same _⟩
    · rw [if_neg hlt, if_neg hlt]
      exact ⟨.leftover hm hm' hp, .same _⟩
  | resetPending => exact ⟨.refl ⟨Nat.zero_le p, hp⟩, .same _⟩
  | emit kind =>
    have hstop {k : ℕ} (hk : k ≤ p) : (Cursor.emit ⟨source, p, k⟩ kind).1.stop = p :=
      Cursor.stop_emit ⟨hk, hp⟩ kind
    exact ⟨.refl ⟨Nat.zero_le p, hp⟩, .token rfl ((hstop hm).trans (hstop hm').symm)⟩
  | read name => exact alike_read (.leftover hm hm' hp) name
  | escape =>
    obtain ⟨n, hn, hdone | ⟨e, hfault⟩⟩ := escape_cases o filename hp
    · rw [hdone, hdone]
      exact ⟨.move hm hm' hn, .same _⟩
    · rw [hfault, hfault]
      exact ⟨.move hm hm' hn, .same _⟩
  | all => exact ⟨.refl (forward_scanAll _).inText, .same _⟩
  | locate offset => exact ⟨.leftover hm hm' hp, .same _⟩
  | peek patterns => exact ⟨.leftover hm hm' hp, .same _⟩
  | accept patterns =>
    simp only [perform, Cursor.accept]
    generalize patterns.map (·.test o) = tests
    have hpeek : Cursor.peek ⟨source, p, m'⟩ tests = Cursor.peek ⟨source, p, m⟩ tests := rfl
    by_cases htests : Cursor.peek ⟨source, p, m⟩ tests = true
    · have hlength : tests.length ≤ (source.drop p).length := Cursor.starts_length_le htests
      rw [List.length_drop] at hlength
      have hn : p + tests.length ≤ source.length := by omega
      rw [if_pos htests, if_pos (hpeek.trans htests)]
      exact ⟨.move hm hm' hn, .same _⟩
    · rw [if_neg htests, hpeek, if_neg htests]
      exact ⟨.leftover hm hm' hp, .same _⟩

theorem alike_performAll {s s' : Session} (h : s.Alike s') (commands : List Command) :
    List.Forall₂ (fun r r' => r.1.Alike r'.1 ∧ r.2.Alike r'.2) (s.performAll commands)
      (s'.performAll commands) := by
  -- What one command leaves is alike again, whether it failed or not.
  induction commands generalizing s s' with
  | nil => exact .nil
  | cons command commands ih =>
    have hnext := alike_perform h command
    exact .cons hnext (ih hnext.1)

theorem perform_leftover (o : Options) (filename : Text) {source : Text} {p : ℕ}
    (hp : p ≤ source.length) :
    let s (m : ℕ) : Session := ⟨o, filename, ⟨source, p, m⟩⟩
    let text := source.drop p
    (∀ name : RuleName, ∃ n, p + n ≤ source.length ∧
      ((∃ kind, ∀ m ≤ p,
          let u : Token := ⟨kind, source.slice (p - m) (p + n), p - m⟩
          u.stop = p + n ∧
            (s m).perform (.read name) = (⟨o, filename, ⟨source, p + n, 0⟩⟩, .token u)) ∨
        (∃ e, ∀ m, (s m).perform (.read name) =
          (⟨o, filename, ⟨source, p + n, m + n⟩⟩, .failure (.lexical e))) ∨
        name = .number ∧ Rule.leading .digit (text.drop (Rule.leading .sign text)) = 0 ∧
          ∀ m, (s m).perform (.read name) =
            (⟨o, filename, ⟨source, p + n, m + n⟩⟩, .failure (.internal (.noDigit (p - m)))))) ∧
    (∃ n, p + n ≤ source.length ∧
      ((∀ m, (s m).perform .escape = (⟨o, filename, ⟨source, p + n, m + n⟩⟩, .done)) ∨
        ∃ e, ∀ m, (s m).perform .escape =
          (⟨o, filename, ⟨source, p + n, m + n⟩⟩, .failure (.lexical e)))) ∧
    ∀ m ≤ p, ∀ m' ≤ p, ∀ commands : List Command,
      List.Forall₂ (fun r r' => r.1.Alike r'.1 ∧ r.2.Alike r'.2) ((s m).performAll commands)
        ((s m').performAll commands) := by
  intro s text
  refine ⟨read_cases o filename hp, escape_cases o filename hp, ?_⟩
  intro m hm m' hm'
  exact alike_performAll (.leftover hm hm' hp)

theorem perform_leftover_sign :
    let s (m : ℕ) : Session := ⟨{}, [], ⟨"'+x".toList, 1, m⟩⟩
    1 ≤ "'+x".toList.length ∧ ∀ m, (s m).perform (.read .number) =
      (⟨{}, [], ⟨"'+x".toList, 2, m + 1⟩⟩, .failure (.internal (.noDigit (1 - m)))) := by
  intro s
  have hp : 1 ≤ "'+x".toList.length := by decide
  have hfirst : (s 0).perform (.read .number) =
      (⟨{}, [], ⟨"'+x".toList, 2, 1⟩⟩, .failure (.internal (.noDigit 1))) := by cbv
  refine ⟨hp, ?_⟩
  intro m
  obtain ⟨n, -, ⟨kind, h⟩ | ⟨e, h⟩ | ⟨-, -, h⟩⟩ := (perform_leftover {} [] hp).1 .number
  · cases congrArg Prod.snd (hfirst.symm.trans (h 0 (Nat.zero_le _)).2)
  · cases congrArg Prod.snd (hfirst.symm.trans (h 0))
  · have hpending : 1 = 0 + n :=
      congrArg (fun r => r.1.cursor.pending) (hfirst.symm.trans (h 0))
    obtain rfl : n = 1 := by omega
    exact h m

end Session

end PlcScan
