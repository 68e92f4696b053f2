import PlcScan.CommandLine.Run
import PlcScan.Proofs.CommandWords

namespace PlcScan.CommandLine

open Utf8 (Bytes)

namespace Settings

def set (s : Settings) : Flag → Settings
  | .help => s
  | .noIdentifierHyphens => { s with noIdentifierHyphens := true }
  | .rejectLeadingZeros => { s with rejectLeadingZeros := true }
  | .verbose => { s with verbose := true }

def setAll (fs : List Flag) (s : Settings) : Settings :=
  { s with
    noIdentifierHyphens := s.noIdentifierHyphens || decide (.noIdentifierHyphens ∈ fs)
    rejectLeadingZeros := s.rejectLeadingZeros || decide (.rejectLeadingZeros ∈ fs)
    verbose := s.verbose || decide (.verbose ∈ fs) }

theorem set_set_self (s : Settings) (f : Flag) : (s.set f).set f = s.set f := by
  cases f <;> rfl

theorem setAll_set (s : Settings) (f : Flag) (fs : List Flag) :
    (s.set f).setAll fs = s.setAll (f :: fs) := by
  cases f <;> simp [setAll, set]

theorem setAll_filter (s : Settings) (fs : List Flag) :
    s.setAll ([.noIdentifierHyphens, .rejectLeadingZeros, .verbose].filter (· ∈ fs)) =
      s.setAll fs := by
  simp [setAll]

theorem withFlags_cons {f : Flag} (hf : f ≠ .help) (s : Settings) (fs : List Flag) :
    s.withFlags (f :: fs) = (s.set f).withFlags fs := by
  cases f with
  | help => exact absurd rfl hf
  | noIdentifierHyphens => rfl
  | rejectLeadingZeros => rfl
  | verbose => rfl

theorem withFlags_replicate {f : Flag} (hf : f ≠ .help) (s : Settings) (n : ℕ) :
    s.withFlags (List.replicate (n + 1) f) = some (s.set f) := by
  induction n generalizing s with
  | zero => exact withFlags_cons hf s []
  | succ n ih => rw [List.replicate_succ, withFlags_cons hf, ih, set_set_self]

def leave (s : Settings) (ts : List Text) : Settings := { s with surplus := s.surplus ++ ts }

theorem leave_leave (s : Settings) (ts us : List Text) :
    (s.leave ts).leave us = s.leave (ts ++ us) := by
  simp [leave]

def meet (s : Settings) (t : Text) (ts : List Text) : Settings :=
  match s.path with
  | none => s.withPath t
  | some _ => s.leave ts

theorem meet_of_isSome {s : Settings} (hs : s.path.isSome) (t : Text) (ts : List Text) :
    s.meet t ts = s.leave ts := by
  obtain ⟨path, hpath⟩ := Option.isSome_iff_exists.mp hs
  rw [meet, hpath]

theorem meet_setAll (s : Settings) (fs : List Flag) (t : Text) (ts : List Text) :
    (s.setAll fs).meet t ts = (s.meet t ts).setAll fs := by
  have hpath : (s.setAll fs).path = s.path := rfl
  rw [meet, meet, hpath]
  cases s.path <;> rfl

theorem act_meet {ws : List Word} (hws : ∀ us, ws ≠ .separator :: us) (s : Settings) (t : Text) :
    s.act (.operand t :: ws) = (s.meet t [t]).act ws := by
  rw [act, meet]
  · cases s.path <;> rfl
  · exact hws

theorem operands_ne_separator (ps : List Text) (us : List Word) :
    ps.map .operand ≠ .separator :: us := by
  cases ps <;> simp

theorem act_operands {s : Settings} (hs : s.path.isSome) (ps : List Text) :
    s.act (ps.map .operand) = (s.leave ps).act [] := by
  induction ps generalizing s with
  | nil => rw [leave, List.append_nil, List.map_nil]
  | cons p ps ih =>
    have hnext : (s.leave [p]).path.isSome := hs
    rw [List.map_cons, act_meet (operands_ne_separator ps), meet_of_isSome hs, ih hnext,
      leave_leave, List.singleton_append]

end Settings

/-- A flag is written by its name, which may end early behind the first letter, and the verbose flag
also by one dash and its letter once or more. -/
inductive Spells : Flag → Text → Prop
  | name {f t} : f ≠ .help → t <+: f.long → 2 < t.length → Spells f t
  | letters (n : ℕ) : Spells .verbose ('-' :: List.replicate (n + 1) 'v')

namespace Word

theorem cutValue_of_not_mem {t : Text} (h : '=' ∉ t) : cutValue t = (t, none) := by
  have hdrop : t.dropWhile (· != '=') = [] := by
    apply List.dropWhile_eq_nil_iff.mpr
    intro c hc
    rw [bne_iff_ne]
    rintro rfl
    exact h hc
  rw [cutValue, hdrop]

theorem eq_of_take_long {f g : Flag} (h : f.long.take 3 = g.long.take 3) : f = g := by
  -- The names differ in their first letters.
  revert h
  cases f <;> cases g <;> decide

theorem isPrefixOf_long {f : Flag} {t : Text} (ht : t <+: f.long) (hlen : 2 < t.length) (g : Flag) :
    t.isPrefixOf g.long = decide (g = f) := by
  rw [Bool.eq_iff_iff, List.isPrefixOf_iff_prefix, decide_eq_true_eq]
  constructor
  · intro hg
    apply eq_of_take_long
    obtain ⟨u, hu⟩ := ht
    obtain ⟨v, hv⟩ := hg
    rw [← hu, ← hv, List.take_append_of_le_length hlen, List.take_append_of_le_length hlen]
  · rintro rfl
    exact ht

theorem ofText_name {f : Flag} {t : Text} (ht : t <+: f.long) (hlen : 2 < t.length) :
    ofText t = .ok (.long f none) := by
  have hlong : ∃ u, f.long = '-' :: '-' :: u ∧ '=' ∉ f.long := by
    cases f <;> exact ⟨_, rfl, by decide⟩
  obtain ⟨u, hu, heq⟩ := hlong
  have hcut : cutValue t = (t, none) := cutValue_of_not_mem fun h => heq (ht.mem h)
  have hfilter : Flag.all.filter (t.isPrefixOf ·.long) = [f] := by
    simp only [isPrefixOf_long ht hlen]
    cases f <;> rfl
  rcases t with _ | ⟨a, _ | ⟨b, v⟩⟩
  · simp at hlen
  · simp at hlen
  · rw [hu, List.cons_prefix_cons, List.cons_prefix_cons] at ht
    obtain ⟨rfl, rfl, -⟩ := ht
    rw [ofText, hcut]
    simp only [hfilter]

theorem ofText_letters (n : ℕ) : ofText ('-' :: List.replicate (n + 1) 'v') =
    .ok (.short .verbose (if n = 0 then none else some (List.replicate n 'v'))) := by
  have hv : Flag.ofShort? 'v' = some .verbose := rfl
  cases n with
  | zero => rfl
  | succ n =>
    simp only [List.replicate_succ]
    rw [ofText]
    · simp [hv]
    · simp

theorem cluster_letters (n : ℕ) :
    cluster .verbose (List.replicate n 'v') = .ok (List.replicate (n + 1) .verbose) := by
  have hv : Flag.ofShort? 'v' = some .verbose := rfl
  induction n with
  | zero => rfl
  | succ n ih =>
    rw [List.replicate_succ, cluster, hv]
    simp only [ih]
    rfl

theorem shortFlags_letters (n : ℕ) :
    shortFlags .verbose (if n = 0 then none else some (List.replicate n 'v')) =
      .ok (List.replicate (n + 1) .verbose) := by
  cases n with
  | zero => rfl
  | succ n => exact cluster_letters (n + 1)

end Word

namespace Spells

variable {f : Flag} {t : Text}

theorem ne_separator (h : Spells f t) : t ≠ ['-', '-'] := by
  rintro rfl
  cases h with
  | name _ _ hlen => exact absurd hlen (by decide)

theorem exists_word (h : Spells f t) : ∃ w, w.IsFlag ∧ Word.ofText t = .ok w ∧
    ∀ s : Settings, s.step w = .ok (some (s.set f)) := by
  cases h with
  | name hf ht hlen =>
    refine ⟨.long f none, trivial, Word.ofText_name ht hlen, fun s => ?_⟩
    rw [Settings.step, Settings.withFlags_cons hf]
    rfl
  | letters n =>
    refine ⟨.short .verbose _, trivial, Word.ofText_letters n, fun s => ?_⟩
    rw [Settings.step, Word.shortFlags_letters, Except.map,
      Settings.withFlags_replicate (by decide)]

end Spells

def IsOperand (t : Text) : Prop := t = [] ∨ t = ['-'] ∨ t.head? ≠ some '-'

theorem IsOperand.ofText_eq {t : Text} (h : IsOperand t) : Word.ofText t = .ok (.operand t) := by
  rcases h with rfl | rfl | h
  · rfl
  · rfl
  · rw [Word.ofText]
    · rintro u rfl
      exact h rfl
    · rintro c u rfl
      exact h rfl

theorem IsOperand.ne_separator {t : Text} (h : IsOperand t) : t ≠ ['-', '-'] := by
  rintro rfl
  simp [IsOperand] at h

inductive Mixes : (arguments : List Text) → (flags : List Flag) → (operands : List Text) → Prop
  | nil : Mixes [] [] []
  | flag {f t ts fs ps} : Spells f t → Mixes ts fs ps → Mixes (t :: ts) (f :: fs) ps
  | operand {t ts fs ps} : IsOperand t → Mixes ts fs ps → Mixes (t :: ts) fs (t :: ps)

namespace Mixes

variable {arguments : List Text} {fs : List Flag} {ps : List Text}

theorem exists_words (h : Mixes arguments fs ps) : ∃ ws, Word.ofTexts arguments = .ok ws ∧
    (∀ us, ws ≠ .separator :: us) ∧
    ∀ s : Settings, s.act ws = (s.setAll fs).act (ps.map .operand) := by
  induction h with
  | nil =>
    refine ⟨[], rfl, fun us => nofun, fun s => ?_⟩
    simp [Settings.setAll]
  | @flag f t ts fs ps hf _ ih =>
    obtain ⟨w, hw, ht, hstep⟩ := hf.exists_word
    obtain ⟨ws, hts, -, hws⟩ := ih
    refine ⟨w :: ws, ?_, ?_, fun s => ?_⟩
    · rw [Word.ofTexts, if_neg hf.ne_separator, ht, hts]
      rfl
    · rintro us h
      obtain ⟨rfl, -⟩ := List.cons.inj h
      exact hw
    · rw [Settings.act_flag hw, hstep]
      exact (hws (s.set f)).trans (by rw [Settings.setAll_set])
  | @operand t ts fs ps ht _ ih =>
    obtain ⟨ws, hts, hsep, hws⟩ := ih
    refine ⟨.operand t :: ws, ?_, ?_, fun s => ?_⟩
    · rw [Word.ofTexts, if_neg ht.ne_separator, ht.ofText_eq, hts]
      rfl
    · simp
    · rw [List.map_cons, Settings.act_meet hsep,
        Settings.act_meet (Settings.operands_ne_separator ps), Settings.meet_setAll, hws]

theorem ofTexts_eq (h : Mixes arguments fs ps) :
    Request.ofTexts arguments = (Settings.setAll fs {}).act (ps.map .operand) := by
  obtain ⟨ws, hts, -, hws⟩ := h.exists_words
  rw [Request.ofTexts, hts]
  exact hws {}

theorem isOperand (h : Mixes arguments fs ps) : ∀ p ∈ ps, IsOperand p := by
  induction h with
  | nil => exact List.forall_mem_nil _
  | flag _ _ ih => exact ih
  | operand ht _ ih => exact List.forall_mem_cons.mpr ⟨ht, ih⟩

theorem of_operands (h : ∀ p ∈ ps, IsOperand p) : Mixes ps [] ps := by
  induction ps with
  | nil => exact .nil
  | cons p ps ih =>
    obtain ⟨hp, hps⟩ := List.forall_mem_cons.mp h
    exact .operand hp (ih hps)

theorem of_names (hfs : .help ∉ fs) (h : Mixes ps [] ps) :
    Mixes (fs.map Flag.long ++ ps) fs ps := by
  induction fs with
  | nil => exact h
  | cons f fs ih =>
    rw [List.mem_cons, not_or] at hfs
    have hlen : 2 < f.long.length := by
      cases f <;> decide
    exact .flag (.name (Ne.symm hfs.1) (List.prefix_refl _) hlen) (ih hfs.2)

end Mixes

def canonical (fs : List Flag) (operands : List Text) : List Text :=
  ([.noIdentifierHyphens, .rejectLeadingZeros, .verbose].filter (· ∈ fs)).map Flag.long ++ operands

theorem Mixes.canonical {arguments : List Text} {fs : List Flag} {ps : List Text}
    (h : Mixes arguments fs ps) : Mixes (canonical fs ps)
      ([.noIdentifierHyphens, .rejectLeadingZeros, .verbose].filter (· ∈ fs)) ps := by
  apply of_names
  · simp
  · exact of_operands h.isOperand

theorem run_congr {arguments arguments' : List Text}
    (h : Request.ofTexts arguments = Request.ofTexts arguments') (stdin : Bytes) (reader : Reader) :
    run arguments stdin reader = run arguments' stdin reader := by
  rw [run, run, h]

theorem run_canonical :
    (∀ (arguments : List Text) (fs : List Flag) (p : Option Text), Mixes arguments fs p.toList →
      Request.ofTexts arguments = .ok (.lex
        { path := p
          noIdentifierHyphens := .noIdentifierHyphens ∈ fs
          rejectLeadingZeros := .rejectLeadingZeros ∈ fs
          verbose := .verbose ∈ fs }) ∧
      ∀ stdin reader, run arguments stdin reader = run (canonical fs p.toList) stdin reader) ∧
    -- The outcome does not depend on any input, since the arguments ask for none.
    ∀ (arguments : List Text) (fs : List Flag) (p q : Text) (ps : List Text),
      Mixes arguments fs (p :: q :: ps) →
      Request.ofTexts arguments = .error (.unrecognized (q :: ps)) ∧
      ∀ stdin reader, run arguments stdin reader = ⟨.exit 2, [], Text.lines (usageLines ++
        ["plc-lex: error: ".toList ++
          ("unrecognized arguments: ".toList ++ Text.join [' '] (q :: ps))])⟩ := by
  constructor
  · intro arguments fs p h
    constructor
    · rw [h.ofTexts_eq]
      cases p with
      | none => rfl
      | some p => rfl
    · apply run_congr
      rw [h.ofTexts_eq, h.canonical.ofTexts_eq, Settings.setAll_filter]
  · intro arguments fs p q ps h
    have hrequest : Request.ofTexts arguments = .error (.unrecognized (q :: ps)) := by
      rw [h.ofTexts_eq, List.map_cons, Settings.act_meet (Settings.operands_ne_separator (q :: ps)),
        Settings.act_operands rfl]
      rfl
    refine ⟨hrequest, fun stdin reader => ?_⟩
    rw [run, hrequest]
    rfl

def mixed : List Text := ["--v".toList, [], "-vvv".toList, "--no-identifier".toList]

theorem run_canonical_mixed :
    Mixes mixed [.verbose, .verbose, .noIdentifierHyphens] (some []).toList ∧
    (∀ stdin reader, run mixed stdin reader =
      run ["--no-identifier-hyphens".toList, "--verbose".toList, []] stdin reader) ∧
    Mixes ("-".toList :: mixed) [.verbose, .verbose, .noIdentifierHyphens] ["-".toList, []] ∧
    Request.ofTexts ("-".toList :: mixed) = .error (.unrecognized [[]]) := by
  have hmixes : Mixes mixed [.verbose, .verbose, .noIdentifierHyphens] [[]] :=
    .flag (.name (by decide) ⟨"erbose".toList, rfl⟩ (by decide)) <|
      .operand (.inl rfl) <|
      .flag (.letters 2) <|
      .flag (.name (by decide) ⟨"-hyphens".toList, rfl⟩ (by decide)) .nil
  have hsurplus : Mixes ("-".toList :: mixed) [.verbose, .verbose, .noIdentifierHyphens]
      ["-".toList, []] := .operand (.inr (.inl rfl)) hmixes
  have hnames : canonical [.verbose, .verbose, .noIdentifierHyphens] [[]] =
      ["--no-identifier-hyphens".toList, "--verbose".toList, []] := by decide
  have hrun := (run_canonical.1 mixed _ (some []) hmixes).2
  rw [Option.toList_some, hnames] at hrun
  exact ⟨hmixes, hrun, hsurplus, (run_canonical.2 _ _ _ _ _ hsurplus).1⟩

end PlcScan.CommandLine
