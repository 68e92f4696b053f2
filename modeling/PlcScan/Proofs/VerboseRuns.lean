import PlcScan.Proofs.FlagSpellings
import PlcScan.Proofs.SourceBytes
import PlcScan.Proofs.StandardOutput

namespace PlcScan.CommandLine

open Utf8 (Bytes)

theorem Word.eq_operand_or_separator {w : Word} (hw : ¬ w.IsFlag) :
    (∃ t, w = operand t) ∨ w = separator := by
  cases w with
  | operand t => exact .inl ⟨t, rfl⟩
  | separator => exact .inr rfl
  | unknown t => exact absurd trivial hw
  | long flag value => exact absurd trivial hw
  | short flag value => exact absurd trivial hw

namespace Settings

theorem set_set (s : Settings) (f g : Flag) : (s.set f).set g = (s.set g).set f := by
  cases f <;> cases g <;> rfl

theorem path_set (s : Settings) (f : Flag) : (s.set f).path = s.path := by
  cases f <;> rfl

theorem surplus_set (s : Settings) (f : Flag) : (s.set f).surplus = s.surplus := by
  cases f <;> rfl

theorem withFlags_set (s : Settings) (f : Flag) (fs : List Flag) :
    (s.set f).withFlags fs = (s.withFlags fs).map (·.set f) := by
  induction fs generalizing s with
  | nil => rfl
  | cons g fs ih =>
    by_cases hg : g = .help
    · subst hg
      rfl
    · rw [withFlags_cons hg, withFlags_cons hg, set_set, ih]

theorem step_set (s : Settings) (f : Flag) (w : Word) :
    (s.set f).step w = (s.step w).map (Option.map (·.set f)) := by
  cases w with
  | operand t => rfl
  | separator => rfl
  | unknown t => cases f <;> rfl
  | long flag value =>
    cases value with
    | none => simp only [step, withFlags_set, Except.map]
    | some value => rfl
  | short flag value =>
    simp only [step]
    cases Word.shortFlags flag value with
    | error e => rfl
    | ok flags => simp only [withFlags_set, Except.map]

theorem meet_set (s : Settings) (f : Flag) (t : Text) (ts : List Text) :
    (s.set f).meet t ts = (s.meet t ts).set f := by
  rw [meet, meet, path_set]
  cases s.path <;> cases f <;> rfl

theorem exists_meet {w : Word} (hw : ¬ w.IsFlag) (ws : List Word) :
    ∃ vs us t ts, ws = vs ++ us ∧ (∀ v ∈ vs, ¬ v.IsFlag) ∧
      ∀ s : Settings, s.act (w :: ws) = (s.meet t ts).act us := by
  -- An operand takes a separator behind it along, and a separator takes an operand along.
  obtain ⟨t, rfl⟩ | rfl := Word.eq_operand_or_separator hw
  · by_cases hws : ∃ us, ws = .separator :: us
    · obtain ⟨us, rfl⟩ := hws
      refine ⟨[.separator], us, t, [t, ['-', '-']], rfl,
        List.forall_mem_singleton.mpr id, fun s => ?_⟩
      rw [act, meet]
      cases s.path <;> simp [withSurplus, leave]
    · refine ⟨[], ws, t, [t], rfl, List.forall_mem_nil _, fun s => ?_⟩
      exact act_meet (fun us h => hws ⟨us, h⟩) s t
  · by_cases hws : ∃ t us, ws = .operand t :: us
    · obtain ⟨t, us, rfl⟩ := hws
      refine ⟨[.operand t], us, t, [['-', '-'], t], rfl,
        List.forall_mem_singleton.mpr id, fun s => ?_⟩
      rw [act, meet]
      cases s.path <;> simp [withSurplus, leave]
    · refine ⟨[], ws, standardInput, [['-', '-']], rfl, List.forall_mem_nil _, fun s => ?_⟩
      rw [act, meet]
      · cases s.path <;> rfl
      · exact fun t us h => hws ⟨t, us, h⟩

@[elab_as_elim]
theorem act_induction {motive : Settings → List Word → Prop} (nil : ∀ s, motive s [])
    (flag : ∀ (s : Settings) w ws, w.IsFlag →
      (∀ next, s.step w = .ok (some next) → motive next ws) → motive s (w :: ws))
    (other : ∀ (s : Settings) w vs us t ts, ¬ w.IsFlag → (∀ v ∈ vs, ¬ v.IsFlag) →
      (∀ r : Settings, r.act (w :: (vs ++ us)) = (r.meet t ts).act us) →
      motive (s.meet t ts) us → motive s (w :: (vs ++ us)))
    (s : Settings) (ws : List Word) : motive s ws := by
  -- One step may take two words, so the induction is on their number.
  induction hn : ws.length using Nat.strong_induction_on generalizing s ws with
  | h n ih =>
    subst hn
    cases ws with
    | nil => exact nil s
    | cons w ws =>
      by_cases hw : w.IsFlag
      · exact flag s w ws hw fun next _ => ih ws.length (Nat.lt_succ_self _) next ws rfl
      · obtain ⟨vs, us, t, ts, rfl, hvs, hact⟩ := exists_meet hw ws
        apply other s w vs us t ts hw hvs hact
        apply ih us.length _ _ us rfl
        simp only [List.length_cons, List.length_append]
        omega

end Settings

def Request.map (g : Settings → Settings) : Request → Request
  | help => help
  | lex s => lex (g s)

namespace Settings

theorem act_set (s : Settings) (f : Flag) (ws : List Word) :
    (s.set f).act ws = (s.act ws).map (Request.map (·.set f)) := by
  induction s, ws using act_induction with
  | nil s =>
    rw [act, act, surplus_set]
    split <;> rfl
  | flag s w ws hw ih =>
    rw [act_flag hw, act_flag hw, step_set]
    rcases hstep : s.step w with e | _ | next
    · rfl
    · rfl
    · exact ih next hstep
  | other s w vs us t ts _ _ hact ih => rw [hact, hact, meet_set, ih]

end Settings

theorem ofTexts_spelled {f : Flag} {t : Text} (h : Spells f t) (arguments : List Text) :
    Request.ofTexts (t :: arguments) =
      (Request.ofTexts arguments).map (Request.map (·.set f)) := by
  obtain ⟨w, hw, ht, hstep⟩ := h.exists_word
  rw [Request.ofTexts, Request.ofTexts, Word.ofTexts, if_neg h.ne_separator, ht]
  cases Word.ofTexts arguments with
  | error e => rfl
  | ok ws =>
    change Settings.act {} (w :: ws) = (Settings.act {} ws).map _
    rw [Settings.act_flag hw, hstep]
    exact Settings.act_set {} f ws

theorem run_spelled {f : Flag} {t : Text} (h : Spells f t) (arguments : List Text) (stdin : Bytes)
    (reader : Reader) :
    run (t :: arguments) stdin reader =
      match Request.ofTexts arguments with
      | .ok (.lex s) => (s.set f).run stdin reader
      | _ => run arguments stdin reader := by
  have hspelled := ofTexts_spelled h arguments
  rw [run, run, hspelled]
  rcases Request.ofTexts arguments with e | _ | s
  · rfl
  · rfl
  · rfl

def Word.setsVerbose : Word → Bool
  | long flag none => flag = .verbose
  | short flag value =>
    match shortFlags flag value with
    | .ok fs => fs.contains .verbose
    | .error _ => false
  | _ => false

def setsVerbose (arguments : List Text) : Bool :=
  match Word.ofTexts arguments with
  | .ok ws => ws.any Word.setsVerbose
  | .error _ => false

theorem Word.setsVerbose_of_not_isFlag {w : Word} (hw : ¬ w.IsFlag) : w.setsVerbose = false := by
  obtain ⟨t, rfl⟩ | rfl := eq_operand_or_separator hw
  · rfl
  · rfl

namespace Settings

variable {s next : Settings}

theorem verbose_set (s : Settings) (f : Flag) :
    (s.set f).verbose = (s.verbose || Flag.verbose == f) := by
  cases f with
  | verbose => exact (Bool.or_true _).symm
  | _ => exact (Bool.or_false _).symm

theorem verbose_of_withFlags {fs : List Flag} (h : s.withFlags fs = some next) :
    next.verbose = (s.verbose || fs.contains .verbose) := by
  induction fs generalizing s with
  | nil =>
    obtain rfl := Option.some.inj h
    exact (Bool.or_false _).symm
  | cons f fs ih =>
    by_cases hf : f = .help
    · subst hf
      cases h
    · rw [withFlags_cons hf] at h
      rw [ih h, verbose_set, List.contains_cons, Bool.or_assoc]

theorem verbose_of_step {w : Word} (h : s.step w = .ok (some next)) :
    next.verbose = (s.verbose || w.setsVerbose) := by
  have hsame {r : Settings} (hr : r.verbose = s.verbose) (h : r = next) :
      next.verbose = (s.verbose || false) := by
    rw [Bool.or_false, ← h, hr]
  cases w with
  | operand t => exact hsame rfl (Option.some.inj (Except.ok.inj h))
  | separator => exact hsame rfl (Option.some.inj (Except.ok.inj h))
  | unknown t => exact hsame (r := s.withSurplus t) rfl (Option.some.inj (Except.ok.inj h))
  | long flag value =>
    cases value with
    | none =>
      rw [verbose_of_withFlags (Except.ok.inj h), Word.setsVerbose]
      cases flag <;> rfl
    | some value => cases h
  | short flag value =>
    rw [step] at h
    rw [Word.setsVerbose]
    cases hfs : Word.shortFlags flag value with
    | error e =>
      rw [hfs] at h
      cases h
    | ok fs =>
      rw [hfs] at h
      exact verbose_of_withFlags (Except.ok.inj h)

theorem verbose_meet (s : Settings) (t : Text) (ts : List Text) :
    (s.meet t ts).verbose = s.verbose := by
  rw [meet]
  cases s.path <;> rfl

theorem verbose_of_act {ws : List Word} (h : s.act ws = .ok (.lex next)) :
    next.verbose = (s.verbose || ws.any Word.setsVerbose) := by
  induction s, ws using act_induction with
  | nil s =>
    rw [act] at h
    split at h
    · rw [← Request.lex.inj (Except.ok.inj h)]
      exact (Bool.or_false _).symm
    · cases h
  | flag s w ws hw ih =>
    rw [act_flag hw] at h
    rcases hstep : s.step w with e | _ | r
    · rw [hstep] at h
      cases h
    · rw [hstep] at h
      cases h
    · rw [hstep] at h
      rw [ih r hstep h, verbose_of_step hstep, List.any_cons, Bool.or_assoc]
  | other s w vs us t ts hw hvs hact ih =>
    have hskip : vs.any Word.setsVerbose = false := by
      rw [List.any_eq_false]
      intro v hv
      rw [Word.setsVerbose_of_not_isFlag (hvs v hv)]
      exact Bool.false_ne_true
    rw [hact] at h
    rw [ih h, verbose_meet, List.any_cons, List.any_append, hskip,
      Word.setsVerbose_of_not_isFlag hw, Bool.false_or, Bool.false_or]

end Settings

theorem verbose_of_ofTexts {arguments : List Text} {s : Settings}
    (h : Request.ofTexts arguments = .ok (.lex s)) : s.verbose = setsVerbose arguments := by
  rw [Request.ofTexts] at h
  rw [setsVerbose]
  cases hws : Word.ofTexts arguments with
  | error e =>
    rw [hws] at h
    cases h
  | ok ws =>
    rw [hws] at h
    exact (Settings.verbose_of_act h).trans (Bool.false_or _)

inductive Unread (arguments : List Text) (stdin : Bytes) (reader : Reader) : Prop
  | usage {e} : Request.ofTexts arguments = .error e → Unread arguments stdin reader
  | help : Request.ofTexts arguments = .ok .help → Unread arguments stdin reader
  | unreadable {s fault} : Request.ofTexts arguments = .ok (.lex s) →
      s.readSource stdin reader = .error fault → Unread arguments stdin reader

theorem not_unread {arguments : List Text} {stdin : Bytes} {reader : Reader} {s : Settings}
    {t : Text} (hs : Request.ofTexts arguments = .ok (.lex s))
    (ht : s.readSource stdin reader = .ok t) : ¬ Unread arguments stdin reader := by
  intro h
  cases h with
  | usage he => cases hs.symm.trans he
  | help hhelp => cases hs.symm.trans hhelp
  | unreadable hs' hfault =>
    obtain rfl := Request.lex.inj (Except.ok.inj (hs.symm.trans hs'))
    cases ht.symm.trans hfault

namespace Settings

variable {s : Settings} {stdin : Bytes} {reader : Reader} {t : Text}

theorem set_verbose_of_verbose (hs : s.verbose = true) : s.set .verbose = s := by
  rw [set, ← hs]

theorem run_set_verbose_of_error {fault : ReadFault}
    (ht : s.readSource stdin reader = .error fault) :
    (s.set .verbose).run stdin reader = s.run stdin reader := by
  have hread : (s.set .verbose).readSource stdin reader = .error fault := ht
  rw [run, run, hread, ht]
  rcases fault with (_ | _ | _) | _ <;> rfl

theorem log_of_quiet (hs : s.verbose = false) (events : List Event) : s.log events = [] := by
  rw [log, hs]
  rfl

theorem log_set_verbose (s : Settings) (events : List Event) :
    (s.set .verbose).log events = Text.lines (events.map Event.line) := rfl

theorem lexText_of_ok {us : List Token} (hus : lex s.options s.sourceName t = .ok us) :
    s.lexText t = ⟨.exit 0, Text.lines (us.map listing),
      s.log [.started s.sourceName t.length, .finished s.sourceName us.length]⟩ := by
  rw [lexText, hus]

theorem lexText_of_error {e : LexicalError}
    (he : lex s.options s.sourceName t = .error (.lexical e)) :
    s.lexText t = ⟨.exit 1, [],
      s.log [.started s.sourceName t.length, .failed s.sourceName e] ++ e.render⟩ := by
  rw [lexText, he]

theorem lexText_set_verbose (hs : s.verbose = false) (t : Text) :
    let quiet := s.lexText t
    ∃ last : Event,
      (s.set .verbose).lexText t = ⟨quiet.ending, quiet.stdout,
        Text.lines [(Event.started s.sourceName t.length).line, last.line] ++ quiet.stderr⟩ ∧
      ((∃ us, lex s.options s.sourceName t = .ok us ∧
          quiet.stdout = Text.lines (us.map listing) ∧
          last = .finished s.sourceName us.length) ∨
        ∃ e, lex s.options s.sourceName t = .error (.lexical e) ∧ quiet.stderr = e.render ∧
          last = .failed s.sourceName e) := by
  intro quiet
  cases hus : lex s.options s.sourceName t with
  | ok us =>
    have hloud : lex (s.set .verbose).options (s.set .verbose).sourceName t = .ok us := hus
    have hquiet : quiet = _ := lexText_of_ok hus
    rw [log_of_quiet hs] at hquiet
    rw [lexText_of_ok hloud, log_set_verbose, hquiet]
    refine ⟨_, ?_, .inl ⟨us, rfl, rfl, rfl⟩⟩
    rw [List.append_nil]
    rfl
  | error failure =>
    -- Scanning has no other failure than a fault in the text.
    obtain ⟨ps, x, -, -, rfl⟩ := lex_error_iff.mp hus
    have hloud : lex (s.set .verbose).options (s.set .verbose).sourceName t = _ := hus
    have hquiet : quiet = _ := lexText_of_error hus
    rw [log_of_quiet hs] at hquiet
    rw [lexText_of_error hloud, log_set_verbose, hquiet]
    exact ⟨_, rfl, .inr ⟨_, rfl, rfl, rfl⟩⟩

end Settings

theorem run_verbose (arguments : List Text) (stdin : Bytes) (reader : Reader) :
    let loud := run ("-v".toList :: arguments) stdin reader
    let quiet := run arguments stdin reader
    loud.ending = quiet.ending ∧ loud.stdout = quiet.stdout ∧
    (setsVerbose arguments = true → loud = quiet) ∧
    (setsVerbose arguments = false →
      (Unread arguments stdin reader ∧ loud.stderr = quiet.stderr) ∨
      ∃ s t, Request.ofTexts arguments = .ok (.lex s) ∧ s.readSource stdin reader = .ok t ∧
        let started := "DEBUG:plc.lexer.lexer:lexing ".toList ++ s.sourceName ++ " (".toList ++
          Text.ofNat t.length ++ " characters)".toList
        ((∃ us, lex s.options s.sourceName t = .ok us ∧
            quiet.stdout = Text.lines (us.map listing) ∧
            loud.stderr = Text.lines [started,
              "DEBUG:plc.lexer.lexer:lexed ".toList ++ Text.ofNat us.length ++
                " tokens from ".toList ++ s.sourceName] ++ quiet.stderr) ∨
          ∃ e, lex s.options s.sourceName t = .error (.lexical e) ∧ quiet.stderr = e.render ∧
            loud.stderr = Text.lines [started,
              "DEBUG:plc.lexer.lexer:lexing ".toList ++ s.sourceName ++
                " failed at offset ".toList ++ Text.ofInt e.location.offset ++ ": ".toList ++
                e.message] ++ quiet.stderr)) := by
  intro loud quiet
  have hloud : loud = _ := run_spelled (.letters 0) arguments stdin reader
  rcases hrequest : Request.ofTexts arguments with e | _ | s
  · rw [hrequest] at hloud
    rw [hloud]
    exact ⟨rfl, rfl, fun _ => rfl, fun _ => .inl ⟨.usage hrequest, rfl⟩⟩
  · rw [hrequest] at hloud
    rw [hloud]
    exact ⟨rfl, rfl, fun _ => rfl, fun _ => .inl ⟨.help hrequest, rfl⟩⟩
  rw [hrequest] at hloud
  have hquiet : quiet = s.run stdin reader := by
    simp only [quiet, run, hrequest]
  have hverbose := verbose_of_ofTexts hrequest
  cases hs : s.verbose with
  | true =>
    rw [hs] at hverbose
    simp only [Settings.set_verbose_of_verbose hs] at hloud
    rw [hloud, hquiet]
    refine ⟨rfl, rfl, fun _ => rfl, fun hset => ?_⟩
    exact absurd (hset.symm.trans hverbose.symm) Bool.false_ne_true
  | false =>
    have hset (h : setsVerbose arguments = true) : loud = quiet :=
      absurd ((hs.symm.trans hverbose).trans h) Bool.false_ne_true
    cases ht : s.readSource stdin reader with
    | error fault =>
      simp only [Settings.run_set_verbose_of_error ht, ← hquiet] at hloud
      rw [hloud]
      exact ⟨rfl, rfl, fun _ => rfl, fun _ => .inl ⟨.unreadable hrequest ht, rfl⟩⟩
    | ok t =>
      have hread : (s.set .verbose).readSource stdin reader = .ok t := ht
      obtain ⟨last, hlast, hcases⟩ := Settings.lexText_set_verbose hs t
      rw [← Settings.run_of_ok ht, ← hquiet] at hlast hcases
      simp only [Settings.run_of_ok hread, hlast] at hloud
      rw [hloud] at hset ⊢
      refine ⟨rfl, rfl, hset, fun _ => .inr ⟨s, t, rfl, ht, ?_⟩⟩
      rcases hcases with ⟨us, hus, hout, rfl⟩ | ⟨e, he, herr, rfl⟩
      · exact .inl ⟨us, hus, hout, rfl⟩
      · exact .inr ⟨e, he, herr, rfl⟩

def namedLikeFlag : List Text := ["--no-id".toList, "--".toList, "-v".toList]

theorem run_verbose_separated :
    let reader := (Directory.ofPaths [("-v".toList, Utf8.encode "a-b '".toList)]).reader
    setsVerbose namedLikeFlag = false ∧
    (run ("-v".toList :: namedLikeFlag) [] reader).stderr =
      "DEBUG:plc.lexer.lexer:lexing -v (5 characters)\n".toList ++
      "DEBUG:plc.lexer.lexer:lexing -v failed at offset 5: ".toList ++
      "malformed character literal: unexpected end of input at offset 5\n".toList ++
      (run namedLikeFlag [] reader).stderr ∧
    (run ["-v".toList] (Utf8.encode "a 1".toList) reader).stderr =
      "DEBUG:plc.lexer.lexer:lexing <stdin> (3 characters)\n".toList ++
      "DEBUG:plc.lexer.lexer:lexed 2 tokens from <stdin>\n".toList ++
      (run [] (Utf8.encode "a 1".toList) reader).stderr := by
  intro reader
  have hname : Word.ofText "--no-id".toList = .ok (.long .noIdentifierHyphens none) :=
    Word.ofText_name ⟨"entifier-hyphens".toList, rfl⟩ (by decide)
  have hwords : Word.ofTexts namedLikeFlag =
      .ok [.long .noIdentifierHyphens none, .separator, .operand "-v".toList] := by
    rw [namedLikeFlag, Word.ofTexts, if_neg (by decide), hname]
    rfl
  have hset : setsVerbose namedLikeFlag = false := by
    rw [setsVerbose, hwords]
    rfl
  have hrequest : Request.ofTexts namedLikeFlag =
      .ok (.lex { path := some "-v".toList, noIdentifierHyphens := true }) := by
    rw [Request.ofTexts, hwords]
    rfl
  have hfile : reader "-v".toList = .ok (Utf8.encode "a-b '".toList) := by
    refine (Directory.reader_of_name _ ?_ ?_ ?_ ?_).trans rfl
    all_goals decide
  have hread : Settings.readSource { path := some "-v".toList, noIdentifierHyphens := true } []
      reader = .ok "a-b '".toList := readText_of_encode hfile
  have hlex : lex { identifierHyphens := false } "-v".toList "a-b '".toList = .error (.lexical
      ⟨.malformedCharacter .endOfInput, ⟨"-v".toList, 1, 6, 5⟩⟩) := by cbv
  have hstdin : Settings.readSource {} (Utf8.encode "a 1".toList) reader = .ok "a 1".toList := by
    cbv
  have hlexed : lex {} "<stdin>".toList "a 1".toList =
      .ok [⟨.identifier, ['a'], 0⟩, ⟨.integer, ['1'], 2⟩] := by cbv
  refine ⟨hset, ?_, ?_⟩
  · rcases (run_verbose namedLikeFlag [] reader).2.2.2 hset with
      ⟨hunread, -⟩ | ⟨s, t, hs, ht, hrun⟩
    · exact absurd hunread (not_unread hrequest hread)
    obtain rfl := Request.lex.inj (Except.ok.inj (hrequest.symm.trans hs))
    obtain rfl := Except.ok.inj (hread.symm.trans ht)
    rcases hrun with ⟨us, hus, -⟩ | ⟨e, he, -, hstderr⟩
    · cases hlex.symm.trans hus
    · obtain rfl := Failure.lexical.inj (Except.error.inj (hlex.symm.trans he))
      refine hstderr.trans (congrArg (· ++ _) ?_)
      decide +kernel
  · rcases (run_verbose [] (Utf8.encode "a 1".toList) reader).2.2.2 rfl with
      ⟨hunread, -⟩ | ⟨s, t, hs, ht, hrun⟩
    · exact absurd hunread (not_unread rfl hstdin)
    obtain rfl := Request.lex.inj (Except.ok.inj hs)
    obtain rfl := Except.ok.inj (hstdin.symm.trans ht)
    rcases hrun with ⟨us, hus, -, hstderr⟩ | ⟨e, he, -⟩
    · obtain rfl := Except.ok.inj (hlexed.symm.trans hus)
      refine hstderr.trans (congrArg (· ++ _) ?_)
      decide +kernel
    · cases hlexed.symm.trans he

end PlcScan.CommandLine
