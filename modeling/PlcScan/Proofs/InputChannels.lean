import PlcScan.Proofs.CommandWords
import PlcScan.Proofs.LineEndings
import PlcScan.Proofs.Listing
import PlcScan.Proofs.Utf8RoundTrip

namespace PlcScan

open CommandLine Utf8

namespace CommandLine

variable {path t : Text} {arguments flags : List Text} {stdin : Bytes} {reader reader' : Reader}

structure Agree (a b : Outcome) : Prop where
  ending : ∃ code, a.ending = .exit code ∧ b.ending = .exit code
  kinds : a.ending = .exit 0 → column 0 b.stdout = column 0 a.stdout
  lexemes : a.ending = .exit 0 → column 2 b.stdout = column 2 a.stdout

theorem Agree.of_stdout {a b : Outcome} {code : ℕ} (ha : a.ending = .exit code)
    (hb : b.ending = .exit code) (h : b.stdout = a.stdout) : Agree a b where
  ending := ⟨code, ha, hb⟩
  kinds _ := by rw [h]
  lexemes _ := by rw [h]

theorem column_map {us : List Token} {f : Token → Token} {i : ℕ}
    (h : ∀ u, [(f u).kind.name, Text.ofInt (f u).offset, (f u).lexeme.quote][i]? =
      [u.kind.name, Text.ofInt u.offset, u.lexeme.quote][i]?) :
    column i (Text.lines ((us.map f).map listing)) = column i (Text.lines (us.map listing)) := by
  rw [column_listing, column_listing, List.map_map]
  congr 1
  apply List.map_congr_left
  intro u _
  exact h u

namespace Settings

theorem lexText_unifyNewlines {s s' : Settings} (hs : s'.options = s.options) (t : Text) :
    Agree (s.lexText t) (s'.lexText t.unifyNewlines) := by
  have hn : ['\n'] ∈ s.options.whitespace := by simp [options]
  have hr : ['\r'] ∈ s.options.whitespace := by simp [options]
  cases h : lex s.options s.sourceName t with
  | error failure =>
    obtain ⟨ps, x, -, -, rfl⟩ := lex_error_iff.mp h
    obtain ⟨d, hd, -⟩ := lex_unifyNewlines_of_error hn hr h s'.sourceName
    rw [← hs] at hd
    rw [lexText, lexText, h, hd]
    exact .of_stdout rfl rfl rfl
  | ok ts =>
    obtain ⟨hus, -⟩ := lex_unifyNewlines_of_ok hn hr h s'.sourceName
    rw [← hs] at hus
    rw [lexText, lexText, h, hus]
    exact ⟨⟨0, rfl, rfl⟩, fun _ => column_map fun u => rfl, fun _ => column_map fun u => rfl⟩

end Settings

theorem run_agree (h : NamesFile path arguments flags) (hpath : path ≠ Settings.standardInput)
    (hread : reader path = .ok (encode t)) :
    Agree (run arguments stdin reader) (run flags (encode t) reader') := by
  rw [run, run, h.ofTexts_eq]
  rcases hs : Request.ofTexts flags with e | _ | s
  · exact .of_stdout rfl rfl rfl
  · exact .of_stdout rfl rfl rfl
  · have hfile : (s.withPath path).readSource stdin reader = .ok t := by
      have hsource : (s.withPath path).source = path := rfl
      rw [Settings.readSource, hsource, if_neg hpath, readText, hread]
      simp only [decode_encode]
      rfl
    have hstdin : s.readSource (encode t) reader' = .ok t.unifyNewlines := by
      have hsource : s.source = Settings.standardInput := by
        rw [Settings.source, h.path_eq_none hs]
        rfl
      rw [Settings.readSource, if_pos hsource, decode_encode]
      rfl
    change Agree ((s.withPath path).run stdin reader) (s.run (encode t) reader')
    rw [Settings.run, Settings.run, hfile, hstdin]
    have hoptions : s.options = (s.withPath path).options := rfl
    exact Settings.lexText_unifyNewlines hoptions t

end CommandLine

theorem lex_unifyNewlines :
    (∀ (o : Options) (f g source : Text), ['\n'] ∈ o.whitespace → ['\r'] ∈ o.whitespace →
      (∃ ts us, lex o f source = .ok ts ∧ lex o g source.unifyNewlines = .ok us ∧
        us.map Token.kind = ts.map Token.kind ∧ us.map Token.lexeme = ts.map Token.lexeme ∧
        us.map (fun u => (Location.of source.unifyNewlines u.offset g).lineColumn) =
          ts.map fun u => (Location.of source u.offset f).lineColumn) ∨
      ∃ e d, lex o f source = .error (.lexical e) ∧
        lex o g source.unifyNewlines = .error (.lexical d) ∧ d.fault.code = e.fault.code ∧
        d.location.lineColumn = e.location.lineColumn) ∧
    ∀ (path t : Text) (arguments flags : List Text) (stdin : Bytes) (reader reader' : Reader),
      NamesFile path arguments flags → path ≠ Settings.standardInput →
      reader path = .ok (encode t) →
      Agree (run arguments stdin reader) (run flags (encode t) reader') := by
  refine ⟨fun o f g source hn hr => ?_, fun _ _ _ _ _ _ _ h hpath hread => run_agree h hpath hread⟩
  cases h : lex o f source with
  | ok ts =>
    obtain ⟨hus, hplace⟩ := lex_unifyNewlines_of_ok hn hr h g
    refine .inl ⟨ts, _, rfl, hus, ?_, ?_, ?_⟩
    · exact List.map_map
    · exact List.map_map
    · rw [List.map_map]
      exact List.map_congr_left hplace
  | error failure =>
    obtain ⟨ps, x, -, -, rfl⟩ := lex_error_iff.mp h
    obtain ⟨d, hd, hfault, hplace⟩ := lex_unifyNewlines_of_error hn hr h g
    refine .inr ⟨_, d, rfl, hd, ?_, hplace⟩
    rw [hfault, Fault.code_unifyNewlines]

theorem lex_unifyNewlines_mixed :
    lex {} [] "x\r\n'a'\r+1".toList = .ok [⟨.identifier, ['x'], 0⟩,
      ⟨.character, ['\'', 'a', '\''], 3⟩, ⟨.integer, ['+', '1'], 7⟩] ∧
    (∃ us, lex {} [] "x\n'a'\n+1".toList = .ok us ∧
      us.map Token.lexeme = [['x'], ['\'', 'a', '\''], ['+', '1']]) ∧
    NamesFile "a.plc".toList ["-v".toList, "a.plc".toList] ["-v".toList] ∧
    Agree (run ["-v".toList, "a.plc".toList] [] fun _ => .ok (encode "x\r+1".toList))
      (run ["-v".toList] (encode "x\r+1".toList) fun _ => .error .notFound) := by
  have h : lex {} [] "x\r\n'a'\r+1".toList = .ok [⟨.identifier, ['x'], 0⟩,
      ⟨.character, ['\'', 'a', '\''], 3⟩, ⟨.integer, ['+', '1'], 7⟩] := by cbv
  have hn : ['\n'] ∈ ({} : Options).whitespace := by decide
  have hr : ['\r'] ∈ ({} : Options).whitespace := by decide
  have hflag : ∀ u ∈ ["-v".toList], IsFlag u := by
    intro u hu
    obtain rfl := List.mem_singleton.mp hu
    refine ⟨by decide, fun v hv => ?_⟩
    have hword : Word.ofText "-v".toList = .ok (.short .verbose none) := by cbv
    rw [hword] at hv
    cases hv
  have hfile : NamesFile "a.plc".toList ["-v".toList, "a.plc".toList] ["-v".toList] :=
    .between hflag (List.forall_mem_nil _) (by cbv)
  refine ⟨h, ?_, hfile, lex_unifyNewlines.2 _ _ _ _ [] _ _ hfile (by decide) rfl⟩
  rcases lex_unifyNewlines.1 {} [] [] "x\r\n'a'\r+1".toList hn hr with
    ⟨ts, us, hts, hus, -, hlexemes, -⟩ | ⟨e, d, he, -⟩
  · obtain rfl := Except.ok.inj (h.symm.trans hts)
    exact ⟨us, hus, hlexemes⟩
  · cases h.symm.trans he

end PlcScan
