import PlcScan.Proofs.FaultCases
import PlcScan.Proofs.Sessions

namespace PlcScan

open Reference

theorem Diagnosis.offset_cases {o : Options} {t : Text} {x : Finding} (h : Diagnosis o t x) :
    x.code ∈ ["L001".toList, "L003".toList, "L006".toList, "L009".toList] ∧ x.offset = x.used ∨
      x.code = "L002".toList ∧ x.offset = 0 := by
  cases h <;> simp

theorem Diagnosis.used_eq_zero {o : Options} {t : Text} {x : Finding} (h : Diagnosis o t x)
    (hcode : x.code = "L001".toList) : x.used = 0 := by
  cases h <;> simp at hcode ⊢

namespace Session

variable {o : Options} {filename source : Text} {ps : List Piece} {x : Finding}

theorem enter_settings {α : Type} (s : Session) (m : Munch α) (emit : Cursor → α → Reply × Cursor) :
    (s.enter m emit).1.options = s.options ∧ (s.enter m emit).1.filename = s.filename := by
  rw [enter]
  cases m.result with
  | ok a => exact ⟨rfl, rfl⟩
  | error halt => exact ⟨rfl, rfl⟩

theorem perform_settings (s : Session) (command : Command) :
    (s.perform command).1.options = s.options ∧ (s.perform command).1.filename = s.filename := by
  cases command with
  | advance =>
    rw [perform]
    cases s.cursor.advance with
    | ok c => exact ⟨rfl, rfl⟩
    | error b => exact ⟨rfl, rfl⟩
  | read name => exact enter_settings ..
  | escape => exact enter_settings ..
  | all =>
    simp only [perform, scanAll]
    cases (Scan.of s.options (Rule.token s.options) s.source).stop with
    | none => exact ⟨rfl, rfl⟩
    | some stop => exact ⟨rfl, rfl⟩
  | _ => exact ⟨rfl, rfl⟩

theorem after_settings (s : Session) (commands : List Command) :
    (s.after commands).options = s.options ∧ (s.after commands).filename = s.filename := by
  induction commands generalizing s with
  | nil => exact ⟨rfl, rfl⟩
  | cons command commands ih =>
    obtain ⟨hoptions, hfilename⟩ := perform_settings s command
    obtain ⟨hoptions', hfilename'⟩ := ih (s.perform command).1
    exact ⟨hoptions'.trans hoptions, hfilename'.trans hfilename⟩

theorem perform_all (s : Session) :
    s.perform .all = (start s.options s.filename s.source).perform .all := rfl

theorem perform_all_after (o : Options) (filename source : Text) (commands : List Command) :
    ((start o filename source).after commands).perform .all =
      (start o filename source).perform .all := by
  have hc : (start o filename source).cursor.InText := ⟨le_rfl, Nat.zero_le _⟩
  obtain ⟨hoptions, hfilename⟩ := after_settings (start o filename source) commands
  obtain ⟨-, hsource⟩ := inText_after hc commands
  rw [perform_all, hoptions, hfilename, hsource]
  rfl

theorem perform_all_of_done (h : Scans o source ⟨ps, none⟩) :
    (start o filename source).perform .all =
      (⟨o, filename, ⟨source, source.length, 0⟩⟩, .tokens (Piece.tokens 0 ps)) :=
  scanAll_of_done (s := start o filename source) h

theorem perform_all_of_halt (h : Scans o source ⟨ps, some ⟨x.used, .fault x.fault⟩⟩)
    (hx : Diagnosis o (source.drop (Piece.width ps)) x) :
    (start o filename source).perform .all =
      (⟨o, filename, ⟨source, Piece.width ps + x.used, x.used⟩⟩,
        .failure (.lexical ⟨x.fault, .of source (Piece.width ps + x.offset : ℕ) filename⟩)) := by
  rw [← hx.offset_eq]
  exact scanAll_of_halt (s := start o filename source) h

theorem perform_token_of_diagnosis {k : ℕ} (hx : Diagnosis o (source.drop k) x) :
    (⟨o, filename, ⟨source, k, 0⟩⟩ : Session).perform (.read .token) =
      (⟨o, filename, ⟨source, k + x.used, x.used⟩⟩,
        .failure (.lexical ⟨x.fault, .of source (k + x.offset : ℕ) filename⟩)) := by
  have hrule : RuleName.token.rule o (Cursor.rest ⟨source, k, 0⟩) = .refuse x.used x.fault :=
    Rule.token_of_diagnosis hx
  simp only [perform, enter, hrule, Munch.refuse, Cursor.move, Nat.zero_add]
  rw [← hx.offset_eq]
  rfl

theorem perform_all_anywhere (o : Options) (filename source : Text) (commands : List Command) :
    let s := (start o filename source).after commands
    let next := (s.perform .all).1
    s.perform .all = (start o filename source).perform .all ∧
    ((∃ ts, lex o filename source = .ok ts ∧ (s.perform .all).2 = .tokens ts ∧
      next.cursor = ⟨source, source.length, 0⟩ ∧ Emits o ⟨source, 0, 0⟩ ts next.cursor) ∨
    ∃ e k ts, lex o filename source = .error (.lexical e) ∧
      (s.perform .all).2 = .failure (.lexical e) ∧
      -- The driver has found the tokens up to `k`, and enters the token rule there.
      Reaches o source ⟨k, ts⟩ ∧ Emits o ⟨source, 0, 0⟩ ts ⟨source, k, 0⟩ ∧
      (∃ c, source[k]? = some c ∧ [c] ∉ o.whitespace) ∧
      s.perform .all = (⟨o, filename, ⟨source, k, 0⟩⟩ : Session).perform (.read .token) ∧
      next.source = source ∧ next.cursor.start = k ∧
      (∀ g, lex o g (source.take k) = .ok ts) ∧
      (e.fault.code ∈ ["L001".toList, "L003".toList, "L006".toList, "L009".toList] ∧
          e.location.offset = next.cursor.position ∨
        e.fault.code = "L002".toList ∧ e.location.offset = next.cursor.start) ∧
      (e.fault.code = "L001".toList → next.cursor.pending = 0)) := by
  intro s next
  have hsame : s.perform .all = (start o filename source).perform .all :=
    perform_all_after o filename source commands
  refine ⟨hsame, ?_⟩
  rcases scans_cases o source with ⟨ps, hps⟩ | ⟨ps, x, hps, hx⟩
  · left
    have hall := hsame.trans (perform_all_of_done hps)
    have hnext : next.cursor = ⟨source, source.length, 0⟩ := congrArg (fun r => r.1.cursor) hall
    have hlex : lex o filename source = .ok (Piece.tokens 0 ps) := lex_of_done hps
    refine ⟨_, hlex, congrArg Prod.snd hall, hnext, ?_⟩
    rw [hnext]
    exact lex_ok_iff_emits.mp hlex
  · right
    obtain ⟨y, hb, hy, -⟩ := hps.diagnosis rfl
    have hall := hsame.trans (perform_all_of_halt hps hx)
    have hnext : next.cursor = ⟨source, Piece.width ps + x.used, x.used⟩ :=
      congrArg (fun r => r.1.cursor) hall
    have hstart : next.cursor.start = Piece.width ps := by
      rw [hnext]
      simp only [Cursor.start]
      omega
    refine ⟨_, Piece.width ps, Piece.tokens 0 ps, lex_of_halt hps hx, congrArg Prod.snd hall,
      reaches_of_scans hps, hps.emits, ?_, ?_, ?_, hstart, ?_, ?_, ?_⟩
    · exact (not_blank_iff hx).mp hb
    · exact hall.trans (perform_token_of_diagnosis hx).symm
    · exact congrArg Cursor.source hnext
    · intro g
      exact lex_of_done (hps.take (List.append_nil ps).symm)
    · rw [hx.code_eq]
      apply hx.offset_cases.imp
      · rintro ⟨hcode, hoffset⟩
        refine ⟨hcode, ?_⟩
        rw [hnext, hoffset]
        rfl
      · rintro ⟨hcode, hoffset⟩
        refine ⟨hcode, ?_⟩
        rw [hstart, hoffset]
        rfl
    · intro hcode
      rw [hnext]
      exact hx.used_eq_zero (hx.code_eq.symm.trans hcode)

theorem perform_all_anywhere_leftover :
    (((start {} [] "x 'ab".toList).after [.all, .advance, .read .number]).perform .all).1.cursor =
      ⟨"x 'ab".toList, 4, 2⟩ ∧
    ∃ ts, lex {} [] ("x 'ab".toList.take 2) = .ok ts ∧ Reaches {} "x 'ab".toList ⟨2, ts⟩ := by
  have hcursor : (((start {} [] "x 'ab".toList).after [.all, .advance, .read .number]).perform
      .all).1.cursor = ⟨"x 'ab".toList, 4, 2⟩ := by cbv
  have hlex : lex {} [] "x 'ab".toList =
      .error (.lexical ⟨.malformedCharacter (.char 'b'), ⟨[], 1, 5, 4⟩⟩) := by cbv
  refine ⟨hcursor, ?_⟩
  rcases (perform_all_anywhere {} [] "x 'ab".toList [.all, .advance, .read .number]).2 with
    ⟨ts, hts, -⟩ | ⟨e, k, ts, -, -, hreaches, -, -, -, -, hstart, htake, -⟩
  · cases hlex.symm.trans hts
  · rw [hcursor] at hstart
    obtain rfl : 2 = k := by
      simp only [Cursor.start] at hstart
      omega
    exact ⟨ts, htake [], hreaches⟩

end Session

end PlcScan
