import PlcScan.Proofs.Boundary
import PlcScan.Proofs.Layout
import PlcScan.Proofs.LineColumns
import PlcScan.Proofs.Partition

namespace PlcScan

open Grammar Piece

namespace Text

theorem starts_append_of_barred {tests : List (Char → Bool)} {c : Char}
    (h : ∀ test ∈ tests, test c = false) (t u : Text) :
    Text.starts tests (t ++ c :: u) = Text.starts tests t := by
  induction tests generalizing t with
  | nil => rfl
  | cons test tests ih =>
    obtain ⟨htest, htests⟩ := List.forall_mem_cons.mp h
    cases t with
    | nil => simp [starts, htest]
    | cons d t => rw [List.cons_append, starts, starts, ih htests]

theorem fields_ne_nil (separator : Char) (t : Text) : fields separator t ≠ [] := by
  induction t with
  | nil => simp [fields]
  | cons c t ih =>
    rw [fields]
    split
    · simp
    · split <;> simp

theorem join_cons (glue t : Text) {ts : List Text} (h : ts ≠ []) :
    join glue (t :: ts) = t ++ glue ++ join glue ts := by
  obtain ⟨u, us, rfl⟩ := List.exists_cons_of_ne_nil h
  rfl

theorem join_fields (separator : Char) (t : Text) :
    join [separator] (fields separator t) = t := by
  induction t with
  | nil => rfl
  | cons c t ih =>
    rw [fields]
    split
    · rename_i hc
      rw [join_cons _ _ (fields_ne_nil separator t), ih, hc]
      rfl
    · obtain ⟨part, parts, hparts⟩ := List.exists_cons_of_ne_nil (fields_ne_nil separator t)
      rw [hparts] at ih ⊢
      rw [← ih]
      cases parts <;> rfl

end Text

variable {o : Options} {filename : Text}

theorem Ends.append_lineFeed {k : Kind} {w rest : Text} (h : Ends o k w rest) (t : Text) :
    Ends o k w (rest ++ '\n' :: t) := by
  apply h.mono
  intro tests htests hs
  rwa [Text.starts_append_of_barred] at hs
  intro test htest
  exact barred_layoutChar htests test htest '\n' (by simp [layoutChars])

theorem Scans.append_lineFeed {a b : Text} {s s' : Scan} (h : Scans o a s) (hs : s.stop = none)
    (hb : Scans o ('\n' :: b) s') :
    Scans o (a ++ '\n' :: b) ⟨s.pieces ++ s'.pieces, s'.stop⟩ := by
  induction h with
  | done => exact hb
  | blank hc _ ih => exact .blank hc (ih hs)
  | lexeme hhead hw _ ih =>
    rw [List.append_assoc]
    exact .lexeme hhead (hw.append_lineFeed b) (ih hs)
  | halt => cases hs

theorem Scans.lines {a b : Text} {ps : List Piece} {s : Scan} (hn : ['\n'] ∈ o.whitespace)
    (ha : Scans o a ⟨ps, none⟩) (hb : Scans o b s) :
    Scans o (a ++ '\n' :: b) ⟨ps ++ .blank '\n' :: s.pieces, s.stop⟩ :=
  ha.append_lineFeed rfl (.blank (isBlank_iff.mpr hn) hb)

theorem tokens_lines (ps qs : List Piece) : tokens 0 (ps ++ .blank '\n' :: qs) =
    tokens 0 ps ++ (tokens 0 qs).map (Token.shift (width ps + 1)) := by
  rw [tokens_append, Nat.zero_add, tokens]
  have h := tokens_add (width ps + 1) 0 qs
  rw [Nat.add_zero] at h
  rw [h]
  rfl

theorem boundary_lineFeed {a b : Text} {ps : List Piece}
    (h : Scans o (a ++ '\n' :: b) ⟨ps, none⟩) :
    Boundary (a ++ '\n' :: b) (tokens 0 ps) a.length := by
  refine ⟨by simp, ?_⟩
  rintro u hu ⟨hlo, hhi⟩
  obtain ⟨xs, k, w, ys, rfl, rfl⟩ := mem_tokens.mp hu
  have hw : w ∈ lexemes o k :=
    (h.valid (.lexeme k w) (List.mem_append_right _ (List.mem_cons_self ..))).1
  -- The line feed would be a character of the lexeme.
  have hwritten : written xs ++ (w ++ written ys) = a ++ '\n' :: b := by
    rw [← h.written_eq rfl]
    simp [written]
  have hfeed : (written xs ++ (w ++ written ys))[a.length]? = some '\n' := by
    rw [hwritten, List.getElem?_append_right le_rfl, Nat.sub_self]
    rfl
  simp only [Token.stop] at hlo hhi
  rw [List.getElem?_append_right (by rw [length_written]; omega), length_written,
    List.getElem?_append_left (by omega)] at hfeed
  exact (not_break_of_mem_lexemes hw '\n' (List.mem_of_getElem? hfeed)).1 rfl

theorem Scans.exists_lines {a b : Text} {ps : List Piece} (hn : ['\n'] ∈ o.whitespace)
    (h : Scans o (a ++ '\n' :: b) ⟨ps, none⟩) :
    ∃ xs ys, Scans o a ⟨xs, none⟩ ∧ Scans o b ⟨ys, none⟩ := by
  obtain ⟨xs, ys, rfl, hxs⟩ := (boundary_lineFeed h).split h
  have ha := h.take rfl
  have hb := h.drop rfl
  rw [hxs, List.take_left] at ha
  rw [hxs, List.drop_left] at hb
  obtain ⟨s, hs, hb⟩ := hb.exists_blank (isBlank_iff.mpr hn)
  have hstop : s.stop = none := congrArg Scan.stop hs.symm
  exact ⟨xs, s.pieces, ha, hstop ▸ hb⟩

theorem lex_append_lineFeed (hn : ['\n'] ∈ o.whitespace) (a b : Text) (ts : List Token) :
    lex o filename (a ++ '\n' :: b) = .ok ts ↔ ∃ us vs, lex o filename a = .ok us ∧
      lex o filename b = .ok vs ∧ ts = us ++ vs.map (Token.shift (a.length + 1)) := by
  have hjoin {ps qs : List Piece} (ha : Scans o a ⟨ps, none⟩) (hb : Scans o b ⟨qs, none⟩) :
      lex o filename (a ++ '\n' :: b) =
        .ok (tokens 0 ps ++ (tokens 0 qs).map (Token.shift (a.length + 1))) := by
    rw [lex_of_done (ha.lines hn hb), tokens_lines, ha.width_eq rfl]
  constructor
  · intro h
    obtain ⟨rs, hrs, -⟩ := lex_ok_iff.mp h
    obtain ⟨ps, qs, ha, hb⟩ := hrs.exists_lines hn
    refine ⟨_, _, lex_of_done ha, lex_of_done hb, ?_⟩
    exact Except.ok.inj (h.symm.trans (hjoin ha hb))
  · rintro ⟨us, vs, ha, hb, rfl⟩
    obtain ⟨ps, hps, rfl⟩ := lex_ok_iff.mp ha
    obtain ⟨qs, hqs, rfl⟩ := lex_ok_iff.mp hb
    exact hjoin hps hqs

theorem lex_fault_append_lineFeed (hn : ['\n'] ∈ o.whitespace) {a b : Text} {us : List Token}
    {e : LexicalError} (ha : lex o filename a = .ok us)
    (hb : lex o filename b = .error (.lexical e)) :
    ∃ e', lex o filename (a ++ '\n' :: b) = .error (.lexical e') ∧ e'.fault = e.fault ∧
      e'.location.offset = a.length + 1 + e.location.offset ∧
      e'.location.column = e.location.column := by
  obtain ⟨ps, hps, -⟩ := lex_ok_iff.mp ha
  obtain ⟨qs, x, hqs, hx, he⟩ := lex_error_iff.mp hb
  obtain rfl := Failure.lexical.inj he
  have hwidth : width (ps ++ .blank '\n' :: qs) = a.length + 1 + width qs := by
    rw [width_append, hps.width_eq rfl, width_cons, text_blank, List.length_singleton,
      Nat.add_assoc]
  have hdrop : (a ++ '\n' :: b).drop (width (ps ++ .blank '\n' :: qs)) = b.drop (width qs) := by
    rw [hwidth, Nat.add_assoc, List.drop_length_add_append, Nat.add_comm 1, List.drop_succ_cons]
  refine ⟨_, lex_of_halt (hps.lines hn hqs) (hdrop ▸ hx), rfl, ?_, ?_⟩
  · change ((_ : ℕ) : ℤ) = _ + 1 + ((_ : ℕ) : ℤ)
    rw [hwidth]
    omega
  · rw [hwidth, Nat.add_assoc (a.length + 1)]
    exact Location.column_append_lineFeed a b filename _

def lexLines (o : Options) (filename : Text) : (offset : ℕ) → List Text →
    Except Failure (List Token)
  | _, [] => .ok []
  | offset, line :: rest => do
    let us ← lex o filename line
    let vs ← lexLines o filename (offset + line.length + 1) rest
    return us.map (Token.shift offset) ++ vs

theorem lexLines_cons_ok {offset : ℕ} {line : Text} {rest : List Text} {ts : List Token} :
    lexLines o filename offset (line :: rest) = .ok ts ↔ ∃ us vs, lex o filename line = .ok us ∧
      lexLines o filename (offset + line.length + 1) rest = .ok vs ∧
      ts = us.map (Token.shift offset) ++ vs := by
  rw [lexLines]
  cases lex o filename line with
  | error f => simp [bind, Except.bind]
  | ok us =>
    cases lexLines o filename (offset + line.length + 1) rest with
    | error f => simp [bind, Except.bind]
    | ok vs => simp [bind, Except.bind, pure, Except.pure, eq_comm]

theorem shift_zero (us : List Token) : us.map (Token.shift 0) = us := by
  have hid : Token.shift 0 = id := by
    funext u
    simp [Token.shift]
  rw [hid, List.map_id]

theorem shift_shift (m n : ℤ) (us : List Token) :
    (us.map (Token.shift m)).map (Token.shift n) = us.map (Token.shift (n + m)) := by
  have hsum : Token.shift n ∘ Token.shift m = Token.shift (n + m) := by
    funext u
    simp [Token.shift, add_assoc, add_comm n]
  rw [List.map_map, hsum]

theorem lexLines_ok_iff (hn : ['\n'] ∈ o.whitespace) {lines : List Text} {offset : ℕ}
    {ts : List Token} : lexLines o filename offset lines = .ok ts ↔
      ∃ us, lex o filename (Text.join ['\n'] lines) = .ok us ∧
        ts = us.map (Token.shift offset) := by
  induction lines generalizing offset ts with
  | nil =>
    have hnil : lex o filename [] = .ok [] := lex_of_done .done
    simp [lexLines, Text.join, hnil, eq_comm]
  | cons line rest ih =>
    rw [lexLines_cons_ok]
    by_cases hrest : rest = []
    · subst hrest
      simp [lexLines, Text.join]
    · rw [Text.join_cons _ _ hrest, List.append_assoc, List.singleton_append]
      simp only [lex_append_lineFeed hn, ih]
      have hoffset : ((offset + line.length + 1 : ℕ) : ℤ) = offset + (line.length + 1) := by
        push_cast
        ring
      constructor
      · rintro ⟨us, _, hline, ⟨vs, hjoin, rfl⟩, rfl⟩
        refine ⟨_, ⟨us, vs, hline, hjoin, rfl⟩, ?_⟩
        rw [List.map_append, shift_shift, hoffset]
      · rintro ⟨_, ⟨us, vs, hline, hjoin, rfl⟩, rfl⟩
        refine ⟨us, _, hline, ⟨vs, hjoin, rfl⟩, ?_⟩
        rw [List.map_append, shift_shift, hoffset]

theorem lex_lines (hn : ['\n'] ∈ o.whitespace) (filename : Text) :
    (∀ a b ts, lex o filename (a ++ '\n' :: b) = .ok ts ↔ ∃ us vs, lex o filename a = .ok us ∧
      lex o filename b = .ok vs ∧ ts = us ++ vs.map (Token.shift (a.length + 1))) ∧
    (∀ a b us e, lex o filename a = .ok us → lex o filename b = .error (.lexical e) →
      ∃ e', lex o filename (a ++ '\n' :: b) = .error (.lexical e') ∧ e'.fault = e.fault ∧
        e'.location.offset = a.length + 1 + e.location.offset ∧
        e'.location.column = e.location.column) ∧
    (∀ lines ts, lex o filename (Text.join ['\n'] lines) = .ok ts ↔
      lexLines o filename 0 lines = .ok ts) ∧
    ∀ source, Text.join ['\n'] (Text.fields '\n' source) = source := by
  refine ⟨fun a b ts => lex_append_lineFeed hn a b ts,
    fun a b us e => lex_fault_append_lineFeed hn, fun lines ts => ?_, Text.join_fields '\n'⟩
  rw [lexLines_ok_iff hn]
  simp [shift_zero]

theorem lex_lines_return :
    lex {} [] "x\r".toList = .ok [⟨.identifier, ['x'], 0⟩] ∧
    lex {} [] "\r\n \"a\\".toList = .error (.lexical ⟨.unterminatedString, ⟨[], 2, 2, 3⟩⟩) ∧
    ∃ e, lex {} [] "x\r\n\r\n \"a\\".toList = .error (.lexical e) ∧ e.fault = .unterminatedString ∧
      e.location.offset = 6 ∧ e.location.column = 2 := by
  have ha : lex {} [] "x\r".toList = .ok [⟨.identifier, ['x'], 0⟩] := by cbv
  have hb : lex {} [] "\r\n \"a\\".toList =
      .error (.lexical ⟨.unterminatedString, ⟨[], 2, 2, 3⟩⟩) := by cbv
  have hn : ['\n'] ∈ ({} : Options).whitespace := by decide
  exact ⟨ha, hb, (lex_lines hn []).2.1 _ _ _ _ ha hb⟩

end PlcScan
