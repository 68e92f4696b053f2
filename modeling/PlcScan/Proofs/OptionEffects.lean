import PlcScan.Proofs.Pieces

/-!
What the two grammar options change. One text scanned under two options gives the same pieces up to
the first lexeme that one of them ends differently. Main statements: rejecting leading zeros changes
no token, and turns the first zero in front of a digit into a fault; without hyphens, the first
identifier that holds one is cut there, and the tokens before it stay.
-/

namespace PlcScan

open Grammar Piece

theorem Text.drop_add_length {source w rest : Text} {i : ℕ} (hi : source.drop i = w ++ rest) :
    source.drop (i + w.length) = rest := by
  rw [← List.drop_drop, hi, List.drop_left]

def produced (o : Options) (source : Text) : List Token :=
  tokens 0 (Scan.of o (Rule.token o) source).pieces

/-- Under both options scanning does the same everywhere but at lexemes that `p` picks out. -/
structure SameBut (o o' : Options) (source : Text) (p : Token → Bool) : Prop where
  isBlank : o'.isBlank = o.isBlank
  diagnosis : ∀ {t x}, Diagnosis o t x → Diagnosis o' t x
  ends : ∀ {k w rest} {i : ℕ}, source.drop i = w ++ rest → p ⟨k, w, i⟩ = false → Ends o k w rest →
    Ends o' k w rest

section

variable {o o' : Options} {source t : Text} {s : Scan} {p : Token → Bool} {i : ℕ}

theorem Scans.of_sameBut (h : Scans o t s) (hs : SameBut o o' source p) (hi : source.drop i = t)
    (hp : ∀ u ∈ tokens i s.pieces, p u = false) : Scans o' t s := by
  induction h generalizing i with
  | done => exact .done
  | @blank c t s hc h ih =>
    have hnext : source.drop (i + 1) = t := Text.drop_add_length (w := [c]) hi
    exact .blank (hs.isBlank ▸ hc) (ih hnext hp)
  | @lexeme k w rest s hb hw h ih =>
    obtain ⟨hfirst, hrest⟩ := List.forall_mem_cons.mp hp
    exact .lexeme (hs.isBlank ▸ hb) (hs.ends hi hfirst hw) (ih (Text.drop_add_length hi) hrest)
  | halt hb hx => exact .halt (hs.isBlank ▸ hb) (hs.diagnosis hx)

theorem Scans.exists_first (h : Scans o t s) (hs : SameBut o o' source p) (hi : source.drop i = t)
    {u : Token} (hu : (tokens i s.pieces).find? p = some u) :
    ∃ ps rest, tokens i ps = (tokens i s.pieces).takeWhile (fun v => !p v) ∧
      u.offset = (i + width ps : ℕ) ∧ t.drop (width ps) = u.lexeme ++ rest ∧
      (∀ c ∈ u.lexeme.head?, o'.isBlank c = false) ∧ Ends o u.kind u.lexeme rest ∧
      ∀ s', Scans o' (u.lexeme ++ rest) s' → Scans o' t ⟨ps ++ s'.pieces, s'.stop⟩ := by
  -- Up to the first lexeme that `p` picks out both scans are made of the same pieces.
  induction h generalizing i with
  | done => cases hu
  | @blank c t s hc h ih =>
    have hnext : source.drop (i + 1) = t := Text.drop_add_length (w := [c]) hi
    obtain ⟨ps, rest, hps, hoffset, hdrop, hb, hw, hon⟩ := ih hnext hu
    refine ⟨.blank c :: ps, rest, hps, ?_, ?_, hb, hw, fun s' hs' => ?_⟩
    · rw [hoffset, width_cons, Nat.add_assoc]
      rfl
    · rw [width_cons, ← List.drop_drop]
      exact hdrop
    · exact .blank (hs.isBlank ▸ hc) (hon s' hs')
  | @lexeme k w rest s hb hw h ih =>
    simp only [Scan.cons, tokens] at hu ⊢
    cases hp : p ⟨k, w, i⟩ with
    | true =>
      rw [List.find?_cons_of_pos hp] at hu
      obtain rfl := Option.some.inj hu
      refine ⟨[], rest, ?_, rfl, rfl, hs.isBlank ▸ hb, hw, fun s' hs' => hs'⟩
      rw [List.takeWhile_cons_of_neg (by simp [hp])]
      rfl
    | false =>
      rw [List.find?_cons_of_neg (by simp [hp])] at hu
      obtain ⟨ps, rest', hps, hoffset, hdrop, hb', hw', hon⟩ := ih (Text.drop_add_length hi) hu
      refine ⟨.lexeme k w :: ps, rest', ?_, ?_, ?_, hb', hw', fun s' hs' => ?_⟩
      · rw [List.takeWhile_cons_of_pos (by simp [hp]), ← hps]
        rfl
      · rw [hoffset, width_cons, Nat.add_assoc]
        rfl
      · rw [width_cons, ← List.drop_drop, text_lexeme, List.drop_left]
        exact hdrop
      · exact .lexeme (hs.isBlank ▸ hb) (hs.ends hi hp hw) (hon s' hs')
  | halt => cases hu

theorem produced_of_scans (h : Scans o source s) : produced o source = tokens 0 s.pieces := by
  rw [produced, h.eq]

theorem produced_of_lex {filename : Text} {ts : List Token} (h : lex o filename source = .ok ts) :
    produced o source = ts := by
  obtain ⟨ps, hps, rfl⟩ := lex_ok_iff.mp h
  exact produced_of_scans hps

theorem scans_of_sameBut (hs : SameBut o o' source p) (hp : (produced o source).find? p = none) :
    Scans o' source (Scan.of o (Rule.token o) source) := by
  apply (scans_of o source).of_sameBut hs (i := 0) rfl
  intro u hu
  exact Bool.not_eq_true _ ▸ List.find?_eq_none.mp hp u hu

theorem lex_of_sameBut (hs : SameBut o o' source p) (hp : (produced o source).find? p = none)
    (filename : Text) : lex o' filename source = lex o filename source := by
  rw [lex, lexWith, (scans_of_sameBut hs hp).eq]
  rfl

theorem Diagnosis.of_imp {x : Finding} (h : Diagnosis o t x)
    (ho : o.rejectLeadingZeros = true → o'.rejectLeadingZeros = true) : Diagnosis o' t x := by
  cases h with
  | invalidCharacter hc => exact .invalidCharacter hc
  | leadingZero hr hs hd => exact .leadingZero (ho hr) hs hd
  | unterminatedString hb ht => exact .unterminatedString hb ht
  | stringEscape hb hc => exact .stringEscape hb hc
  | characterEscape ht => exact .characterEscape ht
  | afterEscape hc ht => exact .afterEscape hc ht
  | noCharacter ht => exact .noCharacter ht
  | afterCharacter hc ht => exact .afterCharacter hc ht

end

def Options.rejecting (b : Bool) (o : Options) : Options := { o with rejectLeadingZeros := b }

def Token.splitZero (source : Text) (u : Token) : Bool :=
  zeros.contains u.lexeme && source[u.stop.toNat]?.any CharClass.digit.mem

variable {o : Options} {source : Text}

theorem Token.splitZero_iff {w rest : Text} {k : Kind} {i : ℕ} (hi : source.drop i = w ++ rest) :
    splitZero source ⟨k, w, i⟩ = true ↔ LeadingZero w rest := by
  have hstop : (stop ⟨k, w, i⟩).toNat = i + w.length := Int.toNat_natCast (i + w.length)
  have hnext : source[i + w.length]? = rest.head? := by
    rw [← List.head?_drop, Text.drop_add_length hi]
  simp only [splitZero, hstop, hnext, LeadingZero, Bool.and_eq_true, List.contains_iff_mem,
    mem_zeros, mem_digits]
  cases rest <;> simp

theorem sameBut_rejecting (o : Options) (source : Text) :
    SameBut (o.rejecting false) (o.rejecting true) source (Token.splitZero source) where
  isBlank := rfl
  diagnosis h := h.of_imp fun _ => rfl
  ends {k w rest i} hi hp h := by
    obtain ⟨hl, -⟩ := ends_iff.mp h
    have hz : ¬ LeadingZero w rest := by
      rw [← Token.splitZero_iff (k := k) hi, hp]
      exact Bool.false_ne_true
    exact ends_iff.mpr ⟨⟨hl.isPrefix, hl.mem, hl.longest⟩, fun h => hz h.2⟩

theorem LeadingZero.diagnosis {w rest : Text} (h : LeadingZero w rest)
    (ho : o.rejectLeadingZeros = true) :
    Diagnosis o (w ++ rest) ⟨Rule.leadingZero, w.length, "L003".toList, w.length⟩ := by
  obtain ⟨⟨s, hs, z, hz, rfl⟩, d, hd, t, rfl⟩ := h
  obtain rfl := mem_zero.mp hz
  simpa using Diagnosis.leadingZero (t := t) ho hs hd

theorem scans_of_splitZero {u : Token}
    (hu : (produced (o.rejecting false) source).find? (Token.splitZero source) = some u) :
    ∃ ps, Scans (o.rejecting true) source ⟨ps, some ⟨u.lexeme.length, .fault Rule.leadingZero⟩⟩ ∧
      Diagnosis (o.rejecting true) (source.drop (width ps))
        ⟨Rule.leadingZero, u.lexeme.length, "L003".toList, u.lexeme.length⟩ ∧
      u.offset = width ps ∧ tokens 0 ps =
        (produced (o.rejecting false) source).takeWhile fun v => !v.splitZero source := by
  obtain ⟨ps, rest, hps, hoffset, hdrop, hb, -, hon⟩ :=
    (scans_of _ source).exists_first (sameBut_rejecting o source) (i := 0) rfl hu
  have hzero : LeadingZero u.lexeme rest := by
    have hi : source.drop (0 + width ps) = u.lexeme ++ rest := by rwa [Nat.zero_add]
    have hu' : u = ⟨u.kind, u.lexeme, (0 + width ps : ℕ)⟩ := by rw [← hoffset]
    rw [← Token.splitZero_iff hi, ← hu']
    exact List.find?_some hu
  have hx := hzero.diagnosis (o := o.rejecting true) rfl
  have hne : u.lexeme ≠ [] := ne_nil_of_mem (o := o) (k := .integer) (integer_of_leadingZero hzero)
  have hhead : ∀ c ∈ (u.lexeme ++ rest).head?, (o.rejecting true).isBlank c = false := by
    rwa [List.head?_append_of_ne_nil _ hne]
  have hscan := hon _ (.halt hhead hx)
  rw [List.append_nil] at hscan
  rw [Nat.zero_add] at hoffset
  exact ⟨ps, hscan, hdrop ▸ hx, hoffset, hps⟩

theorem lex_of_splitZero {u : Token}
    (hu : (produced (o.rejecting false) source).find? (Token.splitZero source) = some u)
    (filename : Text) : lex (o.rejecting true) filename source =
      .error (.lexical ⟨Rule.leadingZero, .of source u.stop filename⟩) := by
  obtain ⟨ps, hps, hx, hoffset, -⟩ := scans_of_splitZero hu
  have hstop : u.stop = (width ps + u.lexeme.length : ℕ) := by
    rw [Token.stop, hoffset, Nat.cast_add]
  rw [hstop]
  exact lex_of_halt hps hx

theorem produced_rejecting (o : Options) (source : Text) : produced (o.rejecting true) source =
    (produced (o.rejecting false) source).takeWhile fun u => !u.splitZero source := by
  have hsame := sameBut_rejecting o source
  cases hu : (produced (o.rejecting false) source).find? (Token.splitZero source) with
  | none =>
    rw [produced_of_scans (scans_of_sameBut hsame hu)]
    symm
    apply List.takeWhile_eq_self_iff.mpr
    simpa only [List.find?_eq_none, Bool.not_eq_true, Bool.not_eq_true'] using hu
  | some u =>
    obtain ⟨ps, hps, -, -, htokens⟩ := scans_of_splitZero hu
    rw [produced_of_scans hps, htokens]

theorem Diagnosis.code_ne_leadingZero {t : Text} {x : Finding} (h : Diagnosis o t x)
    (ho : o.rejectLeadingZeros = false) : x.code ≠ "L003".toList := by
  cases h with
  | leadingZero hr => exact absurd (hr.symm.trans ho) (by decide)
  | _ => simp

theorem lex_rejectLeadingZeros (o : Options) (filename source : Text) :
    let off := o.rejecting false
    let on := o.rejecting true
    ((produced off source).find? (Token.splitZero source) = none →
      lex on filename source = lex off filename source) ∧
    (∀ u, (produced off source).find? (Token.splitZero source) = some u →
      lex on filename source =
        .error (.lexical ⟨Rule.leadingZero, .of source u.stop filename⟩)) ∧
    produced on source = (produced off source).takeWhile (fun u => !u.splitZero source) ∧
    ((∃ e, lex on filename source = .error (.lexical e) ∧ e.fault.code = "L003".toList) ↔
      ∃ u ∈ produced off source, u.splitZero source = true) := by
  intro off on
  have hsame : SameBut off on source (Token.splitZero source) := sameBut_rejecting o source
  refine ⟨fun hu => lex_of_sameBut hsame hu filename, fun u hu => lex_of_splitZero hu filename,
    produced_rejecting o source, ?_⟩
  rw [← List.find?_isSome, Option.isSome_iff_exists]
  constructor
  · rintro ⟨e, he, hcode⟩
    by_contra hnone
    rw [← Option.isSome_iff_exists, Option.not_isSome_iff_eq_none] at hnone
    rw [lex_of_sameBut hsame hnone] at he
    obtain ⟨ps, x, -, hx, hf⟩ := lex_error_iff.mp he
    obtain rfl := Failure.lexical.inj hf
    exact hx.code_ne_leadingZero rfl (hx.code_eq.symm.trans hcode)
  · rintro ⟨u, hu⟩
    exact ⟨_, lex_of_splitZero hu filename, rfl⟩

theorem lex_rejectLeadingZeros_signed :
    lex {} [] "0.5 -007".toList = .ok [⟨.decimal, ['0', '.', '5'], 0⟩, ⟨.integer, ['-', '0'], 4⟩,
      ⟨.integer, ['0'], 6⟩, ⟨.integer, ['7'], 7⟩] ∧
    lex { rejectLeadingZeros := true } [] "0.5 -007".toList =
      .error (.lexical ⟨Rule.leadingZero, ⟨[], 1, 7, 6⟩⟩) ∧
    lex { rejectLeadingZeros := true } [] "10 0x \"".toList = lex {} [] "10 0x \"".toList := by
  have h : lex {} [] "0.5 -007".toList = .ok [⟨.decimal, ['0', '.', '5'], 0⟩,
      ⟨.integer, ['-', '0'], 4⟩, ⟨.integer, ['0'], 6⟩, ⟨.integer, ['7'], 7⟩] := by cbv
  refine ⟨h, ?_, ?_⟩
  · apply (lex_rejectLeadingZeros {} [] "0.5 -007".toList).2.1 ⟨.integer, ['-', '0'], 4⟩
    rw [Options.rejecting, produced_of_lex h]
    decide
  · apply (lex_rejectLeadingZeros {} [] "10 0x \"".toList).1
    cbv

def Options.hyphenating (b : Bool) (o : Options) : Options := { o with identifierHyphens := b }

def Token.hyphenated (u : Token) : Bool := u.kind = .identifier && u.lexeme.contains '-'

def Text.beforeHyphen (t : Text) : Text := t.takeWhile (· != '-')

theorem Text.ne_hyphen_of_mem {t : Text} {c : Char} (h : c ∈ t.beforeHyphen) : c ≠ '-' := by
  have hc : (c != '-') = true := List.mem_takeWhile_imp (p := (· != '-')) h
  simpa using hc

theorem Text.beforeHyphen_append (t : Text) : t.beforeHyphen ++ t.dropWhile (· != '-') = t :=
  List.takeWhile_append_dropWhile

theorem mem_identifierPart_hyphenating (o : Options) (c : Char) :
    (o.hyphenating false).identifierPart.mem c = true ↔
      (o.hyphenating true).identifierPart.mem c = true ∧ c ≠ '-' := by
  have hhyphen : CharClass.identifierPartNoHyphen.mem '-' = false := by decide
  change CharClass.identifierPartNoHyphen.mem c = true ↔ CharClass.identifierPart.mem c = true ∧ _
  constructor
  · intro hc
    refine ⟨?_, CharClass.ne_of_mem hc hhyphen⟩
    simp only [CharClass.mem] at hc ⊢
    rw [hc, Bool.true_or]
  · rintro ⟨hc, hne⟩
    simpa [CharClass.mem, hne] using hc

theorem beforeHyphen_mem_identifier {w : Text} (h : w ∈ identifier (o.hyphenating true)) :
    w.beforeHyphen ∈ identifier (o.hyphenating false) := by
  obtain ⟨c, v, hc, hv, rfl⟩ := mem_identifier.mp h
  have hne : c ≠ '-' := CharClass.ne_of_mem hc rfl
  have hw : Text.beforeHyphen (c :: v) = c :: Text.beforeHyphen v := by
    simp [Text.beforeHyphen, hne]
  rw [hw]
  refine mem_identifier.mpr ⟨c, _, hc, fun d hd => ?_, rfl⟩
  rw [mem_identifierPart_hyphenating]
  exact ⟨hv d ((List.takeWhile_sublist _).mem hd), Text.ne_hyphen_of_mem hd⟩

theorem Ends.beforeHyphen {w rest : Text} (h : Ends (o.hyphenating true) .identifier w rest) :
    Ends (o.hyphenating false) .identifier w.beforeHyphen (w.dropWhile (· != '-') ++ rest) := by
  refine ⟨beforeHyphen_mem_identifier h.mem, fun tests htests => ?_⟩
  obtain rfl := List.mem_singleton.mp htests
  rw [← Bool.not_eq_true, Text.starts_singleton]
  rintro ⟨c, t, hct, hc⟩
  rw [mem_identifierPart_hyphenating] at hc
  cases hw : w.dropWhile (· != '-') with
  | nil =>
    -- Without a hyphen nothing is cut off, and the next character is no part in either run.
    have hfollow := h.follow _ (List.mem_singleton_self _)
    rw [hw, List.nil_append] at hct
    rw [hct] at hfollow
    simp [Text.starts, hc.1] at hfollow
  | cons d x =>
    have hd := List.head?_dropWhile_not (· != '-') w
    rw [hw] at hd
    rw [hw, List.cons_append] at hct
    obtain ⟨rfl, -⟩ := List.cons.inj hct
    exact hc.2 (by simpa using hd)

theorem sameBut_hyphenating (o : Options) (source : Text) :
    SameBut (o.hyphenating true) (o.hyphenating false) source Token.hyphenated where
  isBlank := rfl
  diagnosis h := h.of_imp id
  ends {k w rest i} _ hp h := by
    cases k with
    | identifier =>
      have hmem : ∀ c ∈ w, (c != '-') = true := by
        rintro c hc
        simp only [Token.hyphenated] at hp
        rw [bne_iff_ne]
        rintro rfl
        simp [hc] at hp
      have hcut := h.beforeHyphen
      rwa [Text.beforeHyphen, List.takeWhile_eq_self_iff.mpr hmem,
        List.dropWhile_eq_nil_iff.mpr hmem, List.nil_append] at hcut
    | integer => exact ⟨h.mem, h.follow⟩
    | decimal => exact ⟨h.mem, h.follow⟩
    | character => exact ⟨h.mem, h.follow⟩
    | string => exact ⟨h.mem, h.follow⟩
    | operator => exact ⟨h.mem, h.follow⟩

theorem produced_of_hyphenated {u : Token}
    (hu : (produced (o.hyphenating true) source).find? Token.hyphenated = some u) :
    ∃ us, produced (o.hyphenating false) source =
      (produced (o.hyphenating true) source).takeWhile (fun v => !v.hyphenated) ++
        ⟨.identifier, u.lexeme.beforeHyphen, u.offset⟩ :: us := by
  obtain ⟨ps, rest, hps, hoffset, -, hb, hw, hoff⟩ :=
    (scans_of _ source).exists_first (sameBut_hyphenating o source) (i := 0) rfl hu
  have hk : u.kind = .identifier := by
    have hp := List.find?_some hu
    simp only [Token.hyphenated, Bool.and_eq_true, decide_eq_true_eq] at hp
    exact hp.1
  rw [hk] at hw
  have hcut := hw.beforeHyphen
  have hlexeme := u.lexeme.beforeHyphen_append
  have hb' : ∀ c ∈ u.lexeme.beforeHyphen.head?, (o.hyphenating false).isBlank c = false := by
    rw [← hlexeme, List.head?_append_of_ne_nil _ (ne_nil_of_mem hcut.mem)] at hb
    exact hb
  have hscan := Scans.lexeme hb' hcut (scans_of _ _)
  rw [← List.append_assoc, hlexeme] at hscan
  rw [produced_of_scans (hoff _ hscan), tokens_append, hps, hoffset]
  exact ⟨_, rfl⟩

theorem not_hyphenated_of_mem {u : Token} (hu : u ∈ produced (o.hyphenating false) source) :
    u.hyphenated = false := by
  obtain ⟨xs, k, w, ys, hps, rfl⟩ := mem_tokens.mp hu
  have hw : w ∈ lexemes (o.hyphenating false) k := by
    apply And.left
    apply (scans_of _ source).valid (.lexeme k w)
    rw [hps]
    exact List.mem_append_right _ (List.mem_cons_self ..)
  rw [← Bool.not_eq_true]
  intro h
  simp only [Token.hyphenated, Bool.and_eq_true, decide_eq_true_eq, List.contains_iff_mem] at h
  obtain ⟨rfl, hhyphen⟩ := h
  obtain ⟨c, v, hc, hv, rfl⟩ := mem_identifier.mp hw
  rcases List.mem_cons.mp hhyphen with rfl | hmem
  · cases hc
  · cases hv '-' hmem

theorem lex_hyphens (o : Options) (filename source : Text) :
    let off := o.hyphenating false
    let on := o.hyphenating true
    ((produced on source).find? Token.hyphenated = none →
      lex off filename source = lex on filename source) ∧
    (∀ u, (produced on source).find? Token.hyphenated = some u →
      ∃ us, produced off source = (produced on source).takeWhile (fun v => !v.hyphenated) ++
        ⟨.identifier, u.lexeme.beforeHyphen, u.offset⟩ :: us) ∧
    ∀ u ∈ produced off source, u.hyphenated = false :=
  ⟨fun hu => lex_of_sameBut (sameBut_hyphenating o source) hu filename,
    fun _ hu => produced_of_hyphenated hu, fun _ hu => not_hyphenated_of_mem hu⟩

theorem lex_hyphens_number :
    lex {} [] "b a-1.5".toList = .ok [⟨.identifier, ['b'], 0⟩, ⟨.identifier, ['a', '-', '1'], 2⟩,
      ⟨.operator, ['.'], 5⟩, ⟨.integer, ['5'], 6⟩] ∧
    (∃ us, produced { identifierHyphens := false } "b a-1.5".toList =
      ⟨.identifier, ['b'], 0⟩ :: ⟨.identifier, ['a'], 2⟩ :: us) ∧
    lex { identifierHyphens := false } [] "a -1.5 '".toList = lex {} [] "a -1.5 '".toList := by
  have h : lex {} [] "b a-1.5".toList = .ok [⟨.identifier, ['b'], 0⟩,
      ⟨.identifier, ['a', '-', '1'], 2⟩, ⟨.operator, ['.'], 5⟩, ⟨.integer, ['5'], 6⟩] := by cbv
  have hp : produced (Options.hyphenating true {}) "b a-1.5".toList = _ := produced_of_lex h
  refine ⟨h, ?_, ?_⟩
  · have hcut := (lex_hyphens {} [] "b a-1.5".toList).2.1 ⟨.identifier, ['a', '-', '1'], 2⟩
    rw [hp] at hcut
    exact hcut rfl
  · apply (lex_hyphens {} [] "a -1.5 '".toList).1
    cbv

end PlcScan
