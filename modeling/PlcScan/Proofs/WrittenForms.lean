import PlcScan.Proofs.StandardOutput

namespace PlcScan

namespace Text

/-- The offsets at which a character stands unescaped in a text that begins at offset `i`: a
backslash takes away the character behind it. -/
def unescapedAt (d : Char) : (i : ℕ) → Text → List ℕ
  | _, [] => []
  | i, '\\' :: _ :: t => unescapedAt d (i + 2) t
  | i, c :: t => (if c = d then [i] else []) ++ unescapedAt d (i + 1) t

variable {d : Char}

theorem unescapedAt_raw {c : Char} (hc : c ≠ '\\') (i : ℕ) (t : Text) :
    unescapedAt d i (c :: t) = (if c = d then [i] else []) ++ unescapedAt d (i + 1) t := by
  rw [unescapedAt]
  simp [hc]

theorem unescapedAt_append {w : Text} (hw : ∀ c ∈ w, c ≠ '\\' ∧ c ≠ d) (i : ℕ) (t : Text) :
    unescapedAt d i (w ++ t) = unescapedAt d (i + w.length) t := by
  induction w generalizing i with
  | nil => rfl
  | cons c w ih =>
    obtain ⟨⟨hslash, hd⟩, hw⟩ := List.forall_mem_cons.mp hw
    rw [List.cons_append, unescapedAt_raw hslash, if_neg hd, List.nil_append, ih hw,
      List.length_cons, Nat.add_assoc, Nat.add_comm 1]

theorem unescapedAt_escape (x : Char) {w : Text} (hw : ∀ c ∈ w, c ≠ '\\' ∧ c ≠ d) (i : ℕ)
    (t : Text) :
    unescapedAt d i ('\\' :: x :: w ++ t) = unescapedAt d (i + ('\\' :: x :: w).length) t := by
  rw [List.cons_append, List.cons_append, unescapedAt, unescapedAt_append hw]
  congr 1
  simp only [List.length_cons]
  omega

theorem unescapedAt_quoteChar (hd : d = '\'' ∨ d = '"') (c : Char) (i : ℕ) (t : Text) :
    unescapedAt d i (quoteChar d c ++ t) = unescapedAt d (i + (quoteChar d c).length) t := by
  have hplain : ∀ n < 16, Nat.digitChar n ≠ '\\' ∧ Nat.digitChar n ≠ d := by
    rcases hd with rfl | rfl <;> decide
  have hhex (x : Char) (width : ℕ) : unescapedAt d i ('\\' :: x :: ofNatHex width c.toNat ++ t) =
      unescapedAt d (i + ('\\' :: x :: ofNatHex width c.toNat).length) t := by
    apply unescapedAt_escape
    intro e he
    obtain ⟨n, hn, rfl⟩ := exists_digitChar_hex he
    exact hplain n hn
  fun_cases quoteChar d c with
  | case1 => exact unescapedAt_escape c (List.forall_mem_nil _) i t
  | case2 => exact unescapedAt_escape 'n' (List.forall_mem_nil _) i t
  | case3 => exact unescapedAt_escape 'r' (List.forall_mem_nil _) i t
  | case4 => exact unescapedAt_escape 't' (List.forall_mem_nil _) i t
  | case5 h =>
    rw [Bool.or_eq_true, decide_eq_true_eq, decide_eq_true_eq, not_or] at h
    exact unescapedAt_append (List.forall_mem_singleton.mpr ⟨h.2, h.1⟩) i t
  | case6 => exact hhex 'x' 2
  | case7 => exact hhex 'u' 4
  | case8 => exact hhex 'U' 8

theorem unescapedAt_flatMap (hd : d = '\'' ∨ d = '"') (s : Text) (i : ℕ) (t : Text) :
    unescapedAt d i (s.flatMap (quoteChar d) ++ t) =
      unescapedAt d (i + (s.flatMap (quoteChar d)).length) t := by
  induction s generalizing i with
  | nil => rfl
  | cons c s ih =>
    rw [List.flatMap_cons, List.append_assoc, unescapedAt_quoteChar hd, ih, List.length_append,
      Nat.add_assoc]

theorem unescapedAt_quote (s t : Text) : unescapedAt (delimiter s) 0 (quote s ++ t) =
    [0, (quote s).length - 1] ++ unescapedAt (delimiter s) (quote s).length t := by
  have hd := delimiter_eq_or s
  have hslash : delimiter s ≠ '\\' := by rcases hd with hd | hd <;> rw [hd] <;> decide
  have hbody := unescapedAt_flatMap hd s 1 (delimiter s :: t)
  rw [unescapedAt_raw hslash, if_pos rfl] at hbody
  have hstop : (quote s).length - 1 = 1 + (s.flatMap (quoteChar (delimiter s))).length := by
    simp only [quote, List.length_append, List.length_cons, List.length_nil]
    omega
  have hlen : (quote s).length = (quote s).length - 1 + 1 := by
    simp only [quote, List.length_append, List.length_cons, List.length_nil]
    omega
  rw [hlen, Nat.add_sub_cancel, hstop]
  rw [quote, List.cons_append, List.cons_append, List.append_assoc, unescapedAt_raw hslash,
    if_pos rfl]
  exact congrArg (0 :: ·) hbody

theorem quote_append_inj {s s' t t' : Text} (h : quote s ++ t = quote s' ++ t') :
    s = s' ∧ t = t' := by
  have hd : delimiter s = delimiter s' := (List.cons.inj h).1
  have hends := unescapedAt_quote s t
  rw [h, hd, unescapedAt_quote] at hends
  have hlen : (quote s').length - 1 = (quote s).length - 1 :=
    (List.cons.inj (List.cons.inj hends).2).1
  have hpos (u : Text) : 0 < (quote u).length := List.length_pos_of_ne_nil (List.cons_ne_nil _ _)
  have hs := hpos s
  have hs' := hpos s'
  obtain ⟨hs, ht⟩ := List.append_inj h (by omega)
  exact ⟨injective_of_read unquote?_quote hs, ht⟩

end Text

open Text

theorem Kind.not_mem_name (k : Kind) : ',' ∉ k.name ∧ '(' ∉ k.name := by
  cases k <;> decide

theorem Token.detail_eq (t : Token) : t.detail = "Token(".toList ++ (t.kind.name ++ ',' :: ' ' ::
    (t.lexeme.quote ++ ',' :: ' ' :: (ofInt t.offset ++ [')']))) := by
  have hcomma : ", ".toList = [',', ' '] := rfl
  unfold detail
  simp only [hcomma, List.append_assoc, List.cons_append, List.nil_append]

theorem Location.detail_eq (l : Location) : l.detail = "SourceLocation(".toList ++
    (l.filename.quote ++ ',' :: ' ' :: (ofNat l.line ++ ',' :: ' ' :: (ofInt l.column ++
      ',' :: ' ' :: (ofInt l.offset ++ [')'])))) := by
  have hcomma : ", ".toList = [',', ' '] := rfl
  unfold detail
  simp only [hcomma, List.append_assoc, List.cons_append, List.nil_append]

theorem Token.brief_inj {t u : Token} :
    t.brief = u.brief ↔ t.kind = u.kind ∧ t.lexeme = u.lexeme := by
  constructor
  · intro h
    rw [brief, brief, List.append_assoc, List.append_assoc] at h
    obtain ⟨hkind, h⟩ := append_separator_inj t.kind.not_mem_name.2 u.kind.not_mem_name.2 h
    exact ⟨Kind.name_injective hkind, (quote_append_inj h).1⟩
  · rintro ⟨hkind, hlexeme⟩
    rw [brief, brief, hkind, hlexeme]

theorem Token.detail_inj {t u : Token} :
    t.detail = u.detail ↔ t.kind = u.kind ∧ t.lexeme = u.lexeme ∧ t.offset = u.offset := by
  constructor
  · intro h
    rw [detail_eq, detail_eq, List.append_cancel_left_eq] at h
    obtain ⟨hkind, h⟩ := append_separator_inj t.kind.not_mem_name.1 u.kind.not_mem_name.1 h
    obtain ⟨hlexeme, h⟩ := quote_append_inj (List.cons.inj h).2
    have hoffset := List.append_cancel_right (List.cons.inj (List.cons.inj h).2).2
    exact ⟨Kind.name_injective hkind, hlexeme, ofInt_injective hoffset⟩
  · rintro ⟨hkind, hlexeme, hoffset⟩
    rw [detail_eq, detail_eq, hkind, hlexeme, hoffset]

theorem Location.detail_inj {l m : Location} : l.detail = m.detail ↔
    l.filename = m.filename ∧ l.line = m.line ∧ l.column = m.column ∧ l.offset = m.offset := by
  constructor
  · intro h
    rw [detail_eq, detail_eq, List.append_cancel_left_eq] at h
    obtain ⟨hfilename, h⟩ := quote_append_inj h
    obtain ⟨hline, h⟩ := append_separator_inj (not_mem_ofNat rfl l.line) (not_mem_ofNat rfl m.line)
      (List.cons.inj (List.cons.inj h).2).2
    obtain ⟨hcolumn, h⟩ := append_separator_inj (not_mem_ofInt rfl (by decide) l.column)
      (not_mem_ofInt rfl (by decide) m.column) (List.cons.inj h).2
    have hoffset := List.append_cancel_right (List.cons.inj h).2
    exact ⟨hfilename, ofNat_injective hline, ofInt_injective hcolumn, ofInt_injective hoffset⟩
  · rintro ⟨hfilename, hline, hcolumn, hoffset⟩
    rw [detail_eq, detail_eq, hfilename, hline, hcolumn, hoffset]

theorem quote_lossless :
    (∀ s : Text, s.quote.Printable ∧ s.quote.splitLines = [s.quote] ∧
      (s.delimiter = '\'' ∨ s.delimiter = '"') ∧
      s.quote.unescapedAt s.delimiter 0 = [0, s.quote.length - 1] ∧
      unquote? s.quote = some s) ∧
    (∀ t u : Token, t.detail = u.detail ↔
      t.kind = u.kind ∧ t.lexeme = u.lexeme ∧ t.offset = u.offset) ∧
    (∀ t u : Token, t.brief = u.brief ↔ t.kind = u.kind ∧ t.lexeme = u.lexeme) ∧
    ∀ l m : Location, l.detail = m.detail ↔
      l.filename = m.filename ∧ l.line = m.line ∧ l.column = m.column ∧ l.offset = m.offset := by
  refine ⟨fun s => ⟨printable_quote s, ?_, delimiter_eq_or s, ?_, unquote?_quote s⟩,
    fun t u => Token.detail_inj, fun t u => Token.brief_inj, fun l m => Location.detail_inj⟩
  · exact splitLines_eq_self (List.cons_ne_nil _ _) (printable_quote s).not_lineBreaker
  · have hends := unescapedAt_quote s []
    rwa [List.append_nil] at hends

end PlcScan
