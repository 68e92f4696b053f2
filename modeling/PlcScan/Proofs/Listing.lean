import Mathlib
import PlcScan.CommandLine.Run
import PlcScan.Proofs.QuotedTexts

/-!
What is printed about a text. Numerals, quoted texts and names of kinds are printable, so that the
separators of the listing stand between its columns and nowhere else.
-/

namespace PlcScan

namespace Text

def Printable (t : Text) : Prop := ∀ c ∈ t, isPrintable c = true

theorem Printable.append {t u : Text} (ht : Printable t) (hu : Printable u) : Printable (t ++ u) :=
  List.forall_mem_append.mpr ⟨ht, hu⟩

theorem Printable.cons {c : Char} {t : Text} (hc : isPrintable c = true) (ht : Printable t) :
    Printable (c :: t) :=
  List.forall_mem_cons.mpr ⟨hc, ht⟩

theorem Printable.of_all {t : Text} (h : t.all isPrintable = true) : Printable t :=
  List.all_eq_true.mp h

theorem Printable.not_mem {t : Text} (ht : Printable t) {c : Char} (hc : isPrintable c = false) :
    c ∉ t :=
  fun hmem => Bool.false_ne_true (hc.symm.trans (ht c hmem))

theorem printable_digitChar : ∀ d < 16, isPrintable (Nat.digitChar d) = true := by
  decide

theorem printable_ofNat (n : ℕ) : Printable (ofNat n) := by
  intro c hc
  obtain ⟨d, hd, rfl⟩ := exists_digitChar (by decide) hc
  exact printable_digitChar d (by omega)

theorem printable_ofInt (n : ℤ) : Printable (ofInt n) := by
  cases n with
  | ofNat n => exact printable_ofNat n
  | negSucc n => exact (printable_ofNat (n + 1)).cons (by decide)

theorem printable_ofNatHex (width n : ℕ) : Printable (ofNatHex width n) := by
  intro c hc
  obtain ⟨d, hd, rfl⟩ := exists_digitChar_hex hc
  exact printable_digitChar d hd

theorem printable_delimiter (t : Text) : isPrintable (delimiter t) = true := by
  rw [delimiter]
  split <;> decide

theorem printable_quoteChar {d : Char} (hd : isPrintable d = true) (c : Char) :
    Printable (quoteChar d c) := by
  have hslash : isPrintable '\\' = true := by decide
  have hletter {e : Char} (he : isPrintable e = true) : Printable ['\\', e] :=
    .cons hslash (.cons he (List.forall_mem_nil _))
  have hhex {e : Char} (he : isPrintable e = true) (width : ℕ) :
      Printable ('\\' :: e :: ofNatHex width c.toNat) :=
    .cons hslash (.cons he (printable_ofNatHex width _))
  fun_cases quoteChar d c with
  | case1 h =>
    rw [Bool.or_eq_true, decide_eq_true_eq, decide_eq_true_eq] at h
    rcases h with rfl | rfl
    · exact hletter hd
    · exact hletter hslash
  | case2 => exact hletter (by decide)
  | case3 => exact hletter (by decide)
  | case4 => exact hletter (by decide)
  | case5 _ _ _ _ hc => exact List.forall_mem_singleton.mpr hc
  | case6 => exact hhex (by decide) 2
  | case7 => exact hhex (by decide) 4
  | case8 => exact hhex (by decide) 8

theorem printable_quote (t : Text) : Printable (quote t) := by
  have hd := printable_delimiter t
  refine .append (.cons hd fun c hc => ?_) (List.forall_mem_singleton.mpr hd)
  obtain ⟨e, -, he⟩ := List.mem_flatMap.mp hc
  exact printable_quoteChar hd e c he

end Text

/-! Separated parts. -/

namespace Text

theorem fields_of_not_mem {separator : Char} {t : Text} (h : separator ∉ t) :
    fields separator t = [t] := by
  induction t with
  | nil => rfl
  | cons c t ih =>
    rw [List.mem_cons, not_or] at h
    rw [fields, if_neg (Ne.symm h.1), ih h.2]

theorem fields_append {separator : Char} {t : Text} (h : separator ∉ t) (u : Text) :
    fields separator (t ++ separator :: u) = t :: fields separator u := by
  induction t with
  | nil => rw [List.nil_append, fields, if_pos rfl]
  | cons c t ih =>
    rw [List.mem_cons, not_or] at h
    rw [List.cons_append, fields, if_neg (Ne.symm h.1), ih h.2]

theorem append_separator_inj {separator : Char} {a b t u : Text} (ha : separator ∉ a)
    (hb : separator ∉ b) (h : a ++ separator :: t = b ++ separator :: u) : a = b ∧ t = u := by
  have hfields := congrArg (fields separator) h
  rw [fields_append ha, fields_append hb] at hfields
  obtain rfl := (List.cons.inj hfields).1
  exact ⟨rfl, (List.cons.inj (List.append_cancel_left h)).2⟩

theorem last_separator_inj {separator : Char} {a b t u : Text} (ht : separator ∉ t)
    (hu : separator ∉ u) (h : a ++ separator :: t = b ++ separator :: u) : a = b ∧ t = u := by
  have hrev := congrArg List.reverse h
  simp only [List.reverse_append, List.reverse_cons, List.append_assoc, List.singleton_append]
    at hrev
  obtain ⟨htail, hfront⟩ := append_separator_inj (by simpa using ht) (by simpa using hu) hrev
  exact ⟨List.reverse_inj.mp hfront, List.reverse_inj.mp htail⟩

theorem lines_cons (t : Text) (ts : List Text) : lines (t :: ts) = t ++ '\n' :: lines ts := by
  simp [lines]

theorem fields_lines {ts : List Text} (h : ∀ t ∈ ts, '\n' ∉ t) :
    fields '\n' (lines ts) = ts ++ [[]] := by
  induction ts with
  | nil => rfl
  | cons t ts ih =>
    obtain ⟨ht, hts⟩ := List.forall_mem_cons.mp h
    rw [lines_cons, fields_append ht, ih hts]
    rfl

end Text

theorem Kind.printable_name (k : Kind) : k.name.Printable := by
  -- The names are opened by hand, since evaluation does not get through the match on kinds.
  cases k with
  | identifier => exact .of_all (t := "IDENTIFIER".toList) (by cbv)
  | integer => exact .of_all (t := "INTEGER".toList) (by cbv)
  | decimal => exact .of_all (t := "DECIMAL".toList) (by cbv)
  | character => exact .of_all (t := "CHARACTER".toList) (by cbv)
  | string => exact .of_all (t := "STRING".toList) (by cbv)
  | operator => exact .of_all (t := "OPERATOR".toList) (by cbv)

namespace CommandLine

/-- The parts at one place of the lines of a listing. -/
def column (i : ℕ) (out : Text) : List (Option Text) :=
  (out.fields '\n').map fun line => (Text.fields '\t' line)[i]?

theorem fields_listing (u : Token) :
    Text.fields '\t' (listing u) = [u.kind.name, Text.ofInt u.offset, u.lexeme.quote] := by
  have htab : Text.isPrintable '\t' = false := by decide
  rw [listing, List.append_assoc, List.cons_append,
    Text.fields_append (u.kind.printable_name.not_mem htab),
    Text.fields_append ((Text.printable_ofInt u.offset).not_mem htab),
    Text.fields_of_not_mem ((Text.printable_quote u.lexeme).not_mem htab)]

theorem lineFeed_not_mem_listing (u : Token) : '\n' ∉ listing u := by
  have hfeed : Text.isPrintable '\n' = false := by decide
  have hkind := u.kind.printable_name.not_mem hfeed
  have hoffset := (Text.printable_ofInt u.offset).not_mem hfeed
  have hlexeme := (Text.printable_quote u.lexeme).not_mem hfeed
  simp [listing, hkind, hoffset, hlexeme]

theorem column_listing (i : ℕ) (us : List Token) :
    column i (Text.lines (us.map listing)) =
      us.map (fun u => [u.kind.name, Text.ofInt u.offset, u.lexeme.quote][i]?) ++
        [(Text.fields '\t' [])[i]?] := by
  rw [column, Text.fields_lines (by simp [lineFeed_not_mem_listing]), List.map_append,
    List.map_map]
  congr 1
  apply List.map_congr_left
  intro u _
  rw [Function.comp_apply, fields_listing]

end CommandLine

end PlcScan
