import PlcScan.Proofs.DecimalNotation
import PlcScan.Proofs.Encoding

namespace PlcScan

open Grammar

namespace Text

def withoutPlus : Text → Text
  | '+' :: t => t
  | t => t

def plainInteger (t : Text) : Text := if t = ['-', '0'] then ['0'] else t.withoutPlus

def afterDot (t : Text) : Text := (t.dropWhile (· != '.')).tail

def escapes : Text → ℕ
  | '\\' :: _ :: t => escapes t + 1
  | _ :: t => escapes t
  | [] => 0

theorem escapes_raw {c : Char} (hc : c ≠ '\\') (t : Text) : escapes (c :: t) = escapes t := by
  rw [escapes.eq_2 _ _ (by simp [hc])]

def digitCount (t : Text) : ℕ := t.countP Char.isDigit

end Text

theorem isDigit_of_mem_natural {n : Text} (hn : n ∈ natural) : ∀ d ∈ n, d.isDigit = true := by
  rcases mem_natural.mp hn with rfl | ⟨d, ds, hd, hds, rfl⟩
  · simp
  · exact List.forall_mem_cons.mpr ⟨CharClass.digit_of_nonzeroDigit hd, hds⟩

theorem ne_nil_of_mem_natural {n : Text} (hn : n ∈ natural) : n ≠ [] := by
  rcases mem_natural.mp hn with rfl | ⟨d, ds, -, -, rfl⟩ <;> simp

theorem head?_of_mem_natural {n : Text} (hn : n ∈ natural) (hz : n ≠ ['0']) :
    n.head? ≠ some '0' := by
  rcases mem_natural.mp hn with rfl | ⟨d, ds, hd, -, rfl⟩
  · exact absurd rfl hz
  · simpa using CharClass.ne_of_mem hd (d := '0') rfl

theorem readSign_append {s t : Text} (hs : s ∈ sign) (ht : t.starts [CharClass.digit.mem] = true) :
    (s ++ t).readSign = (s == ['-'], t) := by
  obtain ⟨d, u, rfl, hd⟩ := Text.starts_singleton.mp ht
  rcases mem_sign.mp hs with rfl | ⟨c, hc, rfl⟩
  · have hp : d ≠ '+' := CharClass.ne_of_mem hd rfl
    have hm : d ≠ '-' := CharClass.ne_of_mem hd rfl
    simp [Text.readSign, hp, hm]
  · rcases CharClass.eq_of_sign hc with rfl | rfl <;> rfl

theorem withoutPlus_append {s t : Text} (hs : s ∈ sign)
    (ht : t.starts [CharClass.digit.mem] = true) :
    (s ++ t).withoutPlus = if s = ['-'] then '-' :: t else t := by
  obtain ⟨d, u, rfl, hd⟩ := Text.starts_singleton.mp ht
  rcases mem_sign.mp hs with rfl | ⟨c, hc, rfl⟩
  · have hp : d ≠ '+' := CharClass.ne_of_mem hd rfl
    simp [Text.withoutPlus, hp]
  · rcases CharClass.eq_of_sign hc with rfl | rfl <;> rfl

theorem digitCount_append {s n : Text} (hs : s ∈ sign) (hn : n ∈ natural) :
    (s ++ n).digitCount = n.length := by
  have hzero : s.countP Char.isDigit = 0 := by
    rcases mem_sign.mp hs with rfl | ⟨c, hc, rfl⟩
    · rfl
    · rcases CharClass.eq_of_sign hc with rfl | rfl <;> rfl
  rw [Text.digitCount, List.countP_append, hzero, Nat.zero_add, List.countP_eq_length]
  exact isDigit_of_mem_natural hn

theorem toInt_append {s n : Text} (hs : s ∈ sign) (hn : n ∈ natural) : (s ++ n).toInt =
    if 4300 < n.length then .error (.tooManyDigits n.length)
    else .ok (if s = ['-'] then -(Text.toNat n : ℤ) else Text.toNat n) := by
  have hstarts : n.starts [CharClass.digit.mem] = true := by
    simpa using Rule.starts_natural hn []
  have hdigits : n.takeWhile Char.isDigit = n :=
    List.takeWhile_eq_self_iff.mpr (isDigit_of_mem_natural hn)
  have hne : n ≠ [] := ne_nil_of_mem_natural hn
  simp [Text.toInt, readSign_append hs hstarts, hdigits, hne, digitLimit]

theorem ofInt_toInt {s n : Text} (hs : s ∈ sign) (hn : n ∈ natural) :
    Text.ofInt (if s = ['-'] then -(Text.toNat n : ℤ) else Text.toNat n) =
      (s ++ n).plainInteger := by
  have hstarts : n.starts [CharClass.digit.mem] = true := by
    simpa using Rule.starts_natural hn []
  by_cases hz : n = ['0']
  · subst hz
    rcases mem_sign.mp hs with rfl | ⟨c, hc, rfl⟩
    · rfl
    · rcases CharClass.eq_of_sign hc with rfl | rfl <;> rfl
  have hne : n ≠ [] := ne_nil_of_mem_natural hn
  have hdigits := isDigit_of_mem_natural hn
  have hhead := head?_of_mem_natural hn hz
  have hwritten : Text.ofNat (Text.toNat n) = n := Text.ofNat_toNat hne hdigits hhead
  have hplain : s ++ n ≠ ['-', '0'] := by
    intro h
    rcases mem_sign.mp hs with rfl | ⟨c, -, rfl⟩
    · rw [List.nil_append] at h
      have hminus : Char.isDigit '-' = true := hdigits '-' (by simp [h])
      cases hminus
    · exact hz (List.cons.inj h).2
  rw [Text.plainInteger, if_neg hplain, withoutPlus_append hs hstarts]
  split
  · obtain ⟨m, hm⟩ := Nat.exists_eq_succ_of_ne_zero (Text.toNat_pos hne hdigits hhead).ne'
    rw [hm] at hwritten ⊢
    exact congrArg ('-' :: ·) hwritten
  · exact hwritten

theorem value_integer {u : Token} (hk : u.kind = .integer) (hw : u.lexeme ∈ integer) :
    if 4300 < u.lexeme.digitCount then u.value = .error (.tooManyDigits u.lexeme.digitCount)
    else ∃ n, u.value = .ok (.integer n) ∧ Text.ofInt n = u.lexeme.plainInteger := by
  obtain ⟨s, hs, n, hn, he⟩ := hw
  replace he : u.lexeme = s ++ n := he.symm
  rw [he, digitCount_append hs hn]
  have hvalue : u.value = (Text.toInt (s ++ n)).map .integer := by
    rw [Token.value, hk, he]
  rw [hvalue, toInt_append hs hn, ← ofInt_toInt hs hn]
  split
  · rfl
  · exact ⟨_, rfl, rfl⟩

theorem ofText?_append {s n ds : Text} (hs : s ∈ sign) (hn : n ∈ natural)
    (hds : ∀ d ∈ ds, d.isDigit = true) : Decimal.ofText? (s ++ (n ++ '.' :: ds)) =
      some ⟨s == ['-'], Text.toNat (n ++ ds), -ds.length⟩ := by
  have hsign := readSign_append hs (Rule.starts_natural hn ('.' :: ds))
  rw [Text.readSign_eq, Prod.mk.injEq] at hsign
  have hparts : Decimal.Parts (s ++ (n ++ '.' :: ds)).unsigned n ds :=
    ⟨List.forall_mem_append.mpr ⟨isDigit_of_mem_natural hn, hds⟩, by simp [ne_nil_of_mem_natural hn],
      .inl hsign.2⟩
  rw [Decimal.ofText?_of_parts hparts, hsign.1]

theorem pad_natural {n ds : Text} (hn : n ∈ natural) (hds : ∀ d ∈ ds, d.isDigit = true) :
    Text.pad (ds.length + 1) (Text.ofNat (Text.toNat (n ++ ds))) = n ++ ds := by
  have hne : n ++ ds ≠ [] := by simp [ne_nil_of_mem_natural hn]
  have hdigits : ∀ d ∈ n ++ ds, d.isDigit = true :=
    List.forall_mem_append.mpr ⟨isDigit_of_mem_natural hn, hds⟩
  by_cases hz : n = ['0']
  · subst hz
    exact Text.pad_ofNat_toNat hne hdigits
  · have hhead : (n ++ ds).head? ≠ some '0' := by
      rw [List.head?_append_of_ne_nil _ (ne_nil_of_mem_natural hn)]
      exact head?_of_mem_natural hn hz
    have hlen : 1 ≤ n.length := List.length_pos_of_ne_nil (ne_nil_of_mem_natural hn)
    have hzeros : ds.length + 1 - (n ++ ds).length = 0 := by
      rw [List.length_append]
      omega
    rw [Text.ofNat_toNat hne hdigits hhead, Text.pad, hzeros]
    rfl

theorem dot_not_mem_sign {s : Text} (hs : s ∈ sign) : '.' ∉ s := by
  rcases mem_sign.mp hs with rfl | ⟨c, hc, rfl⟩
  · exact List.not_mem_nil
  · rcases CharClass.eq_of_sign hc with rfl | rfl <;> decide

theorem ne_dot_of_not_mem {t : Text} (ht : '.' ∉ t) : ∀ c ∈ t, (c != '.') = true :=
  fun _ hc => bne_iff_ne.mpr fun h => ht (h ▸ hc)

theorem afterDot_append {t : Text} (ht : '.' ∉ t) (ds : Text) : (t ++ '.' :: ds).afterDot = ds := by
  rw [Text.afterDot, List.dropWhile_append_of_pos (ne_dot_of_not_mem ht),
    List.dropWhile_cons_of_neg (by simp)]
  rfl

theorem afterDot_of_not_mem {t : Text} (ht : '.' ∉ t) : t.afterDot = [] := by
  rw [Text.afterDot, List.dropWhile_eq_nil_iff.mpr (ne_dot_of_not_mem ht)]
  rfl

theorem value_decimal {u : Token} (hk : u.kind = .decimal) (hw : u.lexeme ∈ decimal) :
    ∃ d, u.value = .ok (.decimal d) ∧ d.exponent = -(u.lexeme.afterDot.length : ℤ) ∧
      (-6 ≤ d.adjusted → d.text = u.lexeme.withoutPlus) := by
  obtain ⟨_, ⟨s, hs, n, hn, rfl⟩, d, ds, hd, hds, he⟩ := mem_decimal.mp hw
  replace he : u.lexeme = s ++ (n ++ '.' :: d :: ds) := by rw [he]; simp
  have hdigits : ∀ c ∈ d :: ds, c.isDigit = true := List.forall_mem_cons.mpr ⟨hd, hds⟩
  have hdot : '.' ∉ s ++ n := by
    rw [List.mem_append, not_or]
    exact ⟨dot_not_mem_sign hs, fun h => Bool.false_ne_true (isDigit_of_mem_natural hn '.' h)⟩
  rw [he, ← List.append_assoc, afterDot_append hdot, List.append_assoc,
    withoutPlus_append hs (Rule.starts_natural hn _)]
  refine ⟨⟨s == ['-'], Text.toNat (n ++ d :: ds), -(d :: ds).length⟩, ?_, rfl, ?_⟩
  · rw [Token.value, hk, he, ofText?_append hs hn hdigits]
  · intro hadjusted
    have hplain := Decimal.plain_eq (by simp) (pad_natural hn hdigits)
    have hnotation : (-((d :: ds).length : ℤ) ≤ 0 && -6 ≤ Decimal.adjusted
        ⟨s == ['-'], Text.toNat (n ++ d :: ds), -(d :: ds).length⟩) = true := by
      rw [Bool.and_eq_true, decide_eq_true_eq, decide_eq_true_eq]
      exact ⟨by omega, hadjusted⟩
    have hplaces : (- -((d :: ds).length : ℤ)).toNat = (d :: ds).length := by
      rw [neg_neg, Int.toNat_natCast]
    simp only [Decimal.text, Decimal.digits, hnotation, hplaces, hplain, if_true, beq_iff_eq]

theorem Encodes.length_eq {q : Char} {v e : Text} (h : Encodes q v e) :
    v.length + e.escapes = e.length := by
  induction h with
  | nil => rfl
  | cons hs _ ih =>
    cases hs with
    | raw hslash =>
      rw [List.singleton_append, Text.escapes_raw hslash, List.length_cons, List.length_cons]
      omega
    | escape =>
      simp only [List.cons_append, List.nil_append, Text.escapes, List.length_cons]
      omega

theorem value_string {u : Token} (hk : u.kind = .string) (hw : u.lexeme ∈ string) :
    ∃ v, u.value = .ok (.text v) ∧ v.length + u.body.escapes = u.body.length := by
  obtain ⟨v, e, he, hlexeme⟩ := mem_string_iff.mp hw
  refine ⟨v, value_of_encodes (.inl hk) hlexeme he, ?_⟩
  rw [body_enclose hlexeme]
  exact he.length_eq

theorem value_character {u : Token} (hk : u.kind = .character) (hw : u.lexeme ∈ character) :
    ∃ c, u.value = .ok (.text [c]) := by
  obtain ⟨c, e, he, hlexeme⟩ := mem_character_iff.mp hw
  exact ⟨c, value_of_encodes (.inr hk) hlexeme he⟩

theorem value_ok {u : Token} {o : Options} (hw : u.lexeme ∈ lexemes o u.kind)
    (hk : u.kind ≠ .integer) : ∃ v, u.value = .ok v := by
  cases hkind : u.kind with
  | identifier => exact ⟨.text u.lexeme, by rw [Token.value, hkind]⟩
  | operator => exact ⟨.text u.lexeme, by rw [Token.value, hkind]⟩
  | integer => exact absurd hkind hk
  | decimal =>
    rw [hkind] at hw
    obtain ⟨d, hd, -⟩ := value_decimal hkind hw
    exact ⟨_, hd⟩
  | character =>
    rw [hkind] at hw
    obtain ⟨c, hc⟩ := value_character hkind hw
    exact ⟨_, hc⟩
  | string =>
    rw [hkind] at hw
    obtain ⟨v, hv, -⟩ := value_string hkind hw
    exact ⟨_, hv⟩

theorem value_error_iff {u : Token} {o : Options} (hw : u.lexeme ∈ lexemes o u.kind)
    (fault : ValueFault) : u.value = .error fault ↔
      u.kind = .integer ∧ 4300 < u.lexeme.digitCount ∧
        fault = .tooManyDigits u.lexeme.digitCount := by
  by_cases hk : u.kind = .integer
  · have hi : u.lexeme ∈ integer := by rwa [hk] at hw
    have hvalue := value_integer hk hi
    by_cases hlimit : 4300 < u.lexeme.digitCount
    · rw [if_pos hlimit] at hvalue
      simp [hvalue, hk, hlimit, eq_comm]
    · rw [if_neg hlimit] at hvalue
      obtain ⟨n, hn, -⟩ := hvalue
      simp [hn, hlimit]
  · obtain ⟨v, hv⟩ := value_ok hw hk
    simp [hv, hk]

theorem value_of_scanned {o : Options} {filename source : Text} {ts : List Token} {u : Token}
    (h : lex o filename source = .ok ts) (hu : u ∈ ts) :
    (∀ fault, u.value = .error fault ↔ u.kind = .integer ∧ 4300 < u.lexeme.digitCount ∧
      fault = .tooManyDigits u.lexeme.digitCount) ∧
    (u.kind = .integer → u.lexeme.digitCount ≤ 4300 →
      ∃ n, u.value = .ok (.integer n) ∧ Text.ofInt n = u.lexeme.plainInteger) ∧
    (u.kind = .decimal → ∃ d, u.value = .ok (.decimal d) ∧
      d.exponent = -(u.lexeme.afterDot.length : ℤ) ∧
      (-6 ≤ d.adjusted → d.text = u.lexeme.withoutPlus)) ∧
    (u.kind = .string →
      ∃ v, u.value = .ok (.text v) ∧ v.length + u.body.escapes = u.body.length) ∧
    (u.kind = .character → ∃ c, u.value = .ok (.text [c])) ∧
    (u.kind = .identifier ∨ u.kind = .operator → u.value = .ok (.text u.lexeme)) := by
  have hw := (mem_lexemes_of_mem h hu).1
  refine ⟨value_error_iff hw, fun hk hlimit => ?_, fun hk => ?_, fun hk => ?_, fun hk => ?_, ?_⟩
  · rw [hk] at hw
    have hvalue := value_integer hk hw
    rwa [if_neg (Nat.not_lt.mpr hlimit)] at hvalue
  · rw [hk] at hw
    exact value_decimal hk hw
  · rw [hk] at hw
    exact value_string hk hw
  · rw [hk] at hw
    exact value_character hk hw
  · rintro (hk | hk) <;> rw [Token.value, hk]

theorem value_of_scanned_signed :
    lex {} [] "-0 +1.50".toList = .ok [⟨.integer, ['-', '0'], 0⟩, ⟨.decimal, "+1.50".toList, 3⟩] ∧
    (∃ n, Token.value ⟨.integer, ['-', '0'], 0⟩ = .ok (.integer n) ∧ Text.ofInt n = ['0']) ∧
    ∃ d, Token.value ⟨.decimal, "+1.50".toList, 3⟩ = .ok (.decimal d) ∧ d.exponent = -2 ∧
      (-6 ≤ d.adjusted → d.text = "1.50".toList) := by
  have h : lex {} [] "-0 +1.50".toList =
      .ok [⟨.integer, ['-', '0'], 0⟩, ⟨.decimal, "+1.50".toList, 3⟩] := by cbv
  have hinteger := (value_of_scanned h (List.mem_cons_self ..)).2.1 rfl (by decide)
  have hdecimal := (value_of_scanned h (List.mem_cons_of_mem _ (List.mem_cons_self ..))).2.2.1 rfl
  exact ⟨h, hinteger, hdecimal⟩

end PlcScan
