import PlcScan.Proofs.Lookahead

namespace PlcScan

open Grammar

namespace Munch

variable {α : Type}

@[simp]
theorem after_accept (m n : Nat) (a : α) : (accept n a).after m = accept (m + n) a := rfl

@[simp]
theorem after_refuse (m n : Nat) (f : Fault) :
    (refuse n f : Munch α).after m = refuse (m + n) f := rfl

@[simp]
theorem after_zero (m : Munch α) : m.after 0 = m := by simp [after]

theorem after_after (k l : Nat) (m : Munch α) : (m.after k).after l = m.after (l + k) := by
  simp [after, Nat.add_assoc]

end Munch

namespace CharClass

theorem ne_of_mem {k : CharClass} {c d : Char} (hc : k.mem c = true) (hd : k.mem d = false) :
    c ≠ d := by
  rintro rfl
  rw [hc] at hd
  exact absurd hd (by decide)

theorem not_break {k : CharClass} (hn : k.mem '\n' = false) (hr : k.mem '\r' = false) {c : Char}
    (hc : k.mem c = true) : c ≠ '\n' ∧ c ≠ '\r' :=
  ⟨ne_of_mem hc hn, ne_of_mem hc hr⟩

theorem digit_of_nonzeroDigit {c : Char} (h : nonzeroDigit.mem c = true) : digit.mem c = true := by
  simp only [mem, Bool.and_eq_true] at h
  exact h.1

theorem not_identifierStart_of_digit {c : Char} (h : digit.mem c = true) :
    identifierStart.mem c = false := by
  have hc : c ≠ '@' := ne_of_mem h rfl
  grind [mem, Char.isDigit, Char.isAlpha, Char.isUpper, Char.isLower]

theorem not_sign_of_digit {c : Char} (h : digit.mem c = true) : sign.mem c = false := by
  have hp : c ≠ '+' := ne_of_mem h rfl
  have hm : c ≠ '-' := ne_of_mem h rfl
  simp [mem, hp, hm]

theorem eq_of_sign {c : Char} (h : sign.mem c = true) : c = '+' ∨ c = '-' := by
  simpa [mem] using h

theorem not_identifierStart_of_sign {c : Char} (h : sign.mem c = true) :
    identifierStart.mem c = false := by
  rcases eq_of_sign h with rfl | rfl <;> rfl

end CharClass

namespace Rule

theorem run_append {k : CharClass} {d r : Text} (hd : ∀ c ∈ d, k.mem c = true)
    (hr : r.starts [k.mem] = false) : run k (d ++ r) = d.length := by
  rw [run, List.takeWhile_append_of_pos hd]
  cases r with
  | nil => simp
  | cons c r => simp_all [Text.starts]

theorem token_identifier {o : Options} {w rest : Text} (h : Ends o .identifier w rest) :
    token o (w ++ rest) = .accept w.length .identifier := by
  obtain ⟨c, p, hc, hp, rfl⟩ := mem_identifier.mp h.mem
  have hr : run o.identifierPart (p ++ rest) = p.length :=
    run_append hp (h.follow _ (by simp [barred]))
  simp [token, hc, identifier, leading, hr, Nat.add_comm]

theorem fraction_eq_integer {rest : Text}
    (h : rest.starts [CharClass.dot.mem, CharClass.digit.mem] = false) :
    fraction rest = .accept 0 .integer := by
  unfold fraction
  split
  · simp_all [Text.starts, CharClass.mem]
  · rfl

theorem fraction_eq_decimal {d : Char} {ds rest : Text} (hd : CharClass.digit.mem d = true)
    (hds : ∀ e ∈ ds, CharClass.digit.mem e = true) (h : rest.starts [CharClass.digit.mem] = false) :
    fraction ('.' :: d :: (ds ++ rest)) = .accept (2 + ds.length) .decimal := by
  simp [fraction, hd, run_append hds h]

theorem unsigned_natural {o : Options} {n rest : Text} (hn : n ∈ natural)
    (h : rest.starts [fun c => CharClass.digit.mem c && (o.rejectLeadingZeros || n != ['0'])] =
      false) :
    unsigned o (n ++ rest) = (fraction rest).after n.length := by
  rcases mem_natural.mp hn with rfl | ⟨d, ds, hd, hds, rfl⟩
  · have hz : (o.rejectLeadingZeros && decide (leading .digit rest = 1)) = false := by
      cases rest with
      | nil => simp [leading]
      | cons c r => cases hc : CharClass.digit.mem c <;> simp_all [Text.starts, leading]
    simp [unsigned, CharClass.mem, hz]
  · have hne : d ≠ '0' := CharClass.ne_of_mem hd rfl
    have hz : CharClass.zero.mem d = false := by simp [CharClass.mem, hne]
    have hr : run .digit (ds ++ rest) = ds.length := by
      apply run_append hds
      cases rest with
      | nil => rfl
      | cons c r => simpa [Text.starts, hne] using h
    simp [unsigned, hz, hd, hr, Nat.add_comm]

theorem starts_natural {n : Text} (hn : n ∈ natural) (rest : Text) :
    (n ++ rest).starts [CharClass.digit.mem] = true := by
  rcases mem_natural.mp hn with rfl | ⟨d, ds, hd, hds, rfl⟩
  · rfl
  · simp [Text.starts, CharClass.digit_of_nonzeroDigit hd]

theorem token_signed {o : Options} {s t : Text} (hs : s ∈ sign)
    (ht : t.starts [CharClass.digit.mem] = true) :
    token o (s ++ t) = (unsigned o t).after s.length := by
  cases t with
  | nil => simp [Text.starts] at ht
  | cons d t =>
    have hd : CharClass.digit.mem d = true := by simpa [Text.starts] using ht
    rcases mem_sign.mp hs with rfl | ⟨c, hc, rfl⟩
    · have hi := CharClass.not_identifierStart_of_digit hd
      simp [token, hi, hd, number, leading, CharClass.not_sign_of_digit hd]
    · have hi := CharClass.not_identifierStart_of_sign hc
      simp [token, hi, hc, hd, number, leading]

theorem zeros_contains {s n : Text} (hs : s ∈ sign) (hn : n ∈ natural) :
    zeros.contains (s ++ n) = (n == ['0']) := by
  rcases mem_natural.mp hn with rfl | ⟨d, ds, hd, hds, rfl⟩
  · rcases mem_sign.mp hs with rfl | ⟨c, hc, rfl⟩
    · rfl
    · rcases CharClass.eq_of_sign hc with rfl | rfl <;> rfl
  · have hz : d ≠ '0' := CharClass.ne_of_mem hd rfl
    have hp : d ≠ '+' := CharClass.ne_of_mem hd rfl
    have hm : d ≠ '-' := CharClass.ne_of_mem hd rfl
    rcases mem_sign.mp hs with rfl | ⟨c, hc, rfl⟩ <;> simp [zeros, hz, hp, hm]

theorem token_integer {o : Options} {w rest : Text} (h : Ends o .integer w rest) :
    token o (w ++ rest) = .accept w.length .integer := by
  obtain ⟨s, hs, n, hn, rfl⟩ := h.mem
  have hd := h.follow _ (List.mem_cons_self ..)
  have hz := h.follow _ (List.mem_cons_of_mem _ (List.mem_cons_self ..))
  rw [zeros_contains hs hn] at hz
  have hu := unsigned_natural hn hz
  rw [List.append_assoc, token_signed hs (starts_natural hn rest), hu, fraction_eq_integer hd]
  simp

theorem token_decimal {o : Options} {w rest : Text} (h : Ends o .decimal w rest) :
    token o (w ++ rest) = .accept w.length .decimal := by
  obtain ⟨_, ⟨s, hs, n, hn, rfl⟩, d, ds, hd, hds, rfl⟩ := mem_decimal.mp h.mem
  have hf := h.follow _ (List.mem_singleton_self _)
  have hu : unsigned o (n ++ '.' :: d :: (ds ++ rest)) =
      (fraction ('.' :: d :: (ds ++ rest))).after n.length := unsigned_natural hn rfl
  have ht := token_signed (o := o) hs (starts_natural hn ('.' :: d :: (ds ++ rest)))
  rw [hu, fraction_eq_decimal hd hds hf] at ht
  simpa [Nat.add_assoc, Nat.add_comm, Nat.add_left_comm] using ht

theorem token_singleQuote (o : Options) (t : Text) :
    token o ('\'' :: t) = (characterRest t).after 1 := by
  simp [token, CharClass.mem, character, leading]

theorem characterRest_raw {c : Char} (hc : CharClass.characterBody.mem c = true) (t : Text) :
    characterRest (c :: t) = (closingQuote t).after 1 := by
  have hne : c ≠ '\\' := CharClass.ne_of_mem hc rfl
  have hb : CharClass.backslash.mem c = false := by simp [CharClass.mem, hne]
  simp [characterRest, hb, hc]

theorem characterRest_escape {c : Char} (hc : CharClass.escapeChar.mem c = true) (t : Text) :
    characterRest ('\\' :: c :: t) = (closingQuote t).after 2 := by
  have hb : CharClass.backslash.mem '\\' = true := rfl
  have he : escape ('\\' :: c :: t) = .accept 2 () := by simp [escape, leading, hb, hc]
  rw [characterRest, if_pos hb, he]
  rfl

theorem token_character {o : Options} {w rest : Text} (h : Ends o .character w rest) :
    token o (w ++ rest) = .accept w.length .character := by
  have hq : closingQuote ('\'' :: rest) = .accept 1 .character := rfl
  rcases mem_character.mp h.mem with ⟨c, hc, rfl⟩ | ⟨c, hc, rfl⟩
  · simp [token_singleQuote, characterRest_raw hc, hq]
  · simp [token_singleQuote, characterRest_escape hc, hq]

theorem token_doubleQuote (o : Options) (t : Text) :
    token o ('"' :: t) = (stringRest t).after 1 := by
  simp [token, CharClass.mem, string, leading]

theorem stringRest_append {b : Text} (hb : b ∈ stringBody) (t : Text) :
    stringRest (b ++ t) = (stringRest t).after b.length := by
  induction hb using stringBody_induction with
  | nil => simp
  | raw c b hc hb ih =>
    have hne : c ≠ '\\' := CharClass.ne_of_mem hc rfl
    have hq : c ≠ '"' := CharClass.ne_of_mem hc rfl
    have hd : CharClass.doubleQuote.mem c = false := by simp [CharClass.mem, hq]
    rw [List.cons_append, stringRest.eq_4 _ _ (by simp [hne]) (by simp [hne]), ih]
    simp [hd, hc, Munch.after_after, Nat.add_comm]
  | escape c b hc hb ih =>
    rw [List.cons_append, List.cons_append, stringRest, if_pos hc, ih, Munch.after_after]
    simp [Nat.add_comm, Nat.add_left_comm]

theorem token_string {o : Options} {w rest : Text} (h : Ends o .string w rest) :
    token o (w ++ rest) = .accept w.length .string := by
  obtain ⟨b, hb, rfl⟩ := mem_string.mp h.mem
  have hq : stringRest ('"' :: rest) = .accept 1 .string := by simp [stringRest, CharClass.mem]
  simp [token_doubleQuote, stringRest_append hb, hq, Nat.add_comm]

theorem token_symbol {o : Options} {c : Char} {t : Text} (hc : c ∈ symbols)
    (ht : CharClass.sign.mem c = true → t.starts [CharClass.digit.mem] = false) :
    token o (c :: t) = operator (c :: t) := by
  obtain ⟨hop, hi, hd, hs, hq⟩ := (mem_symbols c).mp hc
  have hsign : (CharClass.sign.mem c && decide (leading .digit t = 1)) = false := by
    cases hm : CharClass.sign.mem c with
    | false => rfl
    | true =>
      have h := ht hm
      cases t with
      | nil => rfl
      | cons d t => simp_all [Text.starts, leading]
  have hs : CharClass.singleQuote.mem c = false := by simp [CharClass.mem, hs]
  have hq : CharClass.doubleQuote.mem c = false := by simp [CharClass.mem, hq]
  simp [token, hi, hd, hsign, hs, hq, hop]

theorem mem_longOperators {w : Text} : w ∈ longOperators ↔
    w = ['=', '='] ∨ w = ['!', '='] ∨ w = ['&', '&'] ∨ w = ['|', '|'] := by
  change w ∈ [['=', '='], ['!', '='], ['&', '&'], ['|', '|']] ↔ _
  simp

theorem longOperator_cases {w : Text} (h : w ∈ longOperators) :
    ∃ a b, w = [a, b] ∧ a ∈ symbols ∧ CharClass.sign.mem a = false := by
  rcases mem_longOperators.mp h with rfl | rfl | rfl | rfl
  all_goals exact ⟨_, _, rfl, (mem_symbols _).mpr (by decide), rfl⟩

theorem operator_long {w : Text} (h : w ∈ longOperators) (rest : Text) :
    operator (w ++ rest) = .accept w.length .operator := by
  rcases mem_longOperators.mp h with rfl | rfl | rfl | rfl <;> rfl

theorem operator_short {c : Char} {rest : Text} (hc : Text.isOperator c = true)
    (h : rest.starts [fun d => longOperators.contains [c, d]] = false) :
    operator (c :: rest) = .accept 1 .operator := by
  have hf : longOperators.find? (·.isPrefixOf (c :: rest)) = none := by
    rw [List.find?_eq_none]
    intro op hop hp
    obtain ⟨a, b, rfl, -, -⟩ := longOperator_cases hop
    cases rest with
    | nil => simp at hp
    | cons d rest =>
      simp only [List.isPrefixOf_cons_cons, List.isPrefixOf_nil_left, Bool.and_true, Bool.and_eq_true,
        beq_iff_eq] at hp
      obtain ⟨rfl, rfl⟩ := hp
      simp [Text.starts, hop] at h
  simp [operator, hf, hc]

theorem token_operator {o : Options} {w rest : Text} (h : Ends o .operator w rest) :
    token o (w ++ rest) = .accept w.length .operator := by
  rcases mem_operator.mp h.mem with hl | ⟨c, hc, rfl⟩
  · obtain ⟨a, b, rfl, ha, hs⟩ := longOperator_cases hl
    rw [← operator_long hl rest]
    exact token_symbol ha (by simp [hs])
  · have hl := h.follow _ (List.mem_cons_self ..)
    have hd := h.follow _ (List.mem_cons_of_mem _ (List.mem_cons_self ..))
    have ht : CharClass.sign.mem c = true → rest.starts [CharClass.digit.mem] = false := by
      intro hs
      rcases CharClass.eq_of_sign hs with rfl | rfl <;> exact hd
    exact (token_symbol hc ht).trans (operator_short ((mem_symbols c).mp hc).1 hl)

theorem token_append {o : Options} {k : Kind} {w rest : Text} (h : Ends o k w rest) :
    token o (w ++ rest) = .accept w.length k := by
  cases k with
  | identifier => exact token_identifier h
  | integer => exact token_integer h
  | decimal => exact token_decimal h
  | character => exact token_character h
  | string => exact token_string h
  | operator => exact token_operator h

end Rule

end PlcScan
