import Mathlib
import PlcScan.Text.Quoted

namespace PlcScan.Text

theorem exists_digitChar {b n : ℕ} {c : Char} (hb : 1 < b) (hc : c ∈ Nat.toDigits b n) :
    ∃ d < b, c = Nat.digitChar d := by
  induction n using Nat.strong_induction_on with
  | h n ih =>
    rw [Nat.toDigits_eq_if hb] at hc
    split at hc
    case isTrue hn => exact ⟨n, hn, List.mem_singleton.mp hc⟩
    case isFalse hn =>
      rcases List.mem_append.mp hc with hc | hc
      · exact ih (n / b) (Nat.div_lt_self (by omega) hb) hc
      · exact ⟨n % b, Nat.mod_lt n (by omega), List.mem_singleton.mp hc⟩

theorem exists_digitChar_hex {width n : ℕ} {c : Char} (hc : c ∈ ofNatHex width n) :
    ∃ d < 16, c = Nat.digitChar d := by
  rcases List.mem_append.mp hc with hc | hc
  · exact ⟨0, by decide, List.eq_of_mem_replicate hc⟩
  · exact exists_digitChar (by decide) hc

def hexValue? (c : Char) : Option ℕ :=
  if c.isDigit then some (c.toNat - 48)
  else if 'a' ≤ c ∧ c ≤ 'f' then some (c.toNat - 87)
  else if 'A' ≤ c ∧ c ≤ 'F' then some (c.toNat - 55)
  else none

def ofHex? (t : Text) : Option ℕ :=
  t.foldlM (fun n c => (hexValue? c).map (16 * n + ·)) 0

theorem hexValue?_digitChar {d : ℕ} (hd : d < 16) : hexValue? (Nat.digitChar d) = some d := by
  decide +revert

theorem ofHex?_concat {t : Text} {n d : ℕ} (ht : ofHex? t = some n) (hd : d < 16) :
    ofHex? (t ++ [Nat.digitChar d]) = some (16 * n + d) := by
  rw [ofHex?] at ht ⊢
  rw [List.foldlM_append, ht]
  simp [hexValue?_digitChar hd]

theorem ofHex?_toDigits (n : ℕ) : ofHex? (Nat.toDigits 16 n) = some n := by
  induction n using Nat.strong_induction_on with
  | h n ih =>
    rw [Nat.toDigits_eq_if (by decide)]
    split
    case isTrue hn =>
      have hone := ofHex?_concat (t := []) (n := 0) rfl hn
      rwa [List.nil_append, Nat.mul_zero, Nat.zero_add] at hone
    case isFalse hn =>
      rw [ofHex?_concat (ih (n / 16) (by omega)) (Nat.mod_lt n (by decide)), Nat.div_add_mod]

theorem ofHex?_zeros (k : ℕ) (t : Text) : ofHex? (List.replicate k '0' ++ t) = ofHex? t := by
  induction k with
  | zero => rfl
  | succ k ih => exact ih

theorem ofHex?_ofNatHex (width n : ℕ) : ofHex? (ofNatHex width n) = some n := by
  rw [ofNatHex, ofHex?_zeros, ofHex?_toDigits]

theorem length_ofNatHex {width n : ℕ} (hwidth : 0 < width) (hn : n < 16 ^ width) :
    (ofNatHex width n).length = width := by
  have hle := (Nat.length_toDigits_le_iff (by decide) hwidth).mpr hn
  simp only [ofNatHex, List.length_append, List.length_replicate]
  omega

def letterEscape? : Char → Option Char
  | 'a' => some '\x07'
  | 'b' => some '\x08'
  | 'f' => some '\x0c'
  | 'n' => some '\n'
  | 'r' => some '\r'
  | 't' => some '\t'
  | 'v' => some '\x0b'
  | '\\' => some '\\'
  | '\'' => some '\''
  | '"' => some '"'
  | _ => none

def hexWidth? : Char → Option ℕ
  | 'x' => some 2
  | 'u' => some 4
  | 'U' => some 8
  | _ => none

def ofCodePoint? (n : ℕ) : Option Char := if n.isValidChar then some (Char.ofNat n) else none

/-- The character that is written behind a backslash, and by how many characters it is written. -/
def escaped? : Text → Option (Char × ℕ)
  | [] => none
  | c :: rest =>
    match letterEscape? c, hexWidth? c with
    | some e, _ => some (e, 1)
    | none, some width =>
      if rest.length < width then none
      else ((ofHex? (rest.take width)).bind ofCodePoint?).map (·, width + 1)
    | none, none => none

def unquoteFrom (delimiter : Char) : Text → Option Text
  | [] => none
  | c :: rest =>
    if c = delimiter then if rest = [] then some [] else none
    else if c = '\\' then
      match escaped? rest with
      | none => none
      | some (e, used) => (unquoteFrom delimiter (rest.drop used)).map (e :: ·)
    else if c = '\n' ∨ c = '\r' then none
    else (unquoteFrom delimiter rest).map (c :: ·)
termination_by t => t.length
decreasing_by all_goals simp only [List.length_drop, List.length_cons]; omega

def unquote? : Text → Option Text
  | [] => none
  | d :: rest => if d = '\'' ∨ d = '"' then unquoteFrom d rest else none

theorem ofCodePoint?_toNat (c : Char) : ofCodePoint? c.toNat = some c := by
  have hc : c.toNat.isValidChar := c.valid
  rw [ofCodePoint?, if_pos hc, Char.ofNat_toNat]

theorem escaped?_letter {c e : Char} (h : letterEscape? c = some e) (t : Text) :
    escaped? (c :: t) = some (e, 1) := by
  rw [escaped?, h]

theorem escaped?_hex {x c : Char} {width : ℕ} (hx : letterEscape? x = none)
    (hwidth : hexWidth? x = some width) (hpos : 0 < width) (hc : c.toNat < 16 ^ width) (t : Text) :
    escaped? (x :: (ofNatHex width c.toNat ++ t)) = some (c, width + 1) := by
  have hlen := length_ofNatHex hpos hc
  have hle : ¬ (ofNatHex width c.toNat ++ t).length < width := by
    rw [List.length_append, hlen]
    omega
  rw [escaped?, hx, hwidth]
  simp only [if_neg hle, List.take_left' hlen, ofHex?_ofNatHex, Option.bind_some,
    ofCodePoint?_toNat, Option.map_some]

theorem unquoteFrom_escape {d e : Char} (hd : d ≠ '\\') {w t : Text}
    (h : escaped? (w ++ t) = some (e, w.length)) :
    unquoteFrom d ('\\' :: w ++ t) = (unquoteFrom d t).map (e :: ·) := by
  rw [List.cons_append, unquoteFrom, if_neg hd.symm, if_pos rfl, h]
  simp only [List.drop_left]

theorem unquoteFrom_raw {d c : Char} (hd : c ≠ d) (hslash : c ≠ '\\') (hn : c ≠ '\n')
    (hr : c ≠ '\r') (t : Text) : unquoteFrom d (c :: t) = (unquoteFrom d t).map (c :: ·) := by
  rw [unquoteFrom, if_neg hd, if_neg hslash, if_neg (not_or.mpr ⟨hn, hr⟩)]

theorem unquoteFrom_quoteChar {d : Char} (hd : d = '\'' ∨ d = '"') (c : Char) (t : Text) :
    unquoteFrom d (quoteChar d c ++ t) = (unquoteFrom d t).map (c :: ·) := by
  have hslash : d ≠ '\\' := by rcases hd with rfl | rfl <;> decide
  have hletter {x : Char} (hx : letterEscape? x = some c) :
      unquoteFrom d (['\\', x] ++ t) = (unquoteFrom d t).map (c :: ·) :=
    unquoteFrom_escape (w := [x]) hslash (escaped?_letter hx t)
  have hhex {x : Char} {width : ℕ} (hx : letterEscape? x = none) (hwidth : hexWidth? x = some width)
      (hpos : 0 < width) (hc : c.toNat < 16 ^ width) :
      unquoteFrom d ('\\' :: x :: ofNatHex width c.toNat ++ t) = (unquoteFrom d t).map (c :: ·) := by
    apply unquoteFrom_escape (w := x :: ofNatHex width c.toNat) hslash
    rw [List.cons_append, escaped?_hex hx hwidth hpos hc, List.length_cons, length_ofNatHex hpos hc]
  fun_cases quoteChar d c with
  | case1 h =>
    apply hletter
    rw [Bool.or_eq_true, decide_eq_true_eq, decide_eq_true_eq] at h
    rcases h with rfl | rfl
    · rcases hd with rfl | rfl <;> rfl
    · rfl
  | case2 =>
    subst c
    exact hletter rfl
  | case3 =>
    subst c
    exact hletter rfl
  | case4 =>
    subst c
    exact hletter rfl
  | case5 h hn hr _ _ =>
    rw [Bool.or_eq_true, decide_eq_true_eq, decide_eq_true_eq, not_or] at h
    exact unquoteFrom_raw h.1 h.2 hn hr t
  | case6 _ _ _ _ _ hc => exact hhex rfl rfl (by decide) hc
  | case7 _ _ _ _ _ _ hc => exact hhex rfl rfl (by decide) hc
  | case8 => exact hhex rfl rfl (by decide) c.val.toNat_lt

theorem unquoteFrom_flatMap {d : Char} (hd : d = '\'' ∨ d = '"') (t : Text) :
    unquoteFrom d (t.flatMap (quoteChar d) ++ [d]) = some t := by
  induction t with
  | nil => rw [List.flatMap_nil, List.nil_append, unquoteFrom, if_pos rfl, if_pos rfl]
  | cons c t ih =>
    rw [List.flatMap_cons, List.append_assoc, unquoteFrom_quoteChar hd, ih, Option.map_some]

theorem delimiter_eq_or (t : Text) : delimiter t = '\'' ∨ delimiter t = '"' := by
  rw [delimiter]
  split
  · exact .inr rfl
  · exact .inl rfl

theorem unquote?_quote (t : Text) : unquote? (quote t) = some t := by
  have hd := delimiter_eq_or t
  rw [quote, List.cons_append, unquote?, if_pos hd, unquoteFrom_flatMap hd]

example : unquote? "\"\\x1fe\\\\n'\"".toList = some "\x1fe\\n'".toList := by cbv

end PlcScan.Text
