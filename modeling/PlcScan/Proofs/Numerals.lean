import Mathlib
import PlcScan.Decimal

namespace PlcScan

theorem injective_of_read {α β : Type} {read : β → Option α} {write : α → β}
    (h : ∀ a, read (write a) = some a) : Function.Injective write := by
  intro a b hab
  have hread := congrArg read hab
  rw [h, h] at hread
  exact Option.some.inj hread

namespace Text

theorem toNat_append (a b : Text) : toNat (a ++ b) = toNat a * 10 ^ b.length + toNat b := by
  rw [toNat, Nat.ofDigitChars_append, Nat.ofDigitChars_eq_ofDigitChars_zero, Nat.mul_comm]
  rfl

theorem toNat_cons (d : Char) (t : Text) : toNat (d :: t) = toNat [d] * 10 ^ t.length + toNat t :=
  toNat_append [d] t

theorem toNat_concat (ds : Text) (d : Char) : toNat (ds ++ [d]) = 10 * toNat ds + toNat [d] := by
  rw [toNat_append, List.length_singleton, pow_one, Nat.mul_comm]

theorem toNat_zeros (k : ℕ) (t : Text) : toNat (List.replicate k '0' ++ t) = toNat t := by
  rw [toNat_append, toNat, Nat.ofDigitChars_replicate_zero, Nat.mul_zero, Nat.zero_mul, Nat.zero_add]

theorem toNat_digit_lt {d : Char} (hd : d.isDigit = true) : toNat [d] < 10 := by
  obtain ⟨hlo, hhi⟩ := Char.isDigit_iff_toNat.mp hd
  change 48 ≤ d.toNat at hlo
  change d.toNat ≤ 57 at hhi
  have hvalue : toNat [d] = d.toNat - 48 := by simp [toNat, Nat.ofDigitChars_cons]
  omega

theorem ofNat_toNat_digit {d : Char} (hd : d.isDigit = true) : ofNat (toNat [d]) = [d] := by
  obtain ⟨hlo, hhi⟩ := Char.isDigit_iff_toNat.mp hd
  have hd : d = Char.ofNat d.toNat := (Char.ofNat_toNat d).symm
  change 48 ≤ d.toNat at hlo
  change d.toNat ≤ 57 at hhi
  rw [hd]
  generalize d.toNat = n at hlo hhi
  interval_cases n <;> rfl

theorem ofNat_append_digit {n : ℕ} (hn : 0 < n) {d : Char} (hd : d.isDigit = true) :
    ofNat (10 * n + toNat [d]) = ofNat n ++ [d] := by
  have h := Nat.toDigits_append_toDigits (by decide : 1 < 10) hn (toNat_digit_lt hd)
  calc ofNat (10 * n + toNat [d]) = ofNat n ++ ofNat (toNat [d]) := h.symm
    _ = ofNat n ++ [d] := by rw [ofNat_toNat_digit hd]

def pad (width : ℕ) (t : Text) : Text := List.replicate (width - t.length) '0' ++ t

theorem pad_ofNat_toNat {ds : Text} (hne : ds ≠ []) (hds : ∀ d ∈ ds, d.isDigit = true) :
    pad ds.length (ofNat (toNat ds)) = ds := by
  induction ds using List.reverseRecOn with
  | nil => exact absurd rfl hne
  | append_singleton ds d ih =>
    obtain ⟨hds, hd⟩ := List.forall_mem_append.mp hds
    have hd : d.isDigit = true := hd d (List.mem_singleton_self d)
    by_cases hnil : ds = []
    · subst hnil
      rw [List.nil_append, ofNat_toNat_digit hd]
      rfl
    have ih := ih hnil hds
    rw [toNat_concat]
    by_cases hzero : toNat ds = 0
    -- All digits so far are zeros.
    · have hlen : 1 ≤ ds.length := List.length_pos_of_ne_nil hnil
      have hzeros : List.replicate ds.length '0' = ds := by
        rw [hzero] at ih
        rw [← Nat.sub_add_cancel hlen, List.replicate_succ']
        exact ih
      rw [hzero, Nat.mul_zero, Nat.zero_add, ofNat_toNat_digit hd, pad, List.length_append]
      simp only [List.length_singleton, Nat.add_sub_cancel, hzeros]
    · rw [ofNat_append_digit (Nat.pos_of_ne_zero hzero) hd, pad]
      simp only [List.length_append, List.length_singleton, Nat.add_sub_add_right]
      rw [← List.append_assoc]
      exact congrArg (· ++ [d]) ih

theorem ofNat_toNat {ds : Text} (hne : ds ≠ []) (hds : ∀ d ∈ ds, d.isDigit = true)
    (hzero : ds.head? ≠ some '0') : ofNat (toNat ds) = ds := by
  have hpad := pad_ofNat_toNat hne hds
  rw [pad] at hpad
  cases hn : ds.length - (ofNat (toNat ds)).length with
  | zero => rwa [hn] at hpad
  | succ n =>
    rw [hn] at hpad
    rw [← hpad] at hzero
    exact absurd rfl hzero

theorem toNat_pos {ds : Text} (hne : ds ≠ []) (hds : ∀ d ∈ ds, d.isDigit = true)
    (hzero : ds.head? ≠ some '0') : 0 < toNat ds := by
  apply Nat.pos_of_ne_zero
  intro h
  have hds := ofNat_toNat hne hds hzero
  rw [h] at hds
  rw [← hds] at hzero
  exact hzero rfl

def withoutZeros (ds : Text) : Text :=
  match ds.dropWhile (· == '0') with
  | [] => ['0']
  | ds => ds

theorem ofNat_toNat_eq {ds : Text} (hds : ∀ d ∈ ds, d.isDigit = true) :
    ofNat (toNat ds) = ds.withoutZeros := by
  induction ds with
  | nil => rfl
  | cons c t ih =>
    by_cases hc : c = '0'
    · subst hc
      have hdrop : withoutZeros ('0' :: t) = withoutZeros t := rfl
      have hvalue : toNat ('0' :: t) = toNat t := toNat_zeros 1 t
      rw [hdrop, hvalue, ih (List.forall_mem_cons.mp hds).2]
    · have hstop : withoutZeros (c :: t) = c :: t := by
        rw [withoutZeros, List.dropWhile_cons_of_neg (by simpa using hc)]
      rw [hstop]
      exact ofNat_toNat (List.cons_ne_nil c t) hds (by simpa using hc)

theorem isDigit_of_mem_pad (width : ℕ) {ds : Text} (hds : ∀ d ∈ ds, d.isDigit = true) :
    ∀ d ∈ pad width ds, d.isDigit = true := by
  refine List.forall_mem_append.mpr ⟨fun d hd => ?_, hds⟩
  rw [List.eq_of_mem_replicate hd]
  rfl

theorem toNat_ofNat (n : ℕ) : toNat (ofNat n) = n := Nat.ofDigitChars_ten_toDigits

theorem ofNat_injective : Function.Injective ofNat :=
  Function.LeftInverse.injective toNat_ofNat

theorem isDigit_of_mem_ofNat {n : ℕ} {c : Char} (hc : c ∈ ofNat n) : c.isDigit = true :=
  Nat.isDigit_of_mem_toDigits (by decide) (by decide) hc

theorem not_mem_ofNat {c : Char} (hc : c.isDigit = false) (n : ℕ) : c ∉ ofNat n :=
  fun hmem => Bool.false_ne_true (hc.symm.trans (isDigit_of_mem_ofNat hmem))

theorem not_mem_ofInt {c : Char} (hc : c.isDigit = false) (hminus : c ≠ '-') (n : ℤ) :
    c ∉ ofInt n := by
  cases n with
  | ofNat n => exact not_mem_ofNat hc n
  | negSucc n => exact List.not_mem_cons_of_ne_of_not_mem hminus (not_mem_ofNat hc (n + 1))

def unsigned : Text → Text
  | '+' :: t => t
  | '-' :: t => t
  | t => t

theorem readSign_eq (t : Text) : t.readSign = (t.head? == some '-', t.unsigned) := by
  fun_cases readSign t with
  | case1 => rfl
  | case2 => rfl
  | case3 t hplus hminus =>
    cases t with
    | nil => rfl
    | cons c t =>
      have hm : c ≠ '-' := fun h => hminus t (by rw [h])
      simp [unsigned, hm]

theorem readSign_ofNat (n : ℕ) : readSign (ofNat n) = (false, ofNat n) := by
  cases h : ofNat n with
  | nil => rfl
  | cons c t =>
    have hc : c.isDigit = true := isDigit_of_mem_ofNat (n := n) (by simp [h])
    have hp : c ≠ '+' := by rintro rfl; cases hc
    have hm : c ≠ '-' := by rintro rfl; cases hc
    simp [readSign, hp, hm]

def readInt? (t : Text) : Option ℤ :=
  let (negative, digits) := t.readSign
  if digits = [] || !digits.all Char.isDigit then none
  else some (if negative then -(toNat digits : ℤ) else toNat digits)

theorem readInt?_of_readSign {t : Text} {negative : Bool} {n : ℕ}
    (h : t.readSign = (negative, ofNat n)) :
    readInt? t = some (if negative then -(n : ℤ) else n) := by
  have hne : ofNat n ≠ [] := Nat.toDigits_ne_nil
  have hdigits : (ofNat n).all Char.isDigit = true :=
    List.all_eq_true.mpr fun _ hc => isDigit_of_mem_ofNat hc
  simp [readInt?, h, hne, hdigits, toNat_ofNat]

theorem readInt?_ofInt (n : ℤ) : readInt? (ofInt n) = some n := by
  cases n with
  | ofNat n => exact readInt?_of_readSign (readSign_ofNat n)
  | negSucc n => exact readInt?_of_readSign (t := '-' :: ofNat (n + 1)) rfl

theorem ofInt_injective : Function.Injective ofInt := injective_of_read readInt?_ofInt

end Text

theorem Decimal.plain_eq {whole fraction digits : Text} (hf : fraction ≠ [])
    (h : Text.pad (fraction.length + 1) digits = whole ++ fraction) :
    plain digits fraction.length = whole ++ '.' :: fraction := by
  have hlen : fraction.length ≠ 0 := List.length_pos_of_ne_nil hf |>.ne'
  have hfilled : List.replicate (fraction.length + 1 - digits.length) '0' ++ digits =
      whole ++ fraction := h
  rw [plain, if_neg hlen]
  simp only [hfilled, List.length_append, Nat.add_sub_cancel, List.take_left, List.drop_left]

end PlcScan
