import Mathlib
import PlcScan.Text.Utf8

/-!
Every text is read back from its encoding.
-/

namespace PlcScan.Utf8

/-- A byte that carries the last six bits of a number behind a leading byte. -/
def tail (n : ℕ) : UInt8 := UInt8.ofNat (n % 0x40 + 0x80)

theorem toNat_tail (n : ℕ) : (tail n).toNat = n % 0x40 + 0x80 := by
  apply UInt8.toNat_ofNat_of_lt'
  change _ < 256
  omega

theorem follow_tail {count value n r : ℕ} {low high : UInt8} {bytes : Bytes}
    (hlow : low.toNat ≤ n % 0x40 + 0x80) (hhigh : n % 0x40 + 0x80 ≤ high.toNat)
    (h : follow count 0x80 0xbf (value * 64 + n % 0x40) bytes = .ok r) :
    follow (count + 1) low high value (tail n :: bytes) = .ok r := by
  have hbounds : (low ≤ tail n && tail n ≤ high) = true := by
    simp only [Bool.and_eq_true, decide_eq_true_eq, UInt8.le_iff_toNat_le, toNat_tail]
    exact ⟨hlow, hhigh⟩
  rw [follow, if_pos hbounds, toNat_tail, Nat.add_sub_cancel, h]
  rfl

theorem follow_any {count value n r : ℕ} {bytes : Bytes}
    (h : follow count 0x80 0xbf (value * 64 + n % 0x40) bytes = .ok r) :
    follow (count + 1) 0x80 0xbf value (tail n :: bytes) = .ok r := by
  apply follow_tail _ _ h
  · simp only [UInt8.reduceToNat]
    omega
  · simp only [UInt8.reduceToNat]
    omega

theorem decodeFrom_sequence {b : UInt8} {tails : Bytes} {lead : Lead} {value : ℕ}
    (hlead : lead? b = some lead) (hlength : tails.length = lead.following) {rest : Bytes}
    (h : follow lead.following lead.low lead.high lead.payload (tails ++ rest) = .ok value)
    (position : ℕ) : decodeFrom position (b :: (tails ++ rest)) =
      (decodeFrom (position + lead.following + 1) rest).map (Char.ofNat value :: ·) := by
  rw [decodeFrom, hlead]
  simp only [h]
  rw [← hlength, List.drop_left]

theorem lead?_one {v : ℕ} (hv : v ≤ 0x7f) :
    lead? (UInt8.ofNat v) = some ⟨v, 0, 0x80, 0xbf⟩ := by
  simp only [lead?, UInt8.toNat_ofNat_of_lt' (show v < 256 by omega)]
  rw [if_pos (by omega)]

theorem lead?_two {v : ℕ} (hlo : 0x80 ≤ v) (hhi : v ≤ 0x7ff) :
    lead? (UInt8.ofNat (v / 64 % 0x20 + 0xc0)) = some ⟨v / 64, 1, 0x80, 0xbf⟩ := by
  have hb : (UInt8.ofNat (v / 64 % 0x20 + 0xc0)).toNat = v / 64 + 0xc0 := by
    rw [UInt8.toNat_ofNat_of_lt' (by change _ < 256; omega)]
    omega
  simp only [lead?, hb]
  rw [if_neg (by omega), if_neg (by omega), if_pos (by omega), Nat.add_sub_cancel]

/-- The bounds of the second byte exclude overlong forms and surrogates. -/
theorem lead?_three {v : ℕ} (hlo : 0x800 ≤ v) (hhi : v ≤ 0xffff) (hv : v < 0xd800 ∨ 0xdfff < v) :
    ∃ low high, lead? (UInt8.ofNat (v / 4096 % 0x10 + 0xe0)) = some ⟨v / 4096, 2, low, high⟩ ∧
      low.toNat ≤ v / 64 % 0x40 + 0x80 ∧ v / 64 % 0x40 + 0x80 ≤ high.toNat := by
  have hb : (UInt8.ofNat (v / 4096 % 0x10 + 0xe0)).toNat = v / 4096 + 0xe0 := by
    rw [UInt8.toNat_ofNat_of_lt' (by change _ < 256; omega)]
    omega
  simp only [lead?, hb]
  rw [if_neg (by omega), if_neg (by omega), if_neg (by omega)]
  by_cases h0 : v / 4096 = 0
  · refine ⟨0xa0, 0xbf, by rw [h0, if_pos rfl], ?_⟩
    simp only [UInt8.reduceToNat]
    omega
  rw [if_neg (by omega)]
  by_cases hd : v / 4096 = 0xd
  · refine ⟨0x80, 0x9f, by rw [hd, if_pos rfl], ?_⟩
    simp only [UInt8.reduceToNat]
    omega
  rw [if_neg (by omega), if_pos (by omega), Nat.add_sub_cancel]
  refine ⟨0x80, 0xbf, rfl, ?_⟩
  simp only [UInt8.reduceToNat]
  omega

/-- The bounds of the second byte exclude overlong forms and what is no code point. -/
theorem lead?_four {v : ℕ} (hlo : 0x10000 ≤ v) (hhi : v < 0x110000) :
    ∃ low high, lead? (UInt8.ofNat (v / 262144 % 0x08 + 0xf0)) = some ⟨v / 262144, 3, low, high⟩ ∧
      low.toNat ≤ v / 4096 % 0x40 + 0x80 ∧ v / 4096 % 0x40 + 0x80 ≤ high.toNat := by
  have hb : (UInt8.ofNat (v / 262144 % 0x08 + 0xf0)).toNat = v / 262144 + 0xf0 := by
    rw [UInt8.toNat_ofNat_of_lt' (by change _ < 256; omega)]
    omega
  simp only [lead?, hb]
  rw [if_neg (by omega), if_neg (by omega), if_neg (by omega), if_neg (by omega),
    if_neg (by omega), if_neg (by omega)]
  by_cases h0 : v / 262144 = 0
  · refine ⟨0x90, 0xbf, by rw [h0, if_pos rfl], ?_⟩
    simp only [UInt8.reduceToNat]
    omega
  rw [if_neg (by omega)]
  by_cases h4 : v / 262144 = 4
  · refine ⟨0x80, 0x8f, by rw [h4, if_neg (by omega), if_pos rfl], ?_⟩
    simp only [UInt8.reduceToNat]
    omega
  rw [if_pos (by omega), Nat.add_sub_cancel]
  refine ⟨0x80, 0xbf, rfl, ?_⟩
  simp only [UInt8.reduceToNat]
  omega

theorem decodeFrom_encodeChar (c : Char) (position : ℕ) (rest : Bytes) :
    decodeFrom position (String.utf8EncodeChar c ++ rest) =
      (decodeFrom (position + (String.utf8EncodeChar c).length) rest).map (c :: ·) := by
  have hvalid : c.val.toNat < 0xd800 ∨ 0xdfff < c.val.toNat ∧ c.val.toNat < 0x110000 := c.valid
  rw [← congrArg List.cons (Char.ofNat_toNat c)]
  change _ = (decodeFrom _ rest).map (Char.ofNat c.val.toNat :: ·)
  fun_cases String.utf8EncodeChar c with
  | case1 v hv =>
    have hf : follow 0 0x80 0xbf v ([] ++ rest) = .ok v := by rw [follow]
    exact decodeFrom_sequence (lead?_one hv) rfl hf position
  | case2 v h1 hv =>
    have hf : follow 1 0x80 0xbf (v / 64) ([tail v] ++ rest) = .ok v := by
      apply follow_any
      rw [follow, Nat.div_add_mod']
    exact decodeFrom_sequence (lead?_two (by omega) hv) rfl hf position
  | case3 v h1 h2 hv =>
    obtain ⟨low, high, hlead, hlow, hhigh⟩ := lead?_three (v := v) (by omega) hv (by omega)
    have hf : follow 2 low high (v / 4096) ([tail (v / 64), tail v] ++ rest) = .ok v := by
      apply follow_tail hlow hhigh
      apply follow_any
      rw [follow, show v / 4096 * 64 + v / 64 % 64 = v / 64 by omega, Nat.div_add_mod']
    exact decodeFrom_sequence hlead rfl hf position
  | case4 v h1 h2 h3 =>
    obtain ⟨low, high, hlead, hlow, hhigh⟩ := lead?_four (v := v) (by omega) (by omega)
    have hf : follow 3 low high (v / 262144) ([tail (v / 4096), tail (v / 64), tail v] ++ rest) =
        .ok v := by
      apply follow_tail hlow hhigh
      apply follow_any
      apply follow_any
      rw [follow, show v / 262144 * 64 + v / 4096 % 64 = v / 4096 by omega,
        show v / 4096 * 64 + v / 64 % 64 = v / 64 by omega, Nat.div_add_mod']
    exact decodeFrom_sequence hlead rfl hf position

theorem decodeFrom_encode (position : ℕ) (t : Text) : decodeFrom position (encode t) = .ok t := by
  induction t generalizing position with
  | nil => rw [encode, List.flatMap_nil, decodeFrom]
  | cons c t ih =>
    rw [encode, List.flatMap_cons, decodeFrom_encodeChar]
    change (decodeFrom _ (encode t)).map _ = _
    rw [ih]
    rfl

theorem decode_encode (t : Text) : decode (encode t) = .ok t := decodeFrom_encode 0 t

end PlcScan.Utf8
