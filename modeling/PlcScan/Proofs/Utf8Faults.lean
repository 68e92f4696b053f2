import PlcScan.Proofs.Utf8RoundTrip

namespace PlcScan.Utf8

def tails : (count n : ℕ) → Bytes
  | 0, _ => []
  | count + 1, n => tail (n / 64 ^ count) :: tails count n

theorem length_tails (count n : ℕ) : (tails count n).length = count := by
  induction count with
  | zero => rfl
  | succ count ih => rw [tails, List.length_cons, ih]

structure Lead.Settled (b : UInt8) (l : Lead) : Prop where
  low_le_high : l.low.toNat ≤ l.high.toNat
  le_low : 0x80 ≤ l.low.toNat
  high_le : l.high.toNat ≤ 0xbf
  row : l.following = 0 ∧ b.toNat = l.payload ∧ l.payload < 0x80 ∨
    l.following = 1 ∧ b.toNat = l.payload + 0xc0 ∧ 2 ≤ l.payload ∧ l.payload < 0x20 ∨
    l.following = 2 ∧ b.toNat = l.payload + 0xe0 ∧ l.payload < 0x10 ∧
      0xa0 ≤ l.payload * 0x40 + l.low.toNat ∧ (l.payload ≠ 0xd ∨ l.high.toNat ≤ 0x9f) ∨
    l.following = 3 ∧ b.toNat = l.payload + 0xf0 ∧
      0x90 ≤ l.payload * 0x40 + l.low.toNat ∧ l.payload * 0x40 + l.high.toNat ≤ 4 * 0x40 + 0x8f

theorem settled_of_lead? {b : UInt8} {l : Lead} (h : lead? b = some l) : l.Settled b := by
  simp only [lead?] at h
  split_ifs at h
  all_goals
    obtain rfl := Option.some.inj h
    constructor
    all_goals simp only [UInt8.reduceToNat, true_and]; omega

theorem follow_succ_eq_ok {count value r : ℕ} {low high : UInt8} {bytes : Bytes}
    (hlow : 0x80 ≤ low.toNat) (hhigh : high.toNat ≤ 0xbf)
    (h : follow (count + 1) low high value bytes = .ok r) :
    ∃ d rest, bytes = tail d :: rest ∧ d < 0x40 ∧ low.toNat ≤ d + 0x80 ∧ d + 0x80 ≤ high.toNat ∧
      follow count 0x80 0xbf (value * 64 + d) rest = .ok r := by
  cases bytes with
  | nil => cases h
  | cons b rest =>
    rw [follow] at h
    by_cases hb : (low ≤ b && b ≤ high) = true
    · rw [if_pos hb] at h
      simp only [Bool.and_eq_true, decide_eq_true_eq, UInt8.le_iff_toNat_le] at hb
      obtain ⟨hlb, hbh⟩ := hb
      refine ⟨b.toNat - 0x80, rest, ?_, by omega, by omega, by omega, ?_⟩
      · have hn : (b.toNat - 0x80) % 0x40 + 0x80 = b.toNat := by omega
        rw [tail, hn, UInt8.ofNat_toNat]
      · cases hf : follow count 0x80 0xbf (value * 64 + (b.toNat - 0x80)) rest with
        | error e =>
          rw [hf] at h
          cases h
        | ok v =>
          rw [hf] at h
          exact h
    · rw [if_neg hb] at h
      cases h

theorem follow_eq_ok {count value r : ℕ} {low high : UInt8} {bytes : Bytes}
    (hlow : 0x80 ≤ low.toNat) (hhigh : high.toNat ≤ 0xbf)
    (h : follow count low high value bytes = .ok r) :
    r / 64 ^ count = value ∧ ∃ rest, bytes = tails count r ++ rest := by
  induction count generalizing low high value bytes with
  | zero =>
    rw [follow] at h
    obtain rfl := Except.ok.inj h
    exact ⟨Nat.div_one value, bytes, rfl⟩
  | succ count ih =>
    obtain ⟨d, rest, rfl, hd, -, -, hrest⟩ := follow_succ_eq_ok hlow hhigh h
    obtain ⟨hr, rest, rfl⟩ := ih (by decide) (by decide) hrest
    refine ⟨?_, rest, ?_⟩
    · rw [Nat.pow_succ, ← Nat.div_div_eq_div_mul, hr]
      omega
    · have hdigit : tail (r / 64 ^ count) = tail d := by
        rw [tail, tail, hr]
        congr 2
        omega
      rw [tails, hdigit]
      rfl

theorem follow_eq_ok_bounds {count value r : ℕ} {low high : UInt8} {bytes : Bytes}
    (hlow : 0x80 ≤ low.toNat) (hhigh : high.toNat ≤ 0xbf)
    (h : follow (count + 1) low high value bytes = .ok r) :
    value * 64 + low.toNat ≤ r / 64 ^ count + 0x80 ∧
      r / 64 ^ count + 0x80 ≤ value * 64 + high.toNat := by
  obtain ⟨d, rest, -, -, hld, hdh, hrest⟩ := follow_succ_eq_ok hlow hhigh h
  obtain ⟨hr, -⟩ := follow_eq_ok (by decide) (by decide) hrest
  omega

theorem utf8EncodeChar_ofNat {b : UInt8} {count r : ℕ} (hr : r.isValidChar)
    (h : count = 0 ∧ r ≤ 0x7f ∧ b.toNat = r ∨
      count = 1 ∧ 0x80 ≤ r ∧ r ≤ 0x7ff ∧ b.toNat = r / 64 + 0xc0 ∨
      count = 2 ∧ 0x800 ≤ r ∧ r ≤ 0xffff ∧ b.toNat = r / 4096 + 0xe0 ∨
      count = 3 ∧ 0x10000 ≤ r ∧ b.toNat = r / 262144 + 0xf0) :
    String.utf8EncodeChar (Char.ofNat r) = b :: tails count r := by
  have hc : (Char.ofNat r).val.toNat = r := (Char.toNat_ofNat r).trans (if_pos hr)
  have hb : UInt8.ofNat b.toNat = b := UInt8.ofNat_toNat
  simp only [String.utf8EncodeChar, hc]
  rcases h with ⟨rfl, hhi, he⟩ | ⟨rfl, hlo, hhi, he⟩ | ⟨rfl, hlo, hhi, he⟩ | ⟨rfl, hlo, he⟩
  · rw [if_pos hhi, ← hb, he, tails]
  · have hlead : r / 64 % 32 = r / 64 := by omega
    rw [if_neg (by omega), if_pos hhi, hlead, ← he, hb]
    simp only [tails, tail, pow_zero, Nat.div_one]
  · have hlead : r / 4096 % 16 = r / 4096 := by omega
    rw [if_neg (by omega), if_neg (by omega), if_pos hhi, hlead, ← he, hb]
    simp only [tails, tail, pow_zero, pow_one, Nat.div_one]
  · have hlead : r / 262144 % 8 = r / 262144 := by
      have := b.toNat_lt
      omega
    rw [if_neg (by omega), if_neg (by omega), if_neg (by omega), hlead, ← he, hb]
    simp only [tails, tail, pow_zero, pow_one, Nat.div_one, Nat.reducePow]

theorem encodes_of_follow {b : UInt8} {l : Lead} {r : ℕ} {bytes : Bytes} (hl : l.Settled b)
    (h : follow l.following l.low l.high l.payload bytes = .ok r) :
    String.utf8EncodeChar (Char.ofNat r) = b :: tails l.following r ∧
      ∃ rest, bytes = tails l.following r ++ rest := by
  obtain ⟨hr, hrest⟩ := follow_eq_ok hl.le_low hl.high_le h
  refine ⟨?_, hrest⟩
  rcases hl.row with ⟨he, hrow⟩ | ⟨he, hrow⟩ | ⟨he, hrow⟩ | ⟨he, hrow⟩
  · rw [he] at hr ⊢
    apply utf8EncodeChar_ofNat
    · left; omega
    · omega
  all_goals
    rw [he] at h hr ⊢
    obtain ⟨hlo, hhi⟩ := follow_eq_ok_bounds hl.le_low hl.high_le h
    simp only [pow_zero, pow_one, Nat.div_one, Nat.reducePow] at hr hlo hhi
    apply utf8EncodeChar_ofNat
    · simp only [Nat.isValidChar]
      omega
    · omega

inductive Faulty : Bytes → Fault → Prop
  | start {b rest position} : lead? b = none →
      Faulty (b :: rest) ⟨position, 1, b, .invalidStart⟩
  | sequence {b rest l position right reason} : lead? b = some l →
      follow l.following l.low l.high l.payload rest = .error (right, reason) →
      Faulty (b :: rest) ⟨position, right + 1, b, reason⟩

theorem encodes_or_faulty (position : ℕ) (b : UInt8) (rest : Bytes) :
    (∃ c bytes, b :: rest = String.utf8EncodeChar c ++ bytes) ∨
      ∃ f, f.position = position ∧ Faulty (b :: rest) f ∧
        decodeFrom position (b :: rest) = .error f := by
  cases hl : lead? b with
  | none =>
    right
    refine ⟨_, rfl, .start hl, ?_⟩
    rw [decodeFrom, hl]
  | some l =>
    cases hr : follow l.following l.low l.high l.payload rest with
    | error e =>
      right
      refine ⟨_, rfl, .sequence hl hr, ?_⟩
      rw [decodeFrom, hl]
      simp only [hr]
    | ok r =>
      left
      obtain ⟨hc, bytes, rfl⟩ := encodes_of_follow (settled_of_lead? hl) hr
      refine ⟨Char.ofNat r, bytes, ?_⟩
      rw [hc]
      rfl

theorem decodeFrom_cases (position : ℕ) (bytes : Bytes) :
    (∃ t, bytes = encode t) ∨
      ∃ w rest f, bytes = encode w ++ rest ∧ f.position = position + (encode w).length ∧
        Faulty rest f ∧ decodeFrom position bytes = .error f := by
  -- Each character takes one to four bytes.
  induction hn : bytes.length using Nat.strong_induction_on generalizing position bytes with
  | h n ih =>
    subst hn
    cases bytes with
    | nil => exact .inl ⟨[], rfl⟩
    | cons b rest =>
      rcases encodes_or_faulty position b rest with ⟨c, bytes, he⟩ | ⟨f, hposition, hf, he⟩
      · have hpos := List.length_pos_of_ne_nil (String.utf8EncodeChar_ne_nil (c := c))
        have hlt : bytes.length < (b :: rest).length := by
          rw [he, List.length_append]
          omega
        have hcons (w : Text) : encode (c :: w) = String.utf8EncodeChar c ++ encode w :=
          List.flatMap_cons ..
        rw [he]
        rcases ih _ hlt (position + (String.utf8EncodeChar c).length) bytes rfl with
          ⟨t, rfl⟩ | ⟨w, rest, f, rfl, hposition, hf, hdecode⟩
        · exact .inl ⟨c :: t, (hcons t).symm⟩
        · right
          refine ⟨c :: w, rest, f, ?_, ?_, hf, ?_⟩
          · rw [hcons, List.append_assoc]
          · rw [hposition, hcons, List.length_append, Nat.add_assoc]
          · rw [decodeFrom_encodeChar, hdecode]
            rfl
      · exact .inr ⟨[], b :: rest, f, rfl, hposition, hf, he⟩

theorem le_position {position : ℕ} {bytes : Bytes} {f : Fault}
    (h : decodeFrom position bytes = .error f) : position ≤ f.position := by
  rcases decodeFrom_cases position bytes with ⟨t, rfl⟩ | ⟨w, rest, g, -, hposition, -, hg⟩
  · rw [decodeFrom_encode] at h
    cases h
  · obtain rfl := Except.error.inj (h.symm.trans hg)
    omega

theorem encode_le_position {position : ℕ} {t : Text} {rest : Bytes} {f : Fault}
    (h : decodeFrom position (encode t ++ rest) = .error f) :
    position + (encode t).length ≤ f.position := by
  induction t generalizing position with
  | nil => exact le_position h
  | cons c t ih =>
    rw [encode, List.flatMap_cons, List.append_assoc, decodeFrom_encodeChar] at h
    rw [encode, List.flatMap_cons, List.length_append, ← Nat.add_assoc]
    apply ih
    change decodeFrom _ (List.flatMap String.utf8EncodeChar t ++ rest) = _
    cases hrest : decodeFrom (position + (String.utf8EncodeChar c).length)
      (List.flatMap String.utf8EncodeChar t ++ rest) with
    | error g =>
      rw [hrest] at h
      exact h
    | ok u =>
      rw [hrest] at h
      cases h

theorem follow_cons {count value : ℕ} {low high b : UInt8} (hlow : low.toNat ≤ b.toNat)
    (hhigh : b.toNat ≤ high.toNat) (rest : Bytes) :
    follow (count + 1) low high value (b :: rest) =
      (follow count 0x80 0xbf (value * 64 + (b.toNat - 0x80)) rest).mapError
        fun (right, reason) => (right + 1, reason) := by
  have hb : (low ≤ b && b ≤ high) = true := by
    simp only [Bool.and_eq_true, decide_eq_true_eq, UInt8.le_iff_toNat_le]
    exact ⟨hlow, hhigh⟩
  rw [follow, if_pos hb]

theorem follow_cons_error {count value : ℕ} {low high b : UInt8}
    (h : ¬ (low.toNat ≤ b.toNat ∧ b.toNat ≤ high.toNat)) (rest : Bytes) :
    follow (count + 1) low high value (b :: rest) = .error (0, .invalidContinuation) := by
  have hb : ¬ (low ≤ b && b ≤ high) = true := by
    simpa only [Bool.and_eq_true, decide_eq_true_eq, UInt8.le_iff_toNat_le] using h
  rw [follow, if_neg hb]

theorem exists_follow_ok (count value : ℕ) {low high : UInt8} (h : low.toNat ≤ high.toNat) :
    ∃ bytes r, follow count low high value bytes = .ok r := by
  induction count generalizing low high value with
  | zero => exact ⟨[], value, rfl⟩
  | succ count ih =>
    have htail : (0x80 : UInt8).toNat ≤ (0xbf : UInt8).toNat := by decide
    obtain ⟨bytes, r, hr⟩ := ih (value * 64 + (low.toNat - 0x80)) htail
    refine ⟨low :: bytes, r, ?_⟩
    rw [follow_cons le_rfl h, hr]
    rfl

theorem follow_eq_error {count value right : ℕ} {low high : UInt8} {bytes : Bytes} {reason : Reason}
    (hbounds : low.toNat ≤ high.toNat)
    (h : follow count low high value bytes = .error (right, reason)) :
    right < count ∧ (reason = .truncated ∧ right = bytes.length ∧
        (∃ u r, follow count low high value (bytes ++ u) = .ok r) ∨
      reason = .invalidContinuation ∧ right < bytes.length) := by
  induction count generalizing low high value bytes right with
  | zero => cases h
  | succ count ih =>
    cases bytes with
    | nil =>
      obtain ⟨rfl, rfl⟩ := Prod.mk.inj (Except.error.inj h)
      exact ⟨Nat.succ_pos count, .inl ⟨rfl, rfl, exists_follow_ok _ _ hbounds⟩⟩
    | cons b rest =>
      by_cases hb : low.toNat ≤ b.toNat ∧ b.toNat ≤ high.toNat
      · rw [follow_cons hb.1 hb.2] at h
        cases hf : follow count 0x80 0xbf (value * 64 + (b.toNat - 0x80)) rest with
        | ok r =>
          rw [hf] at h
          cases h
        | error e =>
          rw [hf] at h
          obtain ⟨rfl, rfl⟩ := Prod.mk.inj (Except.error.inj h)
          obtain ⟨hlt, hreason⟩ := ih (by decide) hf
          refine ⟨Nat.succ_lt_succ hlt, ?_⟩
          rcases hreason with ⟨htruncated, hlength, u, r, hr⟩ | ⟨hinvalid, hlength⟩
          · left
            refine ⟨htruncated, congrArg Nat.succ hlength, u, r, ?_⟩
            rw [List.cons_append, follow_cons hb.1 hb.2, hr]
            rfl
          · exact .inr ⟨hinvalid, Nat.succ_lt_succ hlength⟩
      · rw [follow_cons_error hb] at h
        obtain ⟨rfl, rfl⟩ := Prod.mk.inj (Except.error.inj h)
        exact ⟨Nat.succ_pos count, .inr ⟨rfl, Nat.succ_pos _⟩⟩

theorem following_le {b : UInt8} {l : Lead} (h : l.Settled b) : l.following ≤ 3 := by
  rcases h.row with ⟨h, -⟩ | ⟨h, -⟩ | ⟨h, -⟩ | ⟨h, -⟩ <;> omega

namespace Faulty

variable {bytes : Bytes} {f : Fault}

theorem length_bounds (h : Faulty bytes f) :
    0 < f.length ∧ f.length ≤ 3 ∧ f.length ≤ bytes.length ∧ bytes.head? = some f.first := by
  cases h with
  | start hl => exact ⟨Nat.one_pos, Nat.le_add_left 1 2, Nat.succ_pos _, rfl⟩
  | @sequence b rest l position right reason hl hr =>
    have hsettled := settled_of_lead? hl
    obtain ⟨hlt, hreason⟩ := follow_eq_error hsettled.low_le_high hr
    have hle := following_le hsettled
    refine ⟨Nat.succ_pos right, ?_, ?_, rfl⟩
    · exact Nat.lt_of_lt_of_le hlt hle
    · apply Nat.succ_le_succ
      rcases hreason with ⟨-, hlength, -⟩ | ⟨-, hlength⟩ <;> omega

theorem truncated_iff (h : Faulty bytes f) :
    f.reason = .truncated ↔
      f.length = bytes.length ∧ ∃ c u, bytes ++ u = String.utf8EncodeChar c := by
  cases h with
  | @start b rest position hl =>
    constructor
    · intro h
      cases h
    · rintro ⟨-, c, u, hc⟩
      have hfault : decodeFrom 0 (b :: (rest ++ u)) = .error ⟨0, 1, b, .invalidStart⟩ := by
        rw [decodeFrom, hl]
      have hdecode := decodeFrom_encodeChar c 0 []
      rw [← hc, List.append_nil, List.cons_append, hfault, decodeFrom] at hdecode
      cases hdecode
  | @sequence b rest l position right reason hl hr =>
    have hsettled := settled_of_lead? hl
    obtain ⟨hlt, ⟨rfl, hlength, u, r, hu⟩ | ⟨rfl, hlength⟩⟩ :=
      follow_eq_error hsettled.low_le_high hr
    · refine iff_of_true rfl ⟨congrArg Nat.succ hlength, Char.ofNat r, ?_⟩
      obtain ⟨hc, v, hv⟩ := encodes_of_follow hsettled hu
      have hle : rest.length ≤ (tails l.following r).length := by
        rw [length_tails, ← hlength]
        exact hlt.le
      obtain ⟨w, hw⟩ := List.prefix_of_prefix_length_le ⟨u, rfl⟩ ⟨v, hv.symm⟩ hle
      refine ⟨w, ?_⟩
      rw [hc, ← hw]
      rfl
    · apply iff_of_false
      · intro h
        cases h
      · rintro ⟨hrun, -⟩
        have := Nat.succ.inj hrun
        omega

end Faulty

theorem Reason.message_eq_iff (r : Reason) :
    r.message = "unexpected end of data".toList ↔ r = .truncated := by
  cases r <;> decide

def Fault.run (f : Fault) (bytes : Bytes) : Bytes := (bytes.drop f.position).take f.length

/-- The fault stands behind the longest encoding that the bytes begin with. Its run is short, lies
in the bytes, and is called truncated exactly if it only ends too early. -/
structure Fault.Exact (f : Fault) (bytes : Bytes) : Prop where
  encodes : ∃ w, bytes.take f.position = encode w
  longest : ∀ w, encode w <+: bytes → (encode w).length ≤ f.position
  length_pos : 0 < f.length
  length_le : f.length ≤ 3
  inside : f.position + f.length ≤ bytes.length
  first_eq : bytes[f.position]? = some f.first
  message_iff : f.reason.message = "unexpected end of data".toList ↔
    f.position + f.length = bytes.length ∧ ∃ c u, f.run bytes ++ u = String.utf8EncodeChar c

theorem exact_of_decode {bytes : Bytes} {f : Fault} (h : decode bytes = .error f) :
    f.Exact bytes := by
  rcases decodeFrom_cases 0 bytes with ⟨t, rfl⟩ | ⟨w, rest, g, rfl, hposition, hg, hdecode⟩
  · rw [decode_encode] at h
    cases h
  · obtain rfl := Except.error.inj (h.symm.trans hdecode)
    obtain ⟨hpos, hle, hinside, hfirst⟩ := hg.length_bounds
    rw [Nat.zero_add] at hposition
    have hdrop : (encode w ++ rest).drop f.position = rest := by
      rw [hposition, List.drop_left]
    have hlength : (encode w ++ rest).length = f.position + rest.length := by
      rw [hposition, List.length_append]
    constructor
    · exact ⟨w, by rw [hposition, List.take_left]⟩
    · rintro v ⟨u, hu⟩
      have hv := encode_le_position (hu ▸ h)
      rwa [Nat.zero_add] at hv
    · exact hpos
    · exact hle
    · omega
    · rw [← hfirst, ← List.head?_drop, hdrop]
    · rw [Reason.message_eq_iff, hg.truncated_iff, Fault.run, hdrop, hlength,
        Nat.add_left_cancel_iff]
      apply and_congr_right
      intro hrun
      rw [List.take_of_length_le hrun.ge]

end PlcScan.Utf8
