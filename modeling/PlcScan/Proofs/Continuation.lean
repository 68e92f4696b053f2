import PlcScan.Proofs.ScanTree

/-!
Texts that are written on. A fault that lies in the text stays whatever comes after it; a text that
only stops too early can be completed. Main statement: the code and the offset of a fault, and the
line breaks after it, tell the two apart.
-/

namespace PlcScan

open Grammar

theorem barred_cases {o : Options} {k : Kind} {w : Text} {tests : List (Char → Bool)}
    (h : tests ∈ barred o k w) :
    (∃ p, tests = [p]) ∨ tests = [CharClass.dot.mem, CharClass.digit.mem] := by
  cases k with
  | identifier => exact .inl ⟨_, List.mem_singleton.mp h⟩
  | integer => exact (List.mem_cons.mp h).symm.imp_left fun h => ⟨_, List.mem_singleton.mp h⟩
  | decimal => exact .inl ⟨_, List.mem_singleton.mp h⟩
  | character => exact absurd h List.not_mem_nil
  | string => exact absurd h List.not_mem_nil
  | operator =>
    rcases List.mem_cons.mp h with h | h
    · exact .inl ⟨_, h⟩
    · exact .inl ⟨_, List.mem_singleton.mp h⟩

theorem scans_dot {o : Options} {s : Scan} (h : Scans o ['.'] s) : s.stop = none := by
  rw [← h.eq]
  by_cases hb : o.isBlank '.' = true
  · rw [Scan.of_blank hb, Scan.of]
    rfl
  · have hc : '.' ∈ symbols := (mem_symbols '.').mpr (by decide)
    have hw : Ends o .operator ['.'] [] := .of_nil (mem_operator.mpr (.inr ⟨'.', hc, rfl⟩))
    have ht : Rule.token o (['.'] ++ []) = .accept 1 .operator := Rule.token_append hw
    have he := Scan.of_accept (by simp) (by simpa using hb) ht
    rw [List.append_nil] at he
    rw [he, Scan.of]
    rfl

theorem Scans.ne_nil {o : Options} {t : Text} {s : Scan} {stop : Stop} (h : Scans o t s)
    (hs : s.stop = some stop) : t ≠ [] := by
  rintro rfl
  obtain ⟨x, -, hx, -⟩ := h.diagnosis hs
  exact hx.ne_nil (List.drop_nil)

theorem Ends.append {o : Options} {k : Kind} {w rest : Text} {s : Scan} {stop : Stop}
    (hw : Ends o k w rest) (h : Scans o rest s) (hs : s.stop = some stop) (t : Text) :
    Ends o k w (rest ++ t) := by
  refine ⟨hw.mem, fun tests htests => ?_⟩
  have hfollow := hw.follow tests htests
  obtain ⟨c, rest, rfl⟩ := List.exists_cons_of_ne_nil (h.ne_nil hs)
  rcases barred_cases htests with ⟨p, rfl⟩ | rfl
  · exact hfollow
  · cases rest with
    | nil =>
      -- A dot that ends the text is a token, and leaves nothing to be faulty.
      have hc : c ≠ '.' := by
        rintro rfl
        rw [scans_dot h] at hs
        cases hs
      simp [Text.starts, CharClass.mem, hc]
    | cons d rest => exact hfollow

theorem Scans.append {o : Options} {t u : Text} {s s' : Scan} {stop : Stop} (h : Scans o t s)
    (hs : s.stop = some stop) (hu : Scans o (t.drop (Piece.width s.pieces) ++ u) s') :
    Scans o (t ++ u) ⟨s.pieces ++ s'.pieces, s'.stop⟩ := by
  induction h with
  | done => cases hs
  | @blank c t s hc h ih =>
    simp only [Scan.cons, Piece.width_cons, Piece.text_blank, List.length_singleton] at hu
    rw [← List.drop_drop] at hu
    exact .blank hc (ih hs hu)
  | @lexeme k w rest s hb hw h ih =>
    simp only [Scan.cons, Piece.width_cons, Piece.text_lexeme] at hu
    rw [← List.drop_drop, List.drop_left] at hu
    rw [List.append_assoc]
    exact .lexeme hb (hw.append h hs u) (ih hs hu)
  | halt => exact hu

theorem Scans.not_blank_append {o : Options} {s : Text} {ps : List Piece} {stop : Stop}
    (h : Scans o s ⟨ps, some stop⟩) (t : Text) :
    ∀ c ∈ (s.drop (Piece.width ps) ++ t).head?, o.isBlank c = false := by
  obtain ⟨x, hb, hx, -⟩ := h.diagnosis rfl
  rwa [List.head?_append_of_ne_nil _ hx.ne_nil]

def Finding.Incomplete (x : Finding) (t : Text) : Prop :=
  (x.code = "L006".toList ∨ x.code = "L009".toList) ∧ x.offset = t.length ∨
    x.code = "L002".toList ∧ ∀ c ∈ t, c ≠ '\n' ∧ c ≠ '\r'

theorem not_break_of_mem_stringBody {b : Text} (hb : b ∈ stringBody) :
    ∀ c ∈ b, c ≠ '\n' ∧ c ≠ '\r' := by
  induction hb using stringBody_induction with
  | nil => simp
  | raw c b hc hb ih => exact List.forall_mem_cons.mpr ⟨CharClass.not_break rfl rfl hc, ih⟩
  | escape c b hc hb ih =>
    have htail : ∀ d ∈ c :: b, d ≠ '\n' ∧ d ≠ '\r' :=
      List.forall_mem_cons.mpr ⟨CharClass.not_break rfl rfl hc, ih⟩
    exact List.forall_mem_cons.mpr ⟨by decide, htail⟩

theorem not_break_string {b r : Text} (hb : b ∈ stringBody) (hr : ∀ c ∈ r, c ≠ '\n' ∧ c ≠ '\r') :
    ∀ c ∈ '"' :: (b ++ r), c ≠ '\n' ∧ c ≠ '\r' := by
  refine List.forall_mem_cons.mpr ⟨by decide, fun c hc => ?_⟩
  rcases List.mem_append.mp hc with hc | hc
  · exact not_break_of_mem_stringBody hb c hc
  · exact hr c hc

theorem Diagnosis.append {o : Options} {t : Text} {x : Finding} (h : Diagnosis o t x)
    (hx : ¬ x.Incomplete t) (u : Text) : Diagnosis o (t ++ u) x := by
  cases h with
  | invalidCharacter hc => exact .invalidCharacter hc
  | leadingZero ho hs hd =>
    rw [List.append_assoc]
    exact .leadingZero ho hs hd
  | @unterminatedString b t hb ht =>
    rw [List.cons_append, List.append_assoc]
    rcases ht with rfl | rfl | ⟨c, hc, v, rfl⟩
    · exact absurd (.inr ⟨rfl, not_break_string hb (by simp)⟩) hx
    · exact absurd (.inr ⟨rfl, not_break_string hb (by simp)⟩) hx
    · exact .unterminatedString hb (.inr (.inr ⟨c, hc, v ++ u, rfl⟩))
  | stringEscape hb hc =>
    rw [List.cons_append, List.append_assoc]
    exact .stringEscape hb hc
  | @characterEscape t ht =>
    cases t with
    | nil => exact absurd (.inl ⟨.inl rfl, rfl⟩) hx
    | cons c t => exact .characterEscape ht
  | @afterEscape c t hc ht =>
    cases t with
    | nil => exact absurd (.inl ⟨.inr rfl, rfl⟩) hx
    | cons d t => exact .afterEscape hc ht
  | @noCharacter t ht =>
    cases t with
    | nil => exact absurd (.inl ⟨.inr rfl, rfl⟩) hx
    | cons c t => exact .noCharacter ht
  | @afterCharacter c t hc ht =>
    cases t with
    | nil => exact absurd (.inl ⟨.inr rfl, rfl⟩) hx
    | cons d t => exact .afterCharacter hc ht

theorem stringBody_append {b d : Text} (hb : b ∈ stringBody) (hd : d ∈ stringBody) :
    b ++ d ∈ stringBody := by
  induction hb using stringBody_induction with
  | nil => exact hd
  | raw c b hc hb ih => exact raw_mem_stringBody hc ih
  | escape c b hc hb ih => exact escape_mem_stringBody hc ih

theorem Diagnosis.completion {o : Options} {t : Text} {x : Finding} (h : Diagnosis o t x)
    (hx : x.Incomplete t) : ∃ k u, t ++ u ∈ lexemes o k := by
  cases h with
  | invalidCharacter => simp [Finding.Incomplete] at hx
  | leadingZero => simp [Finding.Incomplete] at hx
  | @unterminatedString b t hb ht =>
    rcases ht with rfl | rfl | ⟨c, hc, v, rfl⟩
    · exact ⟨.string, ['"'], mem_string.mpr ⟨b, hb, by simp⟩⟩
    · have he : ['\\', 'n'] ∈ stringBody := escape_mem_stringBody rfl nil_mem_stringBody
      exact ⟨.string, ['n', '"'], mem_string.mpr ⟨_, stringBody_append hb he, by simp⟩⟩
    · rcases hx with ⟨hcode, -⟩ | ⟨-, hbreak⟩
      · simp at hcode
      · obtain ⟨hn, hr⟩ := hbreak c (by simp)
        exact absurd hc (not_or.mpr ⟨hn, hr⟩)
  | @stringEscape b c t hb hc =>
    rcases hx with ⟨-, hlen⟩ | ⟨hcode, -⟩
    · simp only [List.length_cons, List.length_append] at hlen
      omega
    · simp at hcode
  | @characterEscape t ht =>
    cases t with
    | nil => exact ⟨.character, ['n', '\''], mem_character.mpr (.inr ⟨'n', rfl, rfl⟩)⟩
    | cons c t => simp [Finding.Incomplete] at hx
  | @afterEscape c t hc ht =>
    cases t with
    | nil =>
      have hw := mem_character.mpr (.inr ⟨c, (mem_escapable c).mp hc, rfl⟩)
      exact ⟨.character, ['\''], hw⟩
    | cons d t => simp [Finding.Incomplete] at hx
  | @noCharacter t ht =>
    cases t with
    | nil => exact ⟨.character, ['a', '\''], mem_character.mpr (.inl ⟨'a', rfl, rfl⟩)⟩
    | cons c t => simp [Finding.Incomplete] at hx
  | @afterCharacter c t hc ht =>
    cases t with
    | nil =>
      have hw := mem_character.mpr (.inl ⟨c, (mem_characterRaw c).mp hc, rfl⟩)
      exact ⟨.character, ['\''], hw⟩
    | cons d t => simp [Finding.Incomplete] at hx

theorem Diagnosis.offset_le {o : Options} {t : Text} {x : Finding} (h : Diagnosis o t x) :
    x.offset ≤ t.length := by
  cases h <;> simp

theorem Location.of_append {s : Text} {n : Nat} (hn : n ≤ s.length) (t filename : Text) :
    of (s ++ t) n filename = of s n filename := by
  simp only [of, Int.toNat_natCast, List.take_append_of_le_length hn]

def Incomplete (s : Text) (e : LexicalError) : Prop :=
  (e.fault.code = "L006".toList ∨ e.fault.code = "L009".toList) ∧ e.location.offset = s.length ∨
    e.fault.code = "L002".toList ∧
      ∀ c ∈ s.drop e.location.offset.toNat, c ≠ '\n' ∧ c ≠ '\r'

theorem Diagnosis.offset_eq_zero {o : Options} {t : Text} {x : Finding} (h : Diagnosis o t x)
    (hcode : x.code = "L002".toList) : x.offset = 0 := by
  cases h <;> simp at hcode ⊢

theorem incomplete_iff {o : Options} {s filename : Text} {n : Nat} {x : Finding}
    (hx : Diagnosis o (s.drop n) x) :
    Incomplete s ⟨x.fault, .of s (n + x.offset : ℕ) filename⟩ ↔ x.Incomplete (s.drop n) := by
  have hlen : n < s.length := List.drop_eq_nil_iff.not.mp hx.ne_nil |> Nat.not_le.mp
  have hoffset : ((n + x.offset : ℕ) : ℤ) = s.length ↔ x.offset = (s.drop n).length := by
    rw [List.length_drop]
    omega
  unfold Incomplete Finding.Incomplete
  rw [hx.code_eq]
  apply or_congr
  · exact and_congr_right fun _ => hoffset
  · apply and_congr_right
    intro hcode
    change (∀ c ∈ s.drop (n + x.offset), _) ↔ _
    rw [hx.offset_eq_zero hcode, Nat.add_zero]

section

variable {o : Options} {filename s : Text} {ps : List Piece} {x : Finding}

theorem lex_stays (hps : Scans o s ⟨ps, some ⟨x.used, .fault x.fault⟩⟩)
    (hx : Diagnosis o (s.drop (Piece.width ps)) x) (hi : ¬ x.Incomplete (s.drop (Piece.width ps)))
    (t : Text) : lex o filename (s ++ t) =
      .error (.lexical ⟨x.fault, .of s (Piece.width ps + x.offset : ℕ) filename⟩) := by
  have hwidth : Piece.width ps ≤ s.length := by
    have := List.drop_eq_nil_iff.not.mp hx.ne_nil
    omega
  have hdrop : (s ++ t).drop (Piece.width ps) = s.drop (Piece.width ps) ++ t :=
    List.drop_append_of_le_length hwidth
  have hxt := hx.append hi t
  have hst := hps.append rfl (.halt (hps.not_blank_append t) hxt)
  rw [List.append_nil] at hst
  have hle : Piece.width ps + x.offset ≤ s.length := by
    have := hx.offset_le
    rw [List.length_drop] at this
    omega
  rw [lex_of_halt hst (hdrop ▸ hxt), Location.of_append hle]

theorem lex_completed (hps : Scans o s ⟨ps, some ⟨x.used, .fault x.fault⟩⟩)
    (hx : Diagnosis o (s.drop (Piece.width ps)) x) (hi : x.Incomplete (s.drop (Piece.width ps))) :
    ∃ t ts, lex o filename (s ++ t) = .ok ts := by
  obtain ⟨k, u, hw⟩ := hx.completion hi
  have hlast := Scans.lexeme (hps.not_blank_append u) (.of_nil hw) .done
  rw [List.append_nil] at hlast
  exact ⟨u, _, lex_of_done (hps.append rfl hlast)⟩

end

theorem lex_append_of_error {o : Options} {filename s : Text} {e : LexicalError}
    (h : lex o filename s = .error (.lexical e)) :
    ((∃ t ts, lex o filename (s ++ t) = .ok ts) ↔ Incomplete s e) ∧
      (¬ Incomplete s e → ∀ t, lex o filename (s ++ t) = .error (.lexical e)) := by
  obtain ⟨ps, x, hps, hx, he⟩ := lex_error_iff.mp h
  obtain rfl := Failure.lexical.inj he
  rw [incomplete_iff hx]
  refine ⟨⟨?_, lex_completed hps hx⟩, lex_stays hps hx⟩
  rintro ⟨t, ts, hok⟩
  by_contra hi
  rw [lex_stays hps hx hi t] at hok
  cases hok

theorem lex_append_of_error_literals :
    (lex {} [] "x \"a\\".toList = .error (.lexical ⟨.unterminatedString, ⟨[], 1, 3, 2⟩⟩) ∧
      ∃ t ts, lex {} [] ("x \"a\\".toList ++ t) = .ok ts) ∧
    (lex {} [] "'ab".toList = .error (.lexical ⟨.malformedCharacter (.char 'b'), ⟨[], 1, 3, 2⟩⟩) ∧
      ∀ t, lex {} [] ("'ab".toList ++ t) =
        .error (.lexical ⟨.malformedCharacter (.char 'b'), ⟨[], 1, 3, 2⟩⟩)) := by
  constructor
  · have h : lex {} [] "x \"a\\".toList =
        .error (.lexical ⟨.unterminatedString, ⟨[], 1, 3, 2⟩⟩) := by cbv
    exact ⟨h, (lex_append_of_error h).1.mpr (.inr ⟨rfl, by simp⟩)⟩
  · have h : lex {} [] "'ab".toList =
        .error (.lexical ⟨.malformedCharacter (.char 'b'), ⟨[], 1, 3, 2⟩⟩) := by cbv
    exact ⟨h, (lex_append_of_error h).2 (by simp [Incomplete, Fault.code])⟩

end PlcScan
