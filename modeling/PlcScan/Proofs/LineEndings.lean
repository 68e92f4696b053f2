import PlcScan.Proofs.FaultCases
import PlcScan.Proofs.Layout
import PlcScan.Proofs.LineColumns
import PlcScan.Proofs.Partition

/-!
Scanning a text whose line breaks are written anew. No lexeme holds a line break, and every rule
treats a carriage return like a line feed. Main statement: if both are skipped, the pieces of the
new text are those of the old one with line breaks written anew, and a fault stays where it was.
-/

namespace PlcScan

open Grammar Piece

def newline (c : Char) : Char := if c = '\r' then '\n' else c

theorem newline_of_ne {c : Char} (h : c ≠ '\r') : newline c = c := if_neg h

theorem newline_ne_quote {c : Char} (h : c ≠ '\'') : newline c ≠ '\'' := by
  rw [newline]
  split
  · decide
  · exact h

theorem newline_not_mem_escapable {c : Char} (h : c ∉ escapable) : newline c ∉ escapable := by
  rw [newline]
  split
  · simp [escapable]
  · exact h

theorem newline_quote_or_break (c : Char) (h : c = '\'' ∨ c ∈ breaks) :
    newline c = '\'' ∨ newline c ∈ breaks := by
  rcases h with rfl | rfl | rfl
  · exact .inl rfl
  · exact .inr (.inl rfl)
  · exact .inr (.inl rfl)

namespace Text

theorem exists_unifyNewlines_cons (c : Char) (t : Text) :
    ∃ u, unifyNewlines (c :: t) = newline c :: u := by
  by_cases h : Broken c t
  · obtain ⟨rfl, ht⟩ := h
    obtain ⟨u, rfl⟩ := List.head?_eq_some_iff.mp ht
    exact ⟨_, rfl⟩
  · exact ⟨_, unifyNewlines_cons h⟩

theorem head?_unifyNewlines (t : Text) : (unifyNewlines t).head? = t.head?.map newline := by
  cases t with
  | nil => rfl
  | cons c t =>
    obtain ⟨u, hu⟩ := exists_unifyNewlines_cons c t
    rw [hu]
    rfl

theorem forall_head?_unifyNewlines {t : Text} {p : Char → Prop} (hp : ∀ c, p c → p (newline c))
    (h : ∀ c ∈ t.head?, p c) : ∀ c ∈ (unifyNewlines t).head?, p c := by
  rw [head?_unifyNewlines]
  intro c hc
  obtain ⟨d, hd, rfl⟩ := Option.mem_map.mp hc
  exact hp d (h d hd)

theorem unifyNewlines_append_of_forall {w : Text} (h : ∀ c ∈ w, c ≠ '\r') (t : Text) :
    unifyNewlines (w ++ t) = w ++ unifyNewlines t := by
  rw [unifyNewlines_append, unifyNewlines_eq_self h]
  intro c hc
  exact not_broken (h c (List.mem_of_getLast? hc)) t

theorem starts_unifyNewlines {tests : List (Char → Bool)}
    (h : ∀ test ∈ tests, ∀ c ∈ layoutChars, test c = false) (t : Text) :
    Text.starts tests (unifyNewlines t) = Text.starts tests t := by
  induction t using lineBreak_induction generalizing tests with
  | nil => rfl
  | pair t ih =>
    cases tests with
    | nil => rfl
    | cons test tests =>
      have hn := h test (List.mem_cons_self ..) '\n' (by simp [layoutChars])
      have hr := h test (List.mem_cons_self ..) '\r' (by simp [layoutChars])
      rw [unifyNewlines, starts, starts, hn, hr, Bool.false_and, Bool.false_and]
  | cons c t hc ih =>
    cases tests with
    | nil => rfl
    | cons test tests =>
      obtain ⟨htest, htests⟩ := List.forall_mem_cons.mp h
      rw [unifyNewlines_cons hc, starts, starts, ih htests]
      split
      · rename_i hr
        rw [hr, htest '\n' (by simp [layoutChars]), htest '\r' (by simp [layoutChars])]
      · rfl

end Text

open Text

theorem ne_return_of_leadingZero {s : Text} {d : Char} (hs : s ∈ sign) (hd : d ∈ digits) :
    ∀ c ∈ s ++ ['0', d], c ≠ '\r' := by
  have hz : s ++ ['0'] ∈ integer := ⟨s, hs, ['0'], .inl (mem_zero.mpr rfl), rfl⟩
  have hc := not_break_of_mem_integer hz
  have hd := CharClass.not_break rfl rfl ((mem_digits d).mp hd)
  intro c hmem
  rw [List.append_cons, List.mem_append, List.mem_singleton] at hmem
  rcases hmem with hmem | rfl
  · exact (hc c hmem).2
  · exact hd.2

theorem ne_return_of_string {b r : Text} (hb : b ∈ stringBody)
    (hr : ∀ c ∈ r, c ≠ '\n' ∧ c ≠ '\r') : ∀ c ∈ '"' :: (b ++ r), c ≠ '\r' :=
  fun c hc => (not_break_string hb hr c hc).2

def Found.unifyNewlines : Found → Found
  | .char c => .char (newline c)
  | found => found

def Fault.unifyNewlines : Fault → Fault
  | .invalidCharacter found => .invalidCharacter found.unifyNewlines
  | .invalidEscape found => .invalidEscape found.unifyNewlines
  | .malformedCharacter found => .malformedCharacter found.unifyNewlines
  | fault => fault

def Finding.unifyNewlines (x : Finding) : Finding := { x with fault := x.fault.unifyNewlines }

theorem Fault.code_unifyNewlines (f : Fault) : f.unifyNewlines.code = f.code := by
  cases f <;> rfl

theorem Found.ahead_unifyNewlines (t : Text) :
    Found.ahead (Text.unifyNewlines t) = (Found.ahead t).unifyNewlines := by
  cases t with
  | nil => rfl
  | cons c t =>
    obtain ⟨u, hu⟩ := exists_unifyNewlines_cons c t
    rw [hu]
    rfl

theorem Ends.unifyNewlines {o : Options} {k : Kind} {w rest : Text} (h : Ends o k w rest) :
    Ends o k w (unifyNewlines rest) := by
  apply h.mono
  intro tests htests hs
  rwa [starts_unifyNewlines (barred_layoutChar htests)] at hs

namespace Diagnosis

variable {o : Options} {t : Text} {x : Finding}

theorem head?_unifyNewlines_ne_quote (h : t.head? ≠ some '\'') :
    (Text.unifyNewlines t).head? ≠ some '\'' := by
  have hall : ∀ c ∈ t.head?, c ≠ '\'' := by
    rintro c hc rfl
    exact h hc
  intro he
  exact forall_head?_unifyNewlines (p := (· ≠ '\'')) (fun _ => newline_ne_quote) hall _ he rfl

theorem unifyNewlines (h : Diagnosis o t x) :
    Diagnosis o (unifyNewlines t) x.unifyNewlines := by
  cases h with
  | @invalidCharacter c t hc =>
    obtain ⟨u, hu⟩ := exists_unifyNewlines_cons c t
    rw [hu]
    refine .invalidCharacter ?_
    by_cases hr : c = '\r'
    · exact .inl (by rw [hr]; decide)
    · rwa [newline_of_ne hr]
  | @leadingZero s d t ho hs hd =>
    have he := unifyNewlines_append_of_forall (ne_return_of_leadingZero hs hd) t
    simp only [List.append_assoc, List.cons_append, List.nil_append] at he
    rw [he]
    exact .leadingZero ho hs hd
  | @unterminatedString b t hb ht =>
    have he := unifyNewlines_append_of_forall (ne_return_of_string hb (List.forall_mem_nil _)) t
    rw [List.append_nil, List.cons_append] at he
    rw [he]
    refine .unterminatedString hb ?_
    rcases ht with rfl | rfl | ⟨c, hc, u, rfl⟩
    · exact .inl rfl
    · exact .inr (.inl rfl)
    · obtain ⟨v, hv⟩ := exists_unifyNewlines_cons c u
      refine .inr (.inr ⟨newline c, ?_, v, hv⟩)
      rcases hc with rfl | rfl <;> exact .inl rfl
  | @stringEscape b c t hb hc =>
    obtain ⟨u, hu⟩ := exists_unifyNewlines_cons c t
    have hslash : ∀ d ∈ ['\\'], d ≠ '\n' ∧ d ≠ '\r' := by simp
    have he := unifyNewlines_append_of_forall (ne_return_of_string hb hslash) (c :: t)
    simp only [List.append_assoc, List.cons_append, List.nil_append, hu] at he
    rw [he]
    exact .stringEscape hb (newline_not_mem_escapable hc)
  | @characterEscape t ht =>
    have he := unifyNewlines_append_of_forall (w := ['\'', '\\']) (by simp) t
    have hx := characterEscape (o := o)
      (forall_head?_unifyNewlines (fun _ => newline_not_mem_escapable) ht)
    rw [Found.ahead_unifyNewlines] at hx
    exact he ▸ hx
  | @afterEscape c t hc ht =>
    have hbreak := CharClass.not_break rfl rfl ((mem_escapable c).mp hc)
    have he := unifyNewlines_append_of_forall (w := ['\'', '\\', c]) (by simp [hbreak]) t
    have hx := afterEscape (o := o) hc (head?_unifyNewlines_ne_quote ht)
    rw [Found.ahead_unifyNewlines] at hx
    exact he ▸ hx
  | @noCharacter t ht =>
    have he := unifyNewlines_append_of_forall (w := ['\'']) (by simp) t
    have hx := noCharacter (o := o) (forall_head?_unifyNewlines newline_quote_or_break ht)
    rw [Found.ahead_unifyNewlines] at hx
    exact he ▸ hx
  | @afterCharacter c t hc ht =>
    have hbreak := CharClass.not_break rfl rfl ((mem_characterRaw c).mp hc)
    have he := unifyNewlines_append_of_forall (w := ['\'', c]) (by simp [hbreak]) t
    have hx := afterCharacter (o := o) hc (head?_unifyNewlines_ne_quote ht)
    rw [Found.ahead_unifyNewlines] at hx
    exact he ▸ hx

theorem exists_prefix (h : Diagnosis o t x) :
    ∃ a b, t = a ++ b ∧ a.length = x.offset ∧ ∀ c ∈ a, c ≠ '\r' := by
  cases h with
  | @invalidCharacter c t hc => exact ⟨[], c :: t, rfl, rfl, List.forall_mem_nil _⟩
  | @leadingZero s d t ho hs hd =>
    refine ⟨s ++ ['0'], d :: t, by simp, by simp, fun c hc => ?_⟩
    apply ne_return_of_leadingZero hs hd
    rw [List.append_cons]
    exact List.mem_append_left _ hc
  | @unterminatedString b t hb ht => exact ⟨[], '"' :: (b ++ t), rfl, rfl, List.forall_mem_nil _⟩
  | @stringEscape b c t hb hc =>
    exact ⟨'"' :: (b ++ ['\\']), c :: t, by simp, by simp, ne_return_of_string hb (by simp)⟩
  | @characterEscape t ht => exact ⟨['\'', '\\'], t, rfl, rfl, by simp⟩
  | @afterEscape c t hc ht =>
    have hbreak := CharClass.not_break rfl rfl ((mem_escapable c).mp hc)
    exact ⟨['\'', '\\', c], t, rfl, rfl, by simp [hbreak]⟩
  | @noCharacter t ht => exact ⟨['\''], t, rfl, rfl, by simp⟩
  | @afterCharacter c t hc ht =>
    have hbreak := CharClass.not_break rfl rfl ((mem_characterRaw c).mp hc)
    exact ⟨['\'', c], t, rfl, rfl, by simp [hbreak]⟩

end Diagnosis

def Stop.unifyNewlines (stop : Stop) : Stop :=
  match stop.halt with
  | .fault f => ⟨stop.used, .fault f.unifyNewlines⟩
  | halt => ⟨stop.used, halt⟩

namespace Piece

def unifyNewlines : List Piece → List Piece
  | [] => []
  | blank '\r' :: blank '\n' :: rest => blank '\n' :: unifyNewlines rest
  | blank c :: rest => blank (newline c) :: unifyNewlines rest
  | lexeme k w :: rest => lexeme k w :: unifyNewlines rest

theorem unifyNewlines_blank {c : Char} {ps : List Piece}
    (h : ∀ qs, ps = blank '\n' :: qs → c = '\r' → False) :
    unifyNewlines (blank c :: ps) = blank (newline c) :: unifyNewlines ps :=
  unifyNewlines.eq_3 c ps h

theorem unifyNewlines_append_lexeme (xs : List Piece) (k : Kind) (w : Text) (ys : List Piece) :
    unifyNewlines (xs ++ lexeme k w :: ys) =
      unifyNewlines xs ++ lexeme k w :: unifyNewlines ys := by
  induction xs using unifyNewlines.induct with
  | case1 => rfl
  | case2 xs ih => exact congrArg (blank '\n' :: ·) ih
  | case3 c xs hc ih =>
    rw [List.cons_append, unifyNewlines_blank, unifyNewlines_blank hc, ih]
    · rfl
    · intro qs hqs hr
      cases xs with
      | nil => cases hqs
      | cons x xs =>
        obtain ⟨rfl, -⟩ := List.cons.inj hqs
        exact hc xs rfl hr
  | case4 l v xs ih => exact congrArg (lexeme l v :: ·) ih

end Piece

def Scan.unifyNewlines (s : Scan) : Scan :=
  ⟨Piece.unifyNewlines s.pieces, s.stop.map Stop.unifyNewlines⟩

theorem Scans.head?_eq {o : Options} {t : Text} {s : Scan} {c : Char} {ps : List Piece}
    (h : Scans o t s) (hs : s.pieces = .blank c :: ps) : t.head? = some c := by
  cases h with
  | done => cases hs
  | blank _ _ =>
    obtain ⟨hc, -⟩ := List.cons.inj hs
    rw [Piece.blank.inj hc]
    rfl
  | lexeme _ _ _ => cases (List.cons.inj hs).1
  | halt _ _ => cases hs

theorem Scans.unifyNewlines {o : Options} {t : Text} {s : Scan} (hn : ['\n'] ∈ o.whitespace)
    (hr : ['\r'] ∈ o.whitespace) (h : Scans o t s) :
    Scans o (unifyNewlines t) s.unifyNewlines := by
  induction h with
  | done => exact .done
  | @blank c t s hc h ih =>
    by_cases hb : Broken c t
    · -- The two breaks are one in the new text, which the scan of the second skips.
      obtain ⟨rfl, ht⟩ := hb
      obtain ⟨u, rfl⟩ := List.head?_eq_some_iff.mp ht
      obtain ⟨s, rfl, -⟩ := h.exists_blank (isBlank_iff.mpr hn)
      exact ih
    · have hpieces : Piece.unifyNewlines (Piece.blank c :: s.pieces) =
          Piece.blank (newline c) :: Piece.unifyNewlines s.pieces :=
        unifyNewlines_blank fun qs hqs hcr => hb ⟨hcr, h.head?_eq hqs⟩
      have hblank : o.isBlank (newline c) = true := by
        rw [newline]
        split
        · exact isBlank_iff.mpr hn
        · exact hc
      have hscan := Scans.blank hblank ih
      rw [unifyNewlines_cons hb]
      rw [Scan.cons, Scan.unifyNewlines, ← hpieces] at hscan
      exact hscan
  | @lexeme k w rest s hb hw h ih =>
    rw [unifyNewlines_append_of_forall fun c hc => (not_break_of_mem_lexemes hw.mem c hc).2]
    exact .lexeme hb hw.unifyNewlines ih
  | @halt t x hb hx =>
    refine .halt (forall_head?_unifyNewlines ?_ hb) hx.unifyNewlines
    intro c hc
    have hne : c ≠ '\r' := by
      rintro rfl
      exact Bool.false_ne_true (hc.symm.trans (isBlank_iff.mpr hr))
    rwa [newline_of_ne hne]

def Token.unifyNewlines (source : Text) (u : Token) : Token :=
  { u with offset := (Text.unifyNewlines (source.take u.offset.toNat)).length }

variable {o : Options} {t : Text} {s : Scan}

theorem width_unifyNewlines (hn : ['\n'] ∈ o.whitespace) (hr : ['\r'] ∈ o.whitespace)
    (h : Scans o t s) {xs ys : List Piece} (hs : s.pieces = xs ++ ys) :
    width (Piece.unifyNewlines xs) = (unifyNewlines (t.take (width xs))).length :=
  ((h.take hs).unifyNewlines hn hr).width_eq rfl

theorem tokens_unifyNewlines_concat (p : ℕ) (xs : List Piece) (c : Char) :
    tokens p (Piece.unifyNewlines (xs ++ [blank c])) = tokens p (Piece.unifyNewlines xs) := by
  induction xs using Piece.unifyNewlines.induct generalizing p with
  | case1 =>
    rw [List.nil_append, unifyNewlines_blank (by simp)]
    rfl
  | case2 xs ih => exact ih (p + 1)
  | case3 d xs hd ih =>
    rw [unifyNewlines_blank hd, tokens, ← ih (p + 1)]
    cases xs with
    | nil =>
      by_cases hbreak : d = '\r' ∧ c = '\n'
      · obtain ⟨rfl, rfl⟩ := hbreak
        rfl
      · rw [List.cons_append, unifyNewlines_blank, tokens]
        intro qs hqs hr
        exact hbreak ⟨hr, Piece.blank.inj (List.cons.inj hqs).1⟩
    | cons x xs =>
      rw [List.cons_append, unifyNewlines_blank, tokens]
      intro qs hqs hr
      obtain ⟨rfl, -⟩ := List.cons.inj hqs
      exact hd xs rfl hr
  | case4 k w xs ih =>
    exact congrArg (_ :: ·) (ih (p + w.length))

theorem tokens_unifyNewlines (hn : ['\n'] ∈ o.whitespace) (hr : ['\r'] ∈ o.whitespace)
    (h : Scans o t s) : tokens 0 (Piece.unifyNewlines s.pieces) =
      (tokens 0 s.pieces).map (Token.unifyNewlines t) := by
  have hprefix (xs ys : List Piece) (hs : s.pieces = xs ++ ys) :
      tokens 0 (Piece.unifyNewlines xs) = (tokens 0 xs).map (Token.unifyNewlines t) := by
    induction xs using List.reverseRecOn generalizing ys with
    | nil => rfl
    | append_singleton xs x ih =>
      rw [List.append_assoc] at hs
      rw [tokens_append, List.map_append, ← ih _ hs]
      cases x with
      | blank c => rw [tokens_unifyNewlines_concat, tokens, tokens, List.map_nil, List.append_nil]
      | lexeme k w =>
        rw [unifyNewlines_append_lexeme, tokens_append, tokens, tokens,
          width_unifyNewlines hn hr h hs]
        simp [Piece.unifyNewlines, tokens, Token.unifyNewlines]
  exact hprefix s.pieces [] (List.append_nil _).symm

theorem Scans.not_broken (hn : ['\n'] ∈ o.whitespace) (h : Scans o t s)
    (hs : ∀ ps, s.pieces ≠ .blank '\n' :: ps) (c : Char) : ¬ Broken c t := by
  rintro ⟨-, ht⟩
  obtain ⟨u, rfl⟩ := List.head?_eq_some_iff.mp ht
  obtain ⟨s, rfl, -⟩ := h.exists_blank (isBlank_iff.mpr hn)
  exact hs s.pieces rfl

theorem lineColumn_behind_pieces (hn : ['\n'] ∈ o.whitespace) (hr : ['\r'] ∈ o.whitespace)
    (h : Scans o t s) {xs ys : List Piece} (hs : s.pieces = xs ++ ys)
    (hys : ∀ ps, ys ≠ .blank '\n' :: ps) {a b : Text} (hab : t.drop (width xs) = a ++ b)
    (ha : ∀ c ∈ a, c ≠ '\r') (f g : Text) :
    (Location.of (unifyNewlines t) (width (Piece.unifyNewlines xs) + a.length : ℕ) f).lineColumn =
      (Location.of t (width xs + a.length : ℕ) g).lineColumn := by
  have hbroken := (h.drop hs).not_broken hn hys
  have hwidth : (t.take (width xs)).length = width xs := ((h.take hs).width_eq rfl).symm
  have htake : t.take (width xs + a.length) = t.take (width xs) ++ a := by
    rw [List.take_add, hab, List.take_left]
  have hdrop : t.drop (width xs + a.length) = b := by
    rw [← List.drop_drop, hab, List.drop_left]
  have hcut : unifyNewlines (t.take (width xs) ++ a) = unifyNewlines (t.take (width xs)) ++ a := by
    rw [unifyNewlines_append, unifyNewlines_eq_self ha]
    rintro c - ⟨hc, hhead⟩
    refine hbroken c ⟨hc, ?_⟩
    rw [hab, List.head?_append, hhead]
    rfl
  rw [width_unifyNewlines hn hr h hs, ← List.length_append, ← hcut, ← htake]
  apply Location.lineColumn_unifyNewlines
  · have hlength := congrArg List.length hab
    rw [List.length_append, List.length_drop] at hlength
    rw [List.length_take] at hwidth
    omega
  · intro c hc
    rw [hdrop]
    rw [htake, List.getLast?_append] at hc
    cases ha' : a.getLast? with
    | none =>
      rw [List.getLast?_eq_none_iff] at ha'
      rw [ha', List.nil_append] at hab
      exact hab ▸ hbroken c
    | some d =>
      rw [ha', Option.some_or, Option.mem_def, Option.some.injEq] at hc
      exact not_broken (hc ▸ ha d (List.mem_of_getLast? ha')) b

theorem lex_unifyNewlines_of_ok {f : Text} {ts : List Token} (hn : ['\n'] ∈ o.whitespace)
    (hr : ['\r'] ∈ o.whitespace) (h : lex o f t = .ok ts) (g : Text) :
    lex o g (unifyNewlines t) = .ok (ts.map (Token.unifyNewlines t)) ∧ ∀ u ∈ ts,
      (Location.of (unifyNewlines t) (u.unifyNewlines t).offset g).lineColumn =
        (Location.of t u.offset f).lineColumn := by
  obtain ⟨ps, hps, rfl⟩ := lex_ok_iff.mp h
  rw [← tokens_unifyNewlines hn hr hps]
  refine ⟨lex_of_done (hps.unifyNewlines hn hr), fun u hu => ?_⟩
  obtain ⟨xs, k, w, ys, rfl, rfl⟩ := mem_tokens.mp hu
  have hplace := lineColumn_behind_pieces hn hr hps rfl (by simp) (List.nil_append _).symm
    (List.forall_mem_nil _) g f
  rw [width_unifyNewlines hn hr hps rfl] at hplace
  simpa [Token.unifyNewlines] using hplace

theorem lex_unifyNewlines_of_error {f : Text} {e : LexicalError} (hn : ['\n'] ∈ o.whitespace)
    (hr : ['\r'] ∈ o.whitespace) (h : lex o f t = .error (.lexical e)) (g : Text) :
    ∃ d, lex o g (unifyNewlines t) = .error (.lexical d) ∧ d.fault = e.fault.unifyNewlines ∧
      d.location.lineColumn = e.location.lineColumn := by
  obtain ⟨ps, x, hps, hx, he⟩ := lex_error_iff.mp h
  obtain rfl := Failure.lexical.inj he
  have hps' : ps = ps ++ [] := (List.append_nil ps).symm
  have hdrop : (unifyNewlines t).drop (width (Piece.unifyNewlines ps)) =
      unifyNewlines (t.drop (width ps)) := by
    have hbroken := (hps.drop hps').not_broken hn (by simp)
    have hcut := unifyNewlines_append (t := t.take (width ps)) fun c _ => hbroken c
    rw [List.take_append_drop] at hcut
    rw [hcut, width_unifyNewlines hn hr hps hps', List.drop_left]
  refine ⟨_, lex_of_halt (hps.unifyNewlines hn hr) (hdrop ▸ hx.unifyNewlines), rfl, ?_⟩
  obtain ⟨a, b, hab, hlength, ha⟩ := hx.exists_prefix
  have hplace := lineColumn_behind_pieces hn hr hps hps' (by simp) hab ha g f
  rw [hlength] at hplace
  exact hplace

end PlcScan
