import PlcScan.Cursor
import PlcScan.Proofs.Pieces

/-!
Scanning goes forward. The rules say how many characters they take; seen from the cursor, they take
them in loops, pass by pass. Main statement: every pass moves the cursor on inside the text, the
loops end where the rules say, and scanning gives tokens or a fault of the text and nothing else. A
rule that takes nothing is stopped at the first character that is not blank.
-/

namespace PlcScan

open Grammar Relation

namespace Cursor

variable {c d : Cursor} {n : ℕ} {p : Char → Bool}

def advances : ℕ → Cursor → Except Breach Cursor
  | 0, c => .ok c
  | n + 1, c => c.advance.bind (advances n)

theorem rest_move (c : Cursor) (n : ℕ) : (c.move n).rest = c.rest.drop n := by
  rw [rest, rest, List.drop_drop]
  rfl

theorem rest_move_append {w t : Text} (h : c.rest = w ++ t) : (c.move w.length).rest = t := by
  rw [rest_move, h, List.drop_left]

theorem move_move (c : Cursor) (m n : ℕ) : (c.move m).move n = c.move (m + n) := by
  simp [move, Nat.add_assoc]

theorem length_rest (c : Cursor) : c.rest.length = c.source.length - c.position :=
  List.length_drop

theorem position_add_le (h : n ≤ c.rest.length) (hn : 0 < n) :
    c.position + n ≤ c.source.length := by
  rw [length_rest] at h
  omega

theorem advances_eq (h : n ≤ c.rest.length) : c.advances n = .ok (c.move n) := by
  induction n generalizing c with
  | zero => rfl
  | succ n ih =>
    have hle := position_add_le h (Nat.succ_pos n)
    have hadvance : c.advance = .ok (c.move 1) := if_pos (by omega)
    have hrest : n ≤ (c.move 1).rest.length := by
      rw [rest_move, List.length_drop]
      omega
    rw [advances, hadvance]
    change (c.move 1).advances n = _
    rw [ih hrest, move_move, Nat.add_comm]

theorem peek_cons {a : Char} {t : Text} (h : c.rest = a :: t) : c.peek [p] = p a := by
  simp [peek, h, Text.starts]

theorem peek_iff : c.peek [p] = true ↔ ∃ a t, c.rest = a :: t ∧ p a = true :=
  Text.starts_singleton

theorem accept_iff :
    c.accept [p] = (true, d) ↔ (∃ a t, c.rest = a :: t ∧ p a = true) ∧ d = c.move 1 := by
  rw [← peek_iff, accept]
  by_cases h : c.peek [p] = true
  · simp [h, eq_comm]
  · simp [h]

theorem has_iff : c.has n = true ↔ n < c.rest.length := by
  rw [length_rest]
  simp only [has, Bool.and_eq_true, decide_eq_true_eq]
  omega

end Cursor

theorem Diagnosis.used_le {o : Options} {t : Text} {x : Finding} (h : Diagnosis o t x) :
    x.used ≤ t.length := by
  cases h <;> simp

theorem Rule.token_cases (o : Options) (t : Text) :
    (∃ k w rest, t = w ++ rest ∧ Ends o k w rest ∧ token o t = .accept w.length k) ∨
      ∃ n f, n ≤ t.length ∧ token o t = .refuse n f := by
  by_cases ht : t = []
  · subst ht
    exact .inr ⟨0, _, le_rfl, rfl⟩
  · rcases ends_or_diagnosis o ht with ⟨k, w, rest, rfl, hw⟩ | ⟨x, hx⟩
    · exact .inl ⟨k, w, rest, rfl, hw, token_append hw⟩
    · exact .inr ⟨x.used, x.fault, hx.used_le, token_of_diagnosis hx⟩

theorem Rule.token_used_le (o : Options) (t : Text) : (token o t).used ≤ t.length := by
  rcases token_cases o t with ⟨k, w, rest, rfl, -, h⟩ | ⟨n, f, hn, h⟩
  · rw [h, List.length_append]
    exact Nat.le_add_right ..
  · rwa [h]

theorem Rule.token_ne_noDigit (o : Options) (t : Text) :
    (token o t).result ≠ .error .noDigit := by
  rcases token_cases o t with ⟨k, w, rest, -, -, h⟩ | ⟨n, f, -, h⟩ <;>
    simp [h, Munch.accept, Munch.refuse]

theorem Rule.used_pos {o : Options} {t : Text} {n : ℕ} {k : Kind} (h : token o t = .accept n k) :
    0 < n := by
  rcases token_cases o t with ⟨l, w, rest, -, hw, he⟩ | ⟨m, f, -, he⟩
  · have hn : w.length = n := congrArg Munch.used (he.symm.trans h)
    rw [← hn]
    exact List.length_pos_of_ne_nil (ne_nil_of_mem hw.mem)
  · simp [h, Munch.accept, Munch.refuse] at he

inductive Loop
  | text
  | identifier
  | digits
  | string

inductive Pass (o : Options) : Loop → Cursor → Cursor → Prop
  | blank {c d} : c.accept [o.isBlank] = (true, d) → Pass o .text c d.resetPending
  | lexeme {c n k} : c.has 0 = true → c.peek [o.isBlank] = false →
      Rule.token o c.rest = .accept n k → Pass o .text c ((c.move n).emit k).2
  | identifier {c d} : c.accept [o.identifierPart.mem] = (true, d) → Pass o .identifier c d
  | digit {c d} : c.accept [CharClass.digit.mem] = (true, d) → Pass o .digits c d
  | escape {c n} : c.peek [CharClass.doubleQuote.mem] = false →
      c.peek [CharClass.backslash.mem] = true → c.has 1 = true →
      Rule.escape c.rest = .accept n () → Pass o .string c (c.move n)
  | raw {c d} : c.peek [CharClass.doubleQuote.mem] = false →
      (c.peek [CharClass.backslash.mem] && c.has 1) = false →
      c.accept [CharClass.stringBody.mem] = (true, d) → Pass o .string c d

/-- Passes over the text, with the tokens that they emit. -/
inductive Emits (o : Options) : Cursor → List Token → Cursor → Prop
  | nil (c) : Emits o c [] c
  | blank {c d e us} : c.accept [o.isBlank] = (true, d) → Emits o d.resetPending us e →
      Emits o c us e
  | lexeme {c d n k us} : c.has 0 = true → c.peek [o.isBlank] = false →
      Rule.token o c.rest = .accept n k → Emits o ((c.move n).emit k).2 us d →
      Emits o c (((c.move n).emit k).1 :: us) d

def Halts {α : Type} (r : α → α → Prop) (c d : α) : Prop := ReflTransGen r c d ∧ ∀ e, ¬ r d e

variable {o : Options} {c d : Cursor}

theorem halts_takeWhile {p : Char → Bool} {r : Cursor → Cursor → Prop}
    (hr : ∀ c d, r c d ↔ c.accept [p] = (true, d)) (c : Cursor) :
    Halts r c (c.move (c.rest.takeWhile p).length) := by
  induction h : c.rest generalizing c with
  | nil =>
    refine ⟨.refl, fun e he => ?_⟩
    obtain ⟨⟨a, t, hat, -⟩, -⟩ := Cursor.accept_iff.mp ((hr _ _).mp he)
    rw [Cursor.rest_move, h] at hat
    cases hat
  | cons a t ih =>
    by_cases ha : p a = true
    · have hpass : r c (c.move 1) := (hr _ _).mpr (Cursor.accept_iff.mpr ⟨⟨a, t, h, ha⟩, rfl⟩)
      have hrest : (c.move 1).rest = t := Cursor.rest_move_append (w := [a]) h
      obtain ⟨hchain, hend⟩ := ih (c.move 1) hrest
      rw [Cursor.move_move, Nat.add_comm] at hchain hend
      rw [List.takeWhile_cons_of_pos ha, List.length_cons]
      exact ⟨.head hpass hchain, hend⟩
    · rw [List.takeWhile_cons_of_neg ha]
      refine ⟨.refl, fun e he => ?_⟩
      obtain ⟨⟨b, u, hbu, hb⟩, -⟩ := Cursor.accept_iff.mp ((hr _ _).mp he)
      obtain ⟨rfl, -⟩ := List.cons.inj (h.symm.trans hbu)
      exact ha hb

theorem pass_identifier_iff : Pass o .identifier c d ↔ c.accept [o.identifierPart.mem] = (true, d) :=
  ⟨fun h => by cases h; assumption, .identifier⟩

theorem pass_digits_iff : Pass o .digits c d ↔ c.accept [CharClass.digit.mem] = (true, d) :=
  ⟨fun h => by cases h; assumption, .digit⟩

theorem Rule.escape_cons (a : Char) (t : Text) : escape ('\\' :: a :: t) =
    if CharClass.escapeChar.mem a then .accept 2 () else .refuse 1 (.invalidEscape (.char a)) := by
  simp [escape, leading, CharClass.mem]

theorem pass_string_iff : Pass o .string c d ↔
    (∃ a t, c.rest = '\\' :: a :: t ∧ CharClass.escapeChar.mem a = true ∧ d = c.move 2) ∨
      ∃ a t, c.rest = a :: t ∧ CharClass.stringBody.mem a = true ∧ d = c.move 1 := by
  constructor
  · intro h
    cases h with
    | @escape _ n _ hslash hhas he =>
      obtain ⟨b, u, hu, hb⟩ := Cursor.peek_iff.mp hslash
      obtain rfl : b = '\\' := by simpa [CharClass.mem] using hb
      have hlen : 1 < c.rest.length := Cursor.has_iff.mp hhas
      cases u with
      | nil => simp [hu] at hlen
      | cons a t =>
        rw [hu, Rule.escape_cons] at he
        by_cases ha : CharClass.escapeChar.mem a = true
        · rw [if_pos ha] at he
          have hn : 2 = n := congrArg Munch.used he
          exact .inl ⟨a, t, hu, ha, by rw [hn]⟩
        · rw [if_neg ha] at he
          simp [Munch.accept, Munch.refuse] at he
    | raw _ _ ha =>
      obtain ⟨⟨a, t, hat, hmem⟩, rfl⟩ := Cursor.accept_iff.mp ha
      exact .inr ⟨a, t, hat, hmem, rfl⟩
  · rintro (⟨a, t, h, ha, rfl⟩ | ⟨a, t, h, ha, rfl⟩)
    · have hhas : c.has (1 : ℕ) = true := Cursor.has_iff.mpr (by simp [h])
      apply Pass.escape
      · rw [Cursor.peek_cons h]
        rfl
      · rw [Cursor.peek_cons h]
        rfl
      · exact hhas
      · rw [h, Rule.escape_cons, if_pos ha]
    · have hq : a ≠ '"' := CharClass.ne_of_mem ha rfl
      have hslash : a ≠ '\\' := CharClass.ne_of_mem ha rfl
      apply Pass.raw
      · simp [Cursor.peek_cons h, CharClass.mem, hq]
      · simp [Cursor.peek_cons h, CharClass.mem, hslash]
      · exact Cursor.accept_iff.mpr ⟨⟨a, t, h, ha⟩, rfl⟩

theorem passes_of_mem_stringBody {b t : Text} (hb : b ∈ stringBody) (h : c.rest = b ++ t) :
    ReflTransGen (Pass o .string) c (c.move b.length) := by
  induction hb using stringBody_induction generalizing c with
  | nil => exact .refl
  | raw a b ha hb ih =>
    have hpass : Pass o .string c (c.move 1) := pass_string_iff.mpr (.inr ⟨a, b ++ t, h, ha, rfl⟩)
    have hrest : (c.move 1).rest = b ++ t := Cursor.rest_move_append (w := [a]) h
    have hchain := ih hrest
    rw [Cursor.move_move, Nat.add_comm] at hchain
    exact .head hpass hchain
  | escape a b ha hb ih =>
    have hpass : Pass o .string c (c.move 2) := pass_string_iff.mpr (.inl ⟨a, b ++ t, h, ha, rfl⟩)
    have hrest : (c.move 2).rest = b ++ t := Cursor.rest_move_append (w := ['\\', a]) h
    have hchain := ih hrest
    rw [Cursor.move_move, Nat.add_comm] at hchain
    exact .head hpass hchain

theorem not_pass_string {r : Text} (h : c.rest = r)
    (hr : (r = [] ∨ r = ['\\'] ∨ ∃ a ∈ breaks, ∃ u, r = a :: u) ∨
      (∃ a ∉ escapable, ∃ u, r = '\\' :: a :: u) ∨ ∃ u, r = '"' :: u) : ¬ Pass o .string c d := by
  intro hpass
  rw [pass_string_iff, h] at hpass
  simp only [← mem_escapable, ← mem_stringRaw] at hpass
  rcases hpass with ⟨a, t, hat, ha, -⟩ | ⟨a, t, hat, ha, -⟩
  · rcases hr with (rfl | rfl | ⟨x, hx, u, rfl⟩) | ⟨x, hx, u, rfl⟩ | ⟨u, rfl⟩
    · cases hat
    · cases hat
    · obtain ⟨rfl, -⟩ := List.cons.inj hat
      simp [breaks] at hx
    · obtain ⟨rfl, -⟩ := List.cons.inj (List.cons.inj hat).2
      exact hx ha
    · simp at hat
  · have hhead : r.head? = some a := by rw [hat]; rfl
    rcases hr with (rfl | rfl | ⟨x, hx, u, rfl⟩) | ⟨x, -, u, rfl⟩ | ⟨u, rfl⟩
    · cases hhead
    all_goals obtain rfl := Option.some.inj hhead
    · simp [stringRaw] at ha
    · exact ha (.inr hx)
    · simp [stringRaw] at ha
    · simp [stringRaw] at ha

theorem halts_string (o : Options) (c : Cursor) : ∃ n, Halts (Pass o .string) c (c.move n) ∧
    Rule.stringRest c.rest = (Rule.stringRest (c.move n).rest).after n := by
  obtain ⟨b, hb, r, h, hr⟩ := exists_stringBody c.rest
  have hrest : (c.move b.length).rest = r := Cursor.rest_move_append h
  refine ⟨b.length, ⟨passes_of_mem_stringBody hb h, fun e => not_pass_string hrest hr⟩, ?_⟩
  rw [hrest, h, Rule.stringRest_append hb]

theorem Emits.passes {us : List Token} (h : Emits o c us d) : ReflTransGen (Pass o .text) c d := by
  induction h with
  | nil c => exact .refl
  | blank ha _ ih => exact .head (.blank ha) ih
  | lexeme hhas hb hk _ ih => exact .head (.lexeme hhas hb hk) ih

theorem emit_of_rest {w t : Text} (hc : c.rest = w ++ t) (hp : c.pending = 0) (k : Kind) :
    ((c.move w.length).emit k).1 = ⟨k, w, c.position⟩ := by
  have hstart : (c.move w.length).start = c.position := by
    simp only [Cursor.start, Cursor.move]
    omega
  have hdrop : c.source.drop c.position = w ++ t := hc
  have hlength : (c.move w.length).position - c.position = w.length := Nat.add_sub_cancel_left ..
  have hlexeme : c.source.slice c.position (c.move w.length).position = w := by
    rw [Text.slice_natCast, hlength, hdrop, List.take_left]
  rw [Cursor.emit, hstart]
  exact congrArg (Token.mk k · _) hlexeme

theorem resetPending_move_zero (hp : c.pending = 0) : (c.move 0).resetPending = c := by
  cases c
  simpa [Cursor.move, Cursor.resetPending] using hp.symm

theorem resetPending_move_move (c : Cursor) (m n : ℕ) :
    ((c.move m).resetPending.move n).resetPending = (c.move (m + n)).resetPending := by
  rw [← Cursor.move_move]
  rfl

theorem emits_of_scans {t : Text} {s : Scan} (h : Scans o t s) (hc : c.rest = t)
    (hp : c.pending = 0) :
    Emits o c (Piece.tokens c.position s.pieces)
      (c.move (Piece.width s.pieces)).resetPending := by
  -- A piece is one pass, and leaves nothing pending for the next.
  induction h generalizing c with
  | done =>
    rw [Piece.width_nil, resetPending_move_zero hp]
    exact .nil c
  | @blank a t s ha h ih =>
    have hrest : (c.move 1).resetPending.rest = t := Cursor.rest_move_append (w := [a]) hc
    have hemits := ih hrest rfl
    rw [resetPending_move_move] at hemits
    apply Emits.blank _ hemits
    exact Cursor.accept_iff.mpr ⟨⟨a, t, hc, ha⟩, rfl⟩
  | @lexeme k w rest s hb hw h ih =>
    obtain ⟨a, v, rfl⟩ := List.exists_cons_of_ne_nil (ne_nil_of_mem hw.mem)
    have hhas : c.has (0 : ℕ) = true := Cursor.has_iff.mpr (by simp [hc])
    have hblank : c.peek [o.isBlank] = false := (Cursor.peek_cons hc).trans (hb a rfl)
    have htoken : Rule.token o c.rest = .accept (a :: v).length k := by
      rw [hc]
      exact Rule.token_append hw
    have hrest : (c.move (a :: v).length).resetPending.rest = rest := Cursor.rest_move_append hc
    have hemits := ih hrest rfl
    rw [resetPending_move_move] at hemits
    have hpass := Emits.lexeme hhas hblank htoken hemits
    rw [emit_of_rest hc hp] at hpass
    exact hpass
  | halt =>
    rw [Piece.width_nil, resetPending_move_zero hp]
    exact .nil c

theorem not_pass_text_nil (h : c.rest = []) : ¬ Pass o .text c d := by
  intro hpass
  cases hpass with
  | blank ha =>
    obtain ⟨⟨a, t, hat, -⟩, -⟩ := Cursor.accept_iff.mp ha
    rw [h] at hat
    cases hat
  | lexeme hhas =>
    have hlen : 0 < c.rest.length := Cursor.has_iff.mp hhas
    simp [h] at hlen

theorem not_pass_text_diagnosis {x : Finding} (hb : ∀ a ∈ c.rest.head?, o.isBlank a = false)
    (hx : Diagnosis o c.rest x) : ¬ Pass o .text c d := by
  intro hpass
  cases hpass with
  | blank ha =>
    obtain ⟨⟨a, t, hat, ha⟩, -⟩ := Cursor.accept_iff.mp ha
    have hblank := hb a (by rw [hat]; rfl)
    rw [ha] at hblank
    cases hblank
  | lexeme _ _ hk =>
    rw [Rule.token_of_diagnosis hx] at hk
    simp [Munch.accept, Munch.refuse] at hk

theorem Scans.emits {source : Text} {s : Scan} (h : Scans o source s) :
    Emits o ⟨source, 0, 0⟩ (Piece.tokens 0 s.pieces) ⟨source, Piece.width s.pieces, 0⟩ := by
  have hemits := emits_of_scans (c := ⟨source, 0, 0⟩) h rfl rfl
  simp only [Cursor.move, Cursor.resetPending, Nat.zero_add] at hemits
  exact hemits

theorem halts_text (o : Options) (source : Text) : Halts (Pass o .text) ⟨source, 0, 0⟩
    ⟨source, Piece.width (Scan.of o (Rule.token o) source).pieces, 0⟩ := by
  have h := scans_of o source
  refine ⟨h.emits.passes, fun e => ?_⟩
  cases hs : (Scan.of o (Rule.token o) source).stop with
  | none =>
    apply not_pass_text_nil
    simp [Cursor.rest, h.width_eq hs]
  | some stop =>
    obtain ⟨x, hb, hx, -⟩ := h.diagnosis hs
    exact not_pass_text_diagnosis hb hx

theorem scans_of_emits {us : List Token} (h : Emits o c us d) (hp : c.pending = 0)
    (hd : d.rest = []) : ∃ ps, Scans o c.rest ⟨ps, none⟩ ∧ Piece.tokens c.position ps = us := by
  induction h with
  | nil c =>
    rw [hd]
    exact ⟨[], .done, rfl⟩
  | @blank c d e us haccept _ ih =>
    obtain ⟨⟨a, t, hat, ha⟩, rfl⟩ := Cursor.accept_iff.mp haccept
    obtain ⟨ps, hps, rfl⟩ := ih rfl hd
    rw [hat]
    have hrest : (c.move 1).resetPending.rest = t := Cursor.rest_move_append (w := [a]) hat
    rw [hrest] at hps
    exact ⟨.blank a :: ps, .blank ha hps, rfl⟩
  | @lexeme c d n k us _ hb hk _ ih =>
    rcases Rule.token_cases o c.rest with ⟨l, w, rest, hw, hends, htoken⟩ | ⟨m, f, -, htoken⟩
    · rw [hk] at htoken
      obtain ⟨rfl, rfl⟩ : n = w.length ∧ k = l := by simpa [Munch.accept] using htoken
      obtain ⟨a, v, rfl⟩ := List.exists_cons_of_ne_nil (ne_nil_of_mem hends.mem)
      have hblank : ∀ b ∈ (a :: v).head?, o.isBlank b = false := by
        rintro b ⟨⟩
        exact (Cursor.peek_cons hw).symm.trans hb
      have hrest : ((c.move (a :: v).length).emit k).2.rest = rest := Cursor.rest_move_append hw
      obtain ⟨ps, hps, rfl⟩ := ih rfl hd
      rw [hrest] at hps
      rw [hw, emit_of_rest hw hp]
      exact ⟨.lexeme k (a :: v) :: ps, .lexeme hblank hends hps, rfl⟩
    · rw [hk] at htoken
      simp [Munch.accept, Munch.refuse] at htoken

theorem lex_ok_iff_emits {filename source : Text} {ts : List Token} :
    lex o filename source = .ok ts ↔
      Emits o ⟨source, 0, 0⟩ ts ⟨source, source.length, 0⟩ := by
  rw [lex_ok_iff]
  constructor
  · rintro ⟨ps, hps, rfl⟩
    rw [← hps.width_eq rfl]
    exact hps.emits
  · intro h
    exact scans_of_emits h rfl List.drop_length

theorem Cursor.move_forward {n : ℕ} (hn : 0 < n) (h : n ≤ c.rest.length) :
    c.position < (c.move n).position ∧ (c.move n).position ≤ c.source.length :=
  ⟨Nat.lt_add_of_pos_right hn, position_add_le h hn⟩

theorem accept_forward {p : Char → Bool} (h : c.accept [p] = (true, d)) :
    c.position < d.position ∧ d.position ≤ c.source.length := by
  obtain ⟨⟨a, t, hat, -⟩, rfl⟩ := Cursor.accept_iff.mp h
  exact Cursor.move_forward Nat.one_pos (by simp [hat])

theorem Pass.forward {l : Loop} (h : Pass o l c d) :
    c.position < d.position ∧ d.position ≤ c.source.length := by
  cases l with
  | text =>
    cases h with
    | blank ha =>
      have hd := accept_forward ha
      exact hd
    | lexeme _ _ hk =>
      have hle := Rule.token_used_le o c.rest
      rw [hk] at hle
      exact Cursor.move_forward (Rule.used_pos hk) hle
  | identifier => exact accept_forward (pass_identifier_iff.mp h)
  | digits => exact accept_forward (pass_digits_iff.mp h)
  | string =>
    rcases pass_string_iff.mp h with ⟨a, t, hat, -, rfl⟩ | ⟨a, t, hat, -, rfl⟩
    · exact Cursor.move_forward Nat.two_pos (by simp [hat])
    · exact Cursor.move_forward Nat.one_pos (by simp [hat])

namespace Scan

variable {rule : Text → Munch Kind}

theorem of_blanks (g t : Text) (hg : ∀ a ∈ g, o.isBlank a = true) :
    of o rule (g ++ t) = ⟨g.map .blank ++ (of o rule t).pieces, (of o rule t).stop⟩ := by
  induction g with
  | nil => rfl
  | cons a g ih =>
    obtain ⟨ha, hg⟩ := List.forall_mem_cons.mp hg
    rw [List.cons_append, of_blank ha, ih hg]
    rfl

theorem of_idle {a : Char} {t : Text} {k : Kind} (ha : o.isBlank a = false)
    (h : rule (a :: t) = .accept 0 k) : of o rule (a :: t) = ⟨[], some ⟨0, .noProgress⟩⟩ := by
  rw [of, h]
  simp [ha, Munch.accept]

end Scan

theorem lexWith_blanks {g : Text} (hg : ∀ a ∈ g, o.isBlank a = true) (rule : Text → Munch Kind)
    (filename : Text) : lexWith rule o filename g = .ok [] := by
  have hscan : Scan.of o rule (g ++ []) = _ := Scan.of_blanks g [] hg
  rw [List.append_nil, Scan.of, List.append_nil] at hscan
  rw [lexWith, hscan, Scan.outcome, Piece.tokens_blanks]

theorem lexWith_idle {rule : Text → Munch Kind} {g t : Text} {a : Char} {k : Kind}
    (hg : ∀ b ∈ g, o.isBlank b = true) (ha : o.isBlank a = false)
    (h : rule (a :: t) = .accept 0 k) (filename : Text) :
    lexWith rule o filename (g ++ a :: t) = .error (.internal (.noProgress g.length)) := by
  have hscan : Scan.of o rule (g ++ a :: t) = _ := Scan.of_blanks g (a :: t) hg
  rw [Scan.of_idle ha h, List.append_nil] at hscan
  rw [lexWith, hscan, Scan.outcome, Piece.width_blanks]
  rfl

theorem lex_progress (o : Options) (filename source : Text) :
    ((∃ ts, lex o filename source = .ok ts) ∨
      ∃ e, lex o filename source = .error (.lexical e)) ∧
    (∀ c : Cursor, c.advances (Rule.token o c.rest).used =
        .ok (c.move (Rule.token o c.rest).used) ∧
      (Rule.token o c.rest).result ≠ .error .noDigit ∧
      ∀ l d, Pass o l c d → c.position < d.position ∧ d.position ≤ c.source.length) ∧
    Halts (Pass o .text) ⟨source, 0, 0⟩
      ⟨source, Piece.width (Scan.of o (Rule.token o) source).pieces, 0⟩ ∧
    (∀ c : Cursor, Halts (Pass o .identifier) c (c.move (Rule.run o.identifierPart c.rest)) ∧
      Halts (Pass o .digits) c (c.move (Rule.run .digit c.rest)) ∧
      ∃ n, Halts (Pass o .string) c (c.move n) ∧
        Rule.stringRest c.rest = (Rule.stringRest (c.move n).rest).after n) ∧
    ∀ rule : Text → Munch Kind, (∀ t, ∃ k, rule t = .accept 0 k) →
      ((∀ a ∈ source, [a] ∈ o.whitespace) → lexWith rule o filename source = .ok []) ∧
      ∀ i a, source[i]? = some a → [a] ∉ o.whitespace →
        (∀ b ∈ source.take i, [b] ∈ o.whitespace) →
        lexWith rule o filename source = .error (.internal (.noProgress i)) := by
  refine ⟨?_, fun c => ⟨?_, ?_, fun l d => Pass.forward⟩, halts_text o source,
    fun c => ⟨?_, ?_, halts_string o c⟩, fun rule hrule => ⟨fun h => ?_, fun i a ha hblank hg => ?_⟩⟩
  · rcases scans_cases o source with ⟨ps, hps⟩ | ⟨ps, x, hps, hx⟩
    · exact .inl ⟨_, lex_of_done hps⟩
    · exact .inr ⟨_, lex_of_halt hps hx⟩
  · exact Cursor.advances_eq (Rule.token_used_le o c.rest)
  · exact Rule.token_ne_noDigit o c.rest
  · exact halts_takeWhile (fun _ _ => pass_identifier_iff) c
  · exact halts_takeWhile (fun _ _ => pass_digits_iff) c
  · exact lexWith_blanks (fun a ha => isBlank_iff.mpr (h a ha)) rule filename
  · obtain ⟨hi, rfl⟩ := List.getElem?_eq_some_iff.mp ha
    obtain ⟨k, hk⟩ := hrule (source[i] :: source.drop (i + 1))
    rw [← isBlank_iff, Bool.not_eq_true] at hblank
    have he := lexWith_idle (fun b hb => isBlank_iff.mpr (hg b hb)) hblank hk filename
    rwa [← List.drop_eq_getElem_cons hi, List.take_append_drop, List.length_take_of_le hi.le] at he

theorem lex_progress_stuck :
    lexWith Rule.stuck {} [] [' ', '\t', 'x', ' '] = .error (.internal (.noProgress 2)) ∧
    ∃ d, Pass {} .string ⟨['"', '\\', 'n', '"'], 1, 1⟩ d ∧ 1 < d.position := by
  constructor
  · have h := (lex_progress {} [] [' ', '\t', 'x', ' ']).2.2.2.2 Rule.stuck fun _ => ⟨.operator, rfl⟩
    exact h.2 2 'x' rfl (by decide) (by simp)
  · have hpass : Pass {} .string ⟨['"', '\\', 'n', '"'], 1, 1⟩ ⟨['"', '\\', 'n', '"'], 3, 3⟩ :=
      pass_string_iff.mpr (.inl ⟨'n', ['"'], rfl, rfl, rfl⟩)
    exact ⟨_, hpass, ((lex_progress {} [] []).2.1 _).2.2 _ _ hpass |>.1⟩

end PlcScan
