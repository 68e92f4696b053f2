import PlcScan.Proofs.Pieces
import PlcScan.Token.Value

namespace PlcScan

open Grammar

inductive Spelling (quote : Char) : Char → Text → Prop
  | raw {c} : c ≠ '\\' → c ≠ '\n' → c ≠ '\r' → c ≠ quote → Spelling quote c [c]
  | escape {e c} : Escape.value? e = some c → Spelling quote c ['\\', e]

inductive Encodes (quote : Char) : Text → Text → Prop
  | nil : Encodes quote [] []
  | cons {c v s e} : Spelling quote c s → Encodes quote v e → Encodes quote (c :: v) (s ++ e)

def Text.enclose (q : Char) (e : Text) : Text := q :: (e ++ [q])

theorem Encodes.singleton {q c : Char} {e : Text} : Encodes q [c] e ↔ Spelling q c e := by
  constructor
  · intro h
    cases h with
    | cons hs hnil =>
      cases hnil
      rwa [List.append_nil]
  · intro h
    have he := Encodes.cons h .nil
    rwa [List.append_nil] at he

theorem Escape.value?_isSome (e : Char) :
    (Escape.value? e).isSome = CharClass.escapeChar.mem e := by
  unfold Escape.value?
  split <;> simp_all [CharClass.mem]

theorem Escape.exists_value? {e : Char} (h : CharClass.escapeChar.mem e = true) :
    ∃ c, Escape.value? e = some c := by
  rw [← value?_isSome] at h
  exact Option.isSome_iff_exists.mp h

theorem Escape.mem_of_value? {e c : Char} (h : Escape.value? e = some c) :
    CharClass.escapeChar.mem e = true := by
  rw [← value?_isSome, h]
  rfl

theorem unescape_raw {c : Char} (hc : c ≠ '\\') (t : Text) :
    unescape (c :: t) = (unescape t).map (c :: ·) := by
  rw [unescape.eq_4 _ _ (by simp [hc]) (by simp [hc])]

theorem unescape_escape {e c : Char} (h : Escape.value? e = some c) (t : Text) :
    unescape ('\\' :: e :: t) = (unescape t).map (c :: ·) := by
  rw [unescape, h]

theorem Spelling.unescape_append {q c : Char} {s : Text} (h : Spelling q c s) (t : Text) :
    unescape (s ++ t) = (unescape t).map (c :: ·) := by
  cases h with
  | raw hc => exact unescape_raw hc t
  | escape he => exact unescape_escape he t

theorem Encodes.unescape {q : Char} {v e : Text} (h : Encodes q v e) : unescape e = .ok v := by
  induction h with
  | nil => rfl
  | cons hs _ ih =>
    rw [hs.unescape_append, ih]
    rfl

theorem Encodes.unique {q : Char} {v v' e : Text} (h : Encodes q v e) (h' : Encodes q v' e) :
    v = v' := by
  have he := h.unescape.symm.trans h'.unescape
  exact Except.ok.inj he

theorem Spelling.of_mem {k : CharClass} {q c : Char} (hc : k.mem c = true)
    (hk : ∀ d ∈ ['\\', '\n', '\r', q], k.mem d = false) : Spelling q c [c] := by
  have hne : ∀ d ∈ ['\\', '\n', '\r', q], c ≠ d := fun d hd => CharClass.ne_of_mem hc (hk d hd)
  exact .raw (hne _ (by simp)) (hne _ (by simp)) (hne _ (by simp)) (hne _ (by simp))

theorem exists_spelling {q : Char} (hq : ∃ e, Escape.value? e = some q) (c : Char) :
    ∃ s, Spelling q c s := by
  by_cases hc : c ≠ '\\' ∧ c ≠ '\n' ∧ c ≠ '\r' ∧ c ≠ q
  · exact ⟨[c], .raw hc.1 hc.2.1 hc.2.2.1 hc.2.2.2⟩
  · have hescape : ∃ e, Escape.value? e = some c := by
      simp only [not_and_or, not_not] at hc
      rcases hc with rfl | rfl | rfl | rfl
      · exact ⟨'\\', rfl⟩
      · exact ⟨'n', rfl⟩
      · exact ⟨'r', rfl⟩
      · exact hq
    obtain ⟨e, he⟩ := hescape
    exact ⟨['\\', e], .escape he⟩

theorem exists_encoding {q : Char} (hq : ∃ e, Escape.value? e = some q) (v : Text) :
    ∃ e, Encodes q v e := by
  induction v with
  | nil => exact ⟨[], .nil⟩
  | cons c v ih =>
    obtain ⟨e, he⟩ := ih
    obtain ⟨s, hs⟩ := exists_spelling hq c
    exact ⟨s ++ e, .cons hs he⟩

theorem mem_stringBody_iff {b : Text} : b ∈ stringBody ↔ ∃ v, Encodes '"' v b := by
  constructor
  · intro hb
    induction hb using stringBody_induction with
    | nil => exact ⟨[], .nil⟩
    | raw c b hc hb ih =>
      obtain ⟨v, hv⟩ := ih
      exact ⟨c :: v, .cons (.of_mem hc (by simp [CharClass.mem])) hv⟩
    | escape e b he hb ih =>
      obtain ⟨v, hv⟩ := ih
      obtain ⟨c, hc⟩ := Escape.exists_value? he
      exact ⟨c :: v, .cons (.escape hc) hv⟩
  · rintro ⟨v, h⟩
    induction h with
    | nil => exact nil_mem_stringBody
    | cons hs _ ih =>
      cases hs with
      | raw hslash hn hr hq => exact raw_mem_stringBody (by simp [CharClass.mem, *]) ih
      | escape he => exact escape_mem_stringBody (Escape.mem_of_value? he) ih

theorem mem_string_iff {w : Text} : w ∈ string ↔ ∃ v e, Encodes '"' v e ∧ w = e.enclose '"' := by
  rw [mem_string]
  constructor
  · rintro ⟨e, he, rfl⟩
    obtain ⟨v, hv⟩ := mem_stringBody_iff.mp he
    exact ⟨v, e, hv, rfl⟩
  · rintro ⟨v, e, he, rfl⟩
    exact ⟨e, mem_stringBody_iff.mpr ⟨v, he⟩, rfl⟩

theorem mem_character_iff {w : Text} :
    w ∈ character ↔ ∃ c e, Encodes '\'' [c] e ∧ w = e.enclose '\'' := by
  simp only [Encodes.singleton]
  rw [mem_character]
  constructor
  · rintro (⟨c, hc, rfl⟩ | ⟨e, he, rfl⟩)
    · exact ⟨c, [c], .of_mem hc (by simp [CharClass.mem]), rfl⟩
    · obtain ⟨c, hc⟩ := Escape.exists_value? he
      exact ⟨c, ['\\', e], .escape hc, rfl⟩
  · rintro ⟨c, e, hs, rfl⟩
    cases hs with
    | raw hslash hn hr hq => exact .inl ⟨c, by simp [CharClass.mem, *], rfl⟩
    | @escape e _ he => exact .inr ⟨e, Escape.mem_of_value? he, rfl⟩

theorem body_enclose {u : Token} {q : Char} {e : Text} (hw : u.lexeme = e.enclose q) :
    u.body = e := by
  rw [Token.body, hw, Text.enclose, List.tail_cons, List.dropLast_concat]

theorem value_of_encodes {u : Token} {q : Char} {v e : Text}
    (hk : u.kind = .string ∨ u.kind = .character) (hw : u.lexeme = e.enclose q)
    (he : Encodes q v e) : u.value = .ok (.text v) := by
  have hbody : u.body = e := body_enclose hw
  rcases hk with hk | hk <;> simp [Token.value, hk, hbody, he.unescape, Except.map, Except.mapError]

theorem lex_literals (o : Options) (filename : Text) :
    (['"'] ∉ o.whitespace → ∀ v e, Encodes '"' v e →
      lex o filename (e.enclose '"') = .ok [⟨.string, e.enclose '"', 0⟩] ∧
      Token.value ⟨.string, e.enclose '"', 0⟩ = .ok (.text v)) ∧
    (['\''] ∉ o.whitespace → ∀ c e, Encodes '\'' [c] e →
      lex o filename (e.enclose '\'') = .ok [⟨.character, e.enclose '\'', 0⟩] ∧
      Token.value ⟨.character, e.enclose '\'', 0⟩ = .ok (.text [c])) ∧
    (∀ source ts, lex o filename source = .ok ts → ∀ u ∈ ts,
      (u.kind = .string → ∃ v e, Encodes '"' v e ∧ u.lexeme = e.enclose '"' ∧
        u.value = .ok (.text v)) ∧
      (u.kind = .character → ∃ c e, Encodes '\'' [c] e ∧ u.lexeme = e.enclose '\'' ∧
        u.value = .ok (.text [c]))) ∧
    ∀ q ∈ ['"', '\''], (∀ v, ∃ e, Encodes q v e) ∧
      ∀ v v' e, Encodes q v e → Encodes q v' e → v = v' := by
  refine ⟨fun hb v e he => ?_, fun hb c e he => ?_, fun source ts h u hu => ⟨fun hk => ?_, fun hk => ?_⟩,
    fun q hq => ⟨exists_encoding ?_, fun v v' e => Encodes.unique⟩⟩
  · have hw : e.enclose '"' ∈ lexemes o .string := mem_string_iff.mpr ⟨v, e, he, rfl⟩
    have hhead : ∀ c ∈ (e.enclose '"').head?, o.isBlank c = false := by
      simpa [Text.enclose, ← isBlank_iff] using hb
    exact ⟨lex_of_mem_lexemes hw hhead filename, value_of_encodes (.inl rfl) rfl he⟩
  · have hw : e.enclose '\'' ∈ lexemes o .character := mem_character_iff.mpr ⟨c, e, he, rfl⟩
    have hhead : ∀ c ∈ (e.enclose '\'').head?, o.isBlank c = false := by
      simpa [Text.enclose, ← isBlank_iff] using hb
    exact ⟨lex_of_mem_lexemes hw hhead filename, value_of_encodes (.inr rfl) rfl he⟩
  · have hw := (mem_lexemes_of_mem h hu).1
    rw [hk] at hw
    obtain ⟨v, e, he, hlexeme⟩ := mem_string_iff.mp hw
    exact ⟨v, e, he, hlexeme, value_of_encodes (.inl hk) hlexeme he⟩
  · have hw := (mem_lexemes_of_mem h hu).1
    rw [hk] at hw
    obtain ⟨c, e, he, hlexeme⟩ := mem_character_iff.mp hw
    exact ⟨c, e, he, hlexeme, value_of_encodes (.inr hk) hlexeme he⟩
  · rcases List.mem_cons.mp hq with rfl | hq
    · exact ⟨'"', rfl⟩
    · obtain rfl := List.mem_singleton.mp hq
      exact ⟨'\'', rfl⟩

theorem lex_literals_mixed :
    Encodes '"' ['a', '\'', '\n', '"'] ['a', '\'', '\\', 'n', '\\', '"'] ∧
    lex { whitespace := [['a'], ['\'']] } [] (Text.enclose '"' ['a', '\'', '\\', 'n', '\\', '"']) =
      .ok [⟨.string, Text.enclose '"' ['a', '\'', '\\', 'n', '\\', '"'], 0⟩] ∧
    Token.value ⟨.string, Text.enclose '"' ['a', '\'', '\\', 'n', '\\', '"'], 0⟩ =
      .ok (.text ['a', '\'', '\n', '"']) := by
  have he : Encodes '"' ['a', '\'', '\n', '"'] ['a', '\'', '\\', 'n', '\\', '"'] :=
    .cons (.raw (by decide) (by decide) (by decide) (by decide))
      (.cons (.raw (by decide) (by decide) (by decide) (by decide))
        (.cons (.escape rfl) (.cons (.escape rfl) .nil)))
  exact ⟨he, (lex_literals _ []).1 (by decide) _ _ he⟩

end PlcScan
