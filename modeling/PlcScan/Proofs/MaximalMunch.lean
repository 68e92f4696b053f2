import PlcScan.Proofs.ScanTree

/-!
Scanning is maximal munch. A reference machine walks over a text from position to position: it skips
a blank character, and takes the longest prefix of the remaining text that is a lexeme of any kind.
Main statement: scanning gives the tokens with which the machine comes to the end of the text, and
reports a fault of the text exactly if the machine gets stuck before.
-/

namespace PlcScan

open Grammar Relation

namespace Reference

structure State where
  position : Nat
  tokens : List Token

inductive Step (o : Options) (source : Text) : State → State → Prop
  | skip {p c ts} : source[p]? = some c → [c] ∈ o.whitespace → Step o source ⟨p, ts⟩ ⟨p + 1, ts⟩
  | take {p c ts k w} : source[p]? = some c → [c] ∉ o.whitespace → Longest o (source.drop p) k w →
      ¬ (o.rejectLeadingZeros = true ∧ LeadingZero w (source.drop (p + w.length))) →
      Step o source ⟨p, ts⟩ ⟨p + w.length, ts ++ [⟨k, w, p⟩]⟩

def Reaches (o : Options) (source : Text) (s : State) : Prop :=
  ReflTransGen (Step o source) ⟨0, []⟩ s

end Reference

open Reference

theorem Longest.unique {o : Options} {t w v : Text} {k l : Kind} (hw : Longest o t k w)
    (hv : Longest o t l v) : k = l ∧ w = v := by
  have hle := hv.longest k w hw.isPrefix hw.mem
  have hge := hw.longest l v hv.isPrefix hv.mem
  have he : w = v :=
    (List.prefix_of_prefix_length_le hw.isPrefix hv.isPrefix hle).eq_of_length (by omega)
  subst he
  exact ⟨kind_unique hw.mem hv.mem, rfl⟩

theorem Reference.Step.unique {o : Options} {source : Text} :
    Relator.RightUnique (Step o source) := by
  intro a b c hb hc
  cases hb with
  | skip hp hw =>
    cases hc with
    | skip => rfl
    | take hp' hw' =>
      obtain rfl := Option.some.inj (hp.symm.trans hp')
      exact absurd hw hw'
  | take hp hw hl _ =>
    cases hc with
    | skip hp' hw' =>
      obtain rfl := Option.some.inj (hp.symm.trans hp')
      exact absurd hw' hw
    | take _ _ hl' _ =>
      obtain ⟨rfl, rfl⟩ := hl.unique hl'
      rfl

theorem final_unique {α : Type} {r : α → α → Prop} (hr : Relator.RightUnique r) {a b c : α}
    (hab : ReflTransGen r a b) (hac : ReflTransGen r a c) (hb : ∀ d, ¬ r b d) (hc : ∀ d, ¬ r c d) :
    b = c := by
  rcases ReflTransGen.total_of_right_unique hr hab hac with h | h
  · rcases h.cases_head with rfl | ⟨d, hd, -⟩
    · rfl
    · exact absurd hd (hb d)
  · rcases h.cases_head with rfl | ⟨d, hd, -⟩
    · rfl
    · exact absurd hd (hc d)

theorem Reference.steps_of_scans {o : Options} {source t : Text} {s : Scan} (h : Scans o t s)
    (p : Nat) (ts : List Token) (hp : source.drop p = t) :
    ReflTransGen (Step o source) ⟨p, ts⟩
      ⟨p + Piece.width s.pieces, ts ++ Piece.tokens p s.pieces⟩ := by
  induction h generalizing p ts with
  | done => simpa [Piece.tokens] using ReflTransGen.refl
  | @blank c t s hc h ih =>
    have hget : source[p]? = some c := by rw [← List.head?_drop, hp]; rfl
    have hdrop : source.drop (p + 1) = t := by rw [← List.drop_drop, hp]; rfl
    have hstep : Step o source ⟨p, ts⟩ ⟨p + 1, ts⟩ := .skip hget (isBlank_iff.mp hc)
    have hrest := ih (p + 1) ts hdrop
    rw [Nat.add_assoc] at hrest
    exact .head hstep hrest
  | @lexeme k w rest s hb hw h ih =>
    have hget : ∃ c, source[p]? = some c ∧ [c] ∉ o.whitespace := by
      obtain ⟨c, w, rfl⟩ := List.exists_cons_of_ne_nil (ne_nil_of_mem hw.mem)
      refine ⟨c, by rw [← List.head?_drop, hp]; rfl, ?_⟩
      rw [← isBlank_iff, hb c rfl]
      exact Bool.false_ne_true
    obtain ⟨c, hc, hcb⟩ := hget
    have hdrop : source.drop (p + w.length) = rest := by
      rw [← List.drop_drop, hp, List.drop_left]
    obtain ⟨hl, hz⟩ := ends_iff.mp hw
    have hstep : Step o source ⟨p, ts⟩ ⟨p + w.length, ts ++ [⟨k, w, p⟩]⟩ :=
      .take hc hcb (hp ▸ hl) (hdrop ▸ hz)
    have hrest := ih (p + w.length) (ts ++ [⟨k, w, p⟩]) hdrop
    rw [Nat.add_assoc, List.append_assoc] at hrest
    exact .head hstep hrest
  | halt => simpa [Piece.tokens] using ReflTransGen.refl

theorem Reference.not_step_end {o : Options} {source : Text} {ts : List Token} (s : State) :
    ¬ Step o source ⟨source.length, ts⟩ s := by
  intro h
  cases h with
  | skip hp => simp at hp
  | take hp => simp at hp

theorem Reference.not_step_diagnosis {o : Options} {source : Text} {p : Nat} {ts : List Token}
    {x : Finding} (hb : ∀ c ∈ (source.drop p).head?, o.isBlank c = false)
    (hx : Diagnosis o (source.drop p) x) (s : State) : ¬ Step o source ⟨p, ts⟩ s := by
  intro h
  cases h with
  | @skip _ c _ hp hw =>
    have hc := hb c (by rw [List.head?_drop]; exact hp)
    rw [isBlank_iff.mpr hw] at hc
    cases hc
  | @take _ c _ k w hp _ hl hz =>
    obtain ⟨rest, he⟩ := hl.isPrefix
    have hdrop : source.drop (p + w.length) = rest := by
      rw [← List.drop_drop, ← he, List.drop_left]
    rw [hdrop] at hz
    rw [← he] at hl hx
    exact (ends_iff.mpr ⟨hl, hz⟩).not_diagnosis hx

theorem Reference.reaches_of_scans {o : Options} {source : Text} {s : Scan}
    (h : Scans o source s) : Reaches o source ⟨Piece.width s.pieces, Piece.tokens 0 s.pieces⟩ := by
  simpa [Reaches] using steps_of_scans h 0 [] rfl

theorem Reference.reaches_of_done {o : Options} {source : Text} {ps : List Piece}
    (h : Scans o source ⟨ps, none⟩) : Reaches o source ⟨source.length, Piece.tokens 0 ps⟩ := by
  have hr := reaches_of_scans h
  rwa [h.width_eq rfl] at hr

theorem Reference.stuck_of_halt {o : Options} {source : Text} {ps : List Piece} {stop : Stop}
    (h : Scans o source ⟨ps, some stop⟩) : Piece.width ps < source.length ∧
      ∀ s, ¬ Step o source ⟨Piece.width ps, Piece.tokens 0 ps⟩ s := by
  obtain ⟨x, hb, hx, -⟩ := h.diagnosis rfl
  refine ⟨?_, not_step_diagnosis hb hx⟩
  by_contra hlen
  exact hx.ne_nil (List.drop_eq_nil_of_le (Nat.not_lt.mp hlen))

theorem lex_maximalMunch (o : Options) (filename source : Text) :
    (∀ k l w, w ∈ lexemes o k → w ∈ lexemes o l → k = l) ∧
    (∀ ts, lex o filename source = .ok ts ↔ Reaches o source ⟨source.length, ts⟩) ∧
    ((∃ e, lex o filename source = .error (.lexical e)) ↔
      ∃ s, Reaches o source s ∧ s.position < source.length ∧ ∀ s', ¬ Step o source s s') := by
  refine ⟨fun k l w => kind_unique, fun ts => ⟨fun h => ?_, fun h => ?_⟩, fun ⟨e, h⟩ => ?_, ?_⟩
  · obtain ⟨ps, hps, rfl⟩ := lex_ok_iff.mp h
    exact reaches_of_done hps
  · rcases scans_cases o source with ⟨ps, hps⟩ | ⟨ps, x, hps, hx⟩
    · have he := final_unique Step.unique h (reaches_of_done hps) not_step_end not_step_end
      rw [lex_of_done hps, State.mk.inj he |>.2]
    · obtain ⟨hlt, hstuck⟩ := stuck_of_halt hps
      have he := final_unique Step.unique h (reaches_of_scans hps) not_step_end hstuck
      have hlen : source.length = Piece.width ps := (State.mk.inj he).1
      omega
  · obtain ⟨ps, x, hps, -, -⟩ := lex_error_iff.mp h
    exact ⟨_, reaches_of_scans hps, stuck_of_halt hps⟩
  · rintro ⟨s, hs, hlt, hstuck⟩
    rcases scans_cases o source with ⟨ps, hps⟩ | ⟨ps, x, hps, hx⟩
    · obtain rfl := final_unique Step.unique hs (reaches_of_done hps) hstuck not_step_end
      exact absurd hlt (lt_irrefl _)
    · exact ⟨_, lex_of_halt hps hx⟩

end PlcScan
