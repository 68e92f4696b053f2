import PlcScan.Proofs.Partition
import PlcScan.Proofs.Progress
import PlcScan.Session

namespace PlcScan

open Grammar Piece

namespace Rule

variable {α : Type}

theorem leading_le (k : CharClass) (t : Text) : leading k t ≤ t.length := by
  cases t with
  | nil => exact le_rfl
  | cons c t =>
    rw [leading, List.length_cons]
    split <;> omega

theorem run_le (k : CharClass) (t : Text) : run k t ≤ t.length :=
  (List.takeWhile_sublist _).length_le

theorem after_used_le {m : Munch α} {n : ℕ} {t : Text} (hn : n ≤ t.length)
    (h : m.used ≤ (t.drop n).length) : (m.after n).used ≤ t.length := by
  rw [List.length_drop] at h
  simp only [Munch.after]
  omega

theorem identifier_used_le (o : Options) (t : Text) : (identifier o t).used ≤ t.length :=
  after_used_le (m := .accept _ Kind.identifier) (leading_le ..) (run_le ..)

theorem fraction_used_le (t : Text) : (fraction t).used ≤ t.length := by
  fun_cases fraction t with
  | case1 d rest hd =>
    have hrun := run_le .digit rest
    simp only [Munch.accept, List.length_cons]
    omega
  | case2 => exact Nat.zero_le _
  | case3 => exact Nat.zero_le _

theorem unsigned_used_le (o : Options) (t : Text) : (unsigned o t).used ≤ t.length := by
  fun_cases unsigned o t with
  | case1 => exact le_rfl
  | case2 c rest => exact Nat.succ_le_succ (Nat.zero_le _)
  | case3 c rest =>
    exact after_used_le (t := c :: rest) (Nat.succ_le_succ (Nat.zero_le _)) (fraction_used_le rest)
  | case4 c rest =>
    have hrun := run_le .digit rest
    apply after_used_le (t := c :: rest)
    · rw [List.length_cons]
      omega
    · rw [Nat.add_comm, List.drop_succ_cons]
      exact fraction_used_le _
  | case5 => exact Nat.zero_le _

theorem number_used_le (o : Options) (t : Text) : (number o t).used ≤ t.length :=
  after_used_le (leading_le ..) (unsigned_used_le ..)

theorem escape_used_le (t : Text) : (escape t).used ≤ t.length := by
  have hslash := leading_le .backslash t
  fun_cases escape t with
  | case1 => exact hslash
  | case2 _ c rest hrest =>
    have hlen := congrArg List.length hrest
    rw [List.length_drop, List.length_cons] at hlen
    simp only [Munch.accept]
    omega
  | case3 => exact hslash

theorem closingQuote_used_le (t : Text) : (closingQuote t).used ≤ t.length := by
  fun_cases closingQuote t with
  | case1 => exact le_rfl
  | case2 c rest => exact Nat.succ_le_succ (Nat.zero_le _)
  | case3 => exact Nat.zero_le _

theorem characterRest_used_le (t : Text) : (characterRest t).used ≤ t.length := by
  fun_cases characterRest t with
  | case1 => exact le_rfl
  | case2 c rest _ n h =>
    have hn := escape_used_le (c :: rest)
    rw [h] at hn
    exact after_used_le hn (closingQuote_used_le _)
  | case3 c rest _ n halt h =>
    have hn := escape_used_le (c :: rest)
    rwa [h] at hn
  | case4 c rest =>
    exact after_used_le (t := c :: rest) (by simp) (closingQuote_used_le rest)
  | case5 => exact Nat.zero_le _

theorem character_used_le (t : Text) : (character t).used ≤ t.length :=
  after_used_le (leading_le ..) (characterRest_used_le _)

theorem stringRest_used_le (t : Text) : (stringRest t).used ≤ t.length := by
  fun_induction stringRest t with
  | case1 => exact le_rfl
  | case2 => exact Nat.zero_le _
  | case3 c rest hc ih => exact after_used_le (t := '\\' :: c :: rest) (by simp) ih
  | case4 c rest => simp [Munch.refuse]
  | case5 c rest => simp [Munch.accept]
  | case6 c rest _ _ _ _ ih => exact after_used_le (t := c :: rest) (by simp) ih
  | case7 => exact Nat.zero_le _

theorem string_used_le (t : Text) : (string t).used ≤ t.length :=
  after_used_le (leading_le ..) (stringRest_used_le _)

theorem operator_used_le (t : Text) : (operator t).used ≤ t.length := by
  rw [operator]
  cases h : longOperators.find? (·.isPrefixOf t) with
  | none =>
    cases t with
    | nil => exact le_rfl
    | cons c t =>
      simp only [Munch.accept, List.length_cons]
      split <;> omega
  | some op =>
    have hop := List.find?_some h
    exact (List.isPrefixOf_iff_prefix.mp hop).length_le

end Rule

theorem RuleName.used_le (name : RuleName) (o : Options) (t : Text) :
    (name.rule o t).used ≤ t.length := by
  cases name with
  | token => exact Rule.token_used_le o t
  | identifier => exact Rule.identifier_used_le o t
  | number => exact Rule.number_used_le o t
  | character => exact Rule.character_used_le t
  | string => exact Rule.string_used_le t
  | operator => exact Rule.operator_used_le t

def Reply.found : Reply → List Token
  | .token u => [u]
  | .tokens us => us
  | _ => []

namespace Cursor

structure InText (c : Cursor) : Prop where
  pending_le : c.pending ≤ c.position
  position_le : c.position ≤ c.source.length

/-- From `c` to `d` the cursor goes forward in the text, past the tokens in order. -/
structure Forward (c d : Cursor) (us : List Token) : Prop where
  source_eq : d.source = c.source
  inText : d.InText
  position_le : c.position ≤ d.position
  start_le : c.start ≤ d.start
  slices : ∀ u ∈ us, u.lexeme = c.source.slice u.offset u.stop
  between : ∀ u ∈ us, c.start ≤ u.offset ∧ u.stop ≤ d.start
  ordered : us.Pairwise fun u v => u.stop ≤ v.offset

variable {c d e : Cursor} {us vs : List Token}

theorem Forward.refl (hc : c.InText) : Forward c c [] where
  source_eq := rfl
  inText := hc
  position_le := le_rfl
  start_le := le_rfl
  slices := List.forall_mem_nil _
  between := List.forall_mem_nil _
  ordered := .nil

theorem Forward.trans (h : Forward c d us) (h' : Forward d e vs) : Forward c e (us ++ vs) where
  source_eq := h'.source_eq.trans h.source_eq
  inText := h'.inText
  position_le := h.position_le.trans h'.position_le
  start_le := h.start_le.trans h'.start_le
  slices := List.forall_mem_append.mpr ⟨h.slices, h.source_eq ▸ h'.slices⟩
  between := by
    refine List.forall_mem_append.mpr ⟨fun u hu => ?_, fun v hv => ?_⟩
    · exact ⟨(h.between u hu).1, (h.between u hu).2.trans h'.start_le⟩
    · exact ⟨h.start_le.trans (h'.between v hv).1, (h'.between v hv).2⟩
  ordered := by
    refine List.pairwise_append.mpr ⟨h.ordered, h'.ordered, fun u hu v hv => ?_⟩
    exact (h.between u hu).2.trans (h'.between v hv).1

theorem forward_move (hc : c.InText) {n : ℕ} (hn : n ≤ c.rest.length) :
    Forward c (c.move n) [] := by
  have hpending := hc.pending_le
  have hposition := hc.position_le
  rw [length_rest] at hn
  refine ⟨rfl, ⟨?_, ?_⟩, ?_, ?_, List.forall_mem_nil _, List.forall_mem_nil _, .nil⟩
  all_goals simp only [move, start]; omega

theorem forward_resetPending (hc : c.InText) : Forward c c.resetPending [] := by
  have hstart : c.start ≤ c.resetPending.start := by
    simp only [start, resetPending]
    omega
  exact ⟨rfl, ⟨Nat.zero_le _, hc.position_le⟩, le_rfl, hstart, List.forall_mem_nil _,
    List.forall_mem_nil _, .nil⟩

theorem start_eq (hc : c.InText) : c.start = (c.position - c.pending : ℕ) := by
  have hpending := hc.pending_le
  rw [start]
  omega

theorem stop_emit (hc : c.InText) (kind : Kind) : (c.emit kind).1.stop = c.position := by
  have hpending := hc.pending_le
  have hposition := hc.position_le
  simp only [emit, Token.stop, start_eq hc, Text.slice_natCast, List.length_take, List.length_drop]
  omega

theorem forward_emit (hc : c.InText) (kind : Kind) :
    Forward c (c.emit kind).2 [(c.emit kind).1] where
  source_eq := rfl
  inText := (forward_resetPending hc).inText
  position_le := le_rfl
  start_le := (forward_resetPending hc).start_le
  slices := by
    rw [List.forall_mem_singleton, stop_emit hc]
    rfl
  between := by
    rw [List.forall_mem_singleton, stop_emit hc]
    exact ⟨le_rfl, by simp [emit, start, resetPending]⟩
  ordered := List.pairwise_singleton _ _

theorem starts_length_le {tests : List (Char → Bool)} {t : Text} (h : t.starts tests = true) :
    tests.length ≤ t.length := by
  induction tests generalizing t with
  | nil => exact Nat.zero_le _
  | cons test tests ih =>
    cases t with
    | nil => cases h
    | cons c t =>
      rw [Text.starts, Bool.and_eq_true] at h
      exact Nat.succ_le_succ (ih h.2)

end Cursor

namespace Session

open Cursor

variable {s : Session}

theorem forward_enter {α : Type} (hc : s.cursor.InText) {m : Munch α}
    (hm : m.used ≤ s.cursor.rest.length) {emit : Cursor → α → Reply × Cursor}
    (hemit : ∀ c a, c.InText → Forward c (emit c a).2 (emit c a).1.found) :
    Forward s.cursor (s.enter m emit).1.cursor (s.enter m emit).2.found := by
  have hmove := forward_move hc hm
  rw [enter]
  cases m.result with
  | ok a => exact hmove.trans (hemit _ a hmove.inText)
  | error halt => exact hmove

theorem slice_of_mem_tokens {o : Options} {source : Text} {x : Scan} (h : Scans o source x)
    (hx : x.stop = none) {u : Token} (hu : u ∈ tokens 0 x.pieces) :
    u.lexeme = source.slice u.offset u.stop := by
  obtain ⟨xs, k, w, ys, hpieces, rfl⟩ := mem_tokens.mp hu
  have hslice := slice_written xs k w ys
  rw [← hpieces, h.written_eq hx] at hslice
  rw [Nat.zero_add]
  exact hslice.symm

theorem emitAll_eq {c : Cursor} {t : Text} {ps : List Piece} (hc : c.rest = written ps ++ t)
    (hp : c.pending = 0) :
    c.emitAll ps = (tokens c.position ps, (c.move (width ps)).resetPending) := by
  induction ps generalizing c with
  | nil => rw [emitAll, width_nil, resetPending_move_zero hp, tokens]
  | cons p ps ih =>
    cases p with
    | blank a =>
      have hrest : (c.move 1).resetPending.rest = written ps ++ t :=
        rest_move_append (w := [a]) hc
      rw [emitAll, ih hrest rfl, resetPending_move_move]
      rfl
    | lexeme k w =>
      have hw : c.rest = w ++ (written ps ++ t) := by
        rw [hc, ← List.append_assoc]
        rfl
      have hrest : ((c.move w.length).emit k).2.rest = written ps ++ t := rest_move_append hw
      simp only [emitAll]
      rw [ih hrest rfl, emit_of_rest hw hp]
      exact congrArg (Prod.mk _) (resetPending_move_move c w.length (width ps))

theorem emitAll_of_scans {o : Options} {source : Text} {x : Scan} (h : Scans o source x) :
    Cursor.emitAll { source } x.pieces = (tokens 0 x.pieces, ⟨source, width x.pieces, 0⟩) := by
  have hwritten : written x.pieces = source.take (width x.pieces) :=
    (h.take (List.append_nil _).symm).written_eq rfl
  have hrest : Cursor.rest { source } = written x.pieces ++ source.drop (width x.pieces) := by
    rw [hwritten, List.take_append_drop]
    rfl
  rw [emitAll_eq hrest rfl]
  simp [Cursor.move, Cursor.resetPending]

theorem scanAll_of_done {ps : List Piece} (h : Scans s.options s.source ⟨ps, none⟩) :
    s.scanAll = (s.moveTo ⟨s.source, s.source.length, 0⟩, .tokens (tokens 0 ps)) := by
  rw [scanAll, h.eq]
  simp only [emitAll_of_scans h]
  rw [← h.width_eq rfl]

theorem scanAll_of_halt {ps : List Piece} {stop : Stop}
    (h : Scans s.options s.source ⟨ps, some stop⟩) :
    s.scanAll = (s.moveTo ⟨s.source, width ps + stop.used, stop.used⟩,
      .failure (stop.halt.failure s.source s.filename (width ps) stop.used 0)) := by
  rw [scanAll, h.eq]
  simp only [emitAll_of_scans h, Cursor.move, Nat.zero_add]

theorem forward_scanAll (s : Session) :
    Forward ⟨s.source, 0, 0⟩ s.scanAll.1.cursor s.scanAll.2.found := by
  -- Either the text is used up, or the cursor stops in the lexeme that a rule had begun.
  rcases scans_cases s.options s.source with ⟨ps, hps⟩ | ⟨ps, x, hps, hx⟩
  · have hwidth : width ps = s.source.length := hps.width_eq rfl
    rw [scanAll_of_done hps]
    refine ⟨rfl, ⟨Nat.zero_le _, le_rfl⟩, Nat.zero_le _, ?_, fun u => slice_of_mem_tokens hps rfl,
      fun u hu => ?_, tokens_pairwise 0 _⟩
    · simp [Cursor.start, moveTo]
    · have hbounds := bounds_of_mem_tokens hu
      simp only [Cursor.start, moveTo]
      omega
  · have hused := hx.used_le
    have hne := List.length_pos_of_ne_nil hx.ne_nil
    rw [List.length_drop] at hused hne
    rw [scanAll_of_halt hps]
    refine ⟨rfl, ⟨Nat.le_add_left .., ?_⟩, Nat.zero_le _, ?_, List.forall_mem_nil _,
      List.forall_mem_nil _, .nil⟩
    · simp only [moveTo]
      omega
    · simp only [Cursor.start, moveTo]
      omega

theorem forward_perform (hc : s.cursor.InText) {command : Command} (hcommand : command ≠ .all) :
    Forward s.cursor (s.perform command).1.cursor (s.perform command).2.found := by
  have hrefl := Forward.refl hc
  cases command with
  | has n => exact hrefl
  | charAt n => exact hrefl
  | advance =>
    rw [perform, advance]
    by_cases h : s.cursor.position < s.cursor.source.length
    · rw [if_pos h]
      exact forward_move hc (by rw [length_rest]; omega)
    · rw [if_neg h]
      exact hrefl
  | resetPending => exact forward_resetPending hc
  | emit kind => exact forward_emit hc kind
  | read name =>
    exact forward_enter hc (name.used_le _ _) fun c kind hc => forward_emit hc kind
  | escape => exact forward_enter hc (Rule.escape_used_le _) fun c _ hc => .refl hc
  | all => exact absurd rfl hcommand
  | locate offset => exact hrefl
  | peek patterns => exact hrefl
  | accept patterns =>
    rw [perform, Cursor.accept]
    by_cases h : s.cursor.peek (patterns.map (·.test s.options)) = true
    · rw [if_pos h]
      exact forward_move hc (starts_length_le h)
    · rw [if_neg h]
      exact hrefl

/-- Every test of one character is that of a pattern, so commands with patterns leave out none. -/
theorem exists_pattern (test : Char → Bool) : ∃ p : Pattern, ∀ o, p.test o = test := by
  have : Finite Char := Finite.of_injective Char.val fun _ _ => Char.ext
  obtain ⟨cs, hcs⟩ : ∃ cs : List Char, ∀ c, c ∈ cs ↔ test c = true :=
    ⟨(Set.toFinite {c | test c = true}).toFinset.toList, by simp⟩
  refine ⟨.oneOf (cs.map fun c => (c, c)), fun o => funext fun c => ?_⟩
  rw [Bool.eq_iff_iff, ← hcs, Pattern.test, Pattern.inRanges, List.any_map, List.any_eq_true]
  simp [← le_antisymm_iff]

def after (s : Session) (commands : List Command) : Session :=
  commands.foldl (fun s command => (s.perform command).1) s

theorem exists_forward_perform (hc : s.cursor.InText) (command : Command) :
    ∃ c, c.InText ∧ c.source = s.source ∧
      Forward c (s.perform command).1.cursor (s.perform command).2.found := by
  by_cases hcommand : command = .all
  · subst hcommand
    exact ⟨⟨s.source, 0, 0⟩, ⟨le_rfl, Nat.zero_le _⟩, rfl, forward_scanAll s⟩
  · exact ⟨s.cursor, hc, rfl, forward_perform hc hcommand⟩

theorem inText_perform (hc : s.cursor.InText) (command : Command) :
    (s.perform command).1.cursor.InText := by
  obtain ⟨c, -, -, h⟩ := exists_forward_perform hc command
  exact h.inText

theorem source_perform (hc : s.cursor.InText) (command : Command) :
    (s.perform command).1.source = s.source := by
  obtain ⟨c, -, hsource, h⟩ := exists_forward_perform hc command
  exact h.source_eq.trans hsource

theorem inText_after (hc : s.cursor.InText) (commands : List Command) :
    (s.after commands).cursor.InText ∧ (s.after commands).source = s.source := by
  induction commands generalizing s with
  | nil => exact ⟨hc, rfl⟩
  | cons command commands ih =>
    obtain ⟨hnext, hsource⟩ := ih (inText_perform hc command)
    exact ⟨hnext, hsource.trans (source_perform hc command)⟩

theorem slice_of_mem_performAll (hc : s.cursor.InText) {commands : List Command}
    {r : Session × Reply} (hr : r ∈ s.performAll commands) :
    ∀ u ∈ r.2.found, 0 ≤ u.offset ∧ u.lexeme = s.source.slice u.offset u.stop := by
  induction commands generalizing s with
  | nil => cases hr
  | cons command commands ih =>
    obtain ⟨c, hc', hsource, h⟩ := exists_forward_perform hc command
    rcases List.mem_cons.mp hr with rfl | hr
    · intro u hu
      have hstart := (h.between u hu).1
      rw [start_eq hc'] at hstart
      exact ⟨(Int.natCast_nonneg _).trans hstart, hsource ▸ h.slices u hu⟩
    · have hnext := ih h.inText hr
      rwa [source_perform hc command] at hnext

theorem forward_of_mem (hc : s.cursor.InText) {commands : List Command} (hall : .all ∉ commands)
    {r : Session × Reply} (hr : r ∈ s.performAll commands) :
    s.cursor.position ≤ r.1.cursor.position ∧ s.cursor.start ≤ r.1.cursor.start ∧
      ∀ u ∈ r.2.found, s.cursor.start ≤ u.offset := by
  induction commands generalizing s with
  | nil => cases hr
  | cons command commands ih =>
    rw [List.mem_cons, not_or] at hall
    have h := forward_perform hc (Ne.symm hall.1)
    rcases List.mem_cons.mp hr with rfl | hr
    · exact ⟨h.position_le, h.start_le, fun u hu => (h.between u hu).1⟩
    · obtain ⟨hposition, hstart, hfound⟩ := ih h.inText hall.2 hr
      exact ⟨h.position_le.trans hposition, h.start_le.trans hstart,
        fun u hu => h.start_le.trans (hfound u hu)⟩

theorem pairwise_performAll (hc : s.cursor.InText) {commands : List Command}
    (hall : .all ∉ commands.tail) :
    ((s.performAll commands).Pairwise fun a b =>
      a.1.cursor.position ≤ b.1.cursor.position ∧ a.1.cursor.start ≤ b.1.cursor.start) ∧
    ((s.performAll commands).flatMap fun r => r.2.found).Pairwise fun u v => u.stop ≤ v.offset := by
  induction commands generalizing s with
  | nil => exact ⟨.nil, .nil⟩
  | cons command commands ih =>
    obtain ⟨c, -, -, h⟩ := exists_forward_perform hc command
    have hnext : ∀ r ∈ (s.perform command).1.performAll commands, _ :=
      fun r => forward_of_mem h.inText hall
    obtain ⟨hstates, hfound⟩ := ih h.inText fun hmem => hall (List.mem_of_mem_tail hmem)
    refine ⟨.cons (fun r hr => ⟨(hnext r hr).1, (hnext r hr).2.1⟩) hstates, ?_⟩
    refine List.pairwise_append.mpr ⟨h.ordered, hfound, fun u hu v hv => ?_⟩
    obtain ⟨r, hr, hv⟩ := List.mem_flatMap.mp hv
    exact (h.between u hu).2.trans ((hnext r hr).2.2 v hv)

theorem performAll_forward (o : Options) (filename source : Text) (commands : List Command) :
    let first := start o filename source
    let last := first.after commands
    (last.source = source ∧ last.cursor.pending ≤ last.cursor.position ∧
      last.cursor.position ≤ source.length ∧
      last.cursor.start = last.cursor.position - last.cursor.pending) ∧
    (∀ r ∈ first.performAll commands, ∀ u ∈ r.2.found,
      0 ≤ u.offset ∧ u.lexeme = source.slice u.offset u.stop) ∧
    -- Within a stretch, only its first command may scan the whole text.
    ∀ stretch : List Command, .all ∉ stretch.tail →
      let run := last.performAll stretch
      (run.Pairwise fun a b => a.1.cursor.position ≤ b.1.cursor.position ∧
        a.1.cursor.start ≤ b.1.cursor.start) ∧
      (run.flatMap fun r => r.2.found).Pairwise fun u v => u.stop ≤ v.offset := by
  intro first last
  have hc : first.cursor.InText := ⟨le_rfl, Nat.zero_le _⟩
  obtain ⟨hlast, hsource⟩ := inText_after hc commands
  have hposition : last.cursor.position ≤ last.source.length := hlast.position_le
  rw [hsource] at hposition
  exact ⟨⟨hsource, hlast.pending_le, hposition, rfl⟩, fun r => slice_of_mem_performAll hc,
    fun stretch => pairwise_performAll hlast⟩

theorem performAll_forward_leftover :
    .all ∉ [Command.escape, .read .identifier, .read .number, .advance, .read .number].tail ∧
    (((start {} [] "'ab +12".toList).after [.all]).performAll
      [.escape, .read .identifier, .read .number, .advance, .read .number]).flatMap
        (fun r => r.2.found) =
      [⟨.identifier, ['\'', 'a', 'b'], 0⟩, ⟨.integer, [' ', '+', '1', '2'], 3⟩] ∧
    [(⟨.identifier, ['\'', 'a', 'b'], 0⟩ : Token), ⟨.integer, [' ', '+', '1', '2'], 3⟩].Pairwise
      fun u v => u.stop ≤ v.offset := by
  have hall : .all ∉
      [Command.escape, .read .identifier, .read .number, .advance, .read .number].tail := by decide
  have hrun : (((start {} [] "'ab +12".toList).after [.all]).performAll
      [.escape, .read .identifier, .read .number, .advance, .read .number]).flatMap
        (fun r => r.2.found) =
      [⟨.identifier, ['\'', 'a', 'b'], 0⟩, ⟨.integer, [' ', '+', '1', '2'], 3⟩] := by cbv
  have hpairwise := ((performAll_forward {} [] "'ab +12".toList [.all]).2.2 _ hall).2
  rw [hrun] at hpairwise
  exact ⟨hall, hrun, hpairwise⟩

end Session

end PlcScan
