import Mathlib
import PlcScan.CommandLine.Arguments

namespace PlcScan.CommandLine

/-- An argument that is neither a path nor the separator, known or not. -/
def IsFlag (t : Text) : Prop := t ≠ ['-', '-'] ∧ ∀ u, Word.ofText t ≠ .ok (.operand u)

namespace Word

def IsFlag : Word → Prop
  | operand _ | separator => False
  | _ => True

theorem other_ne_separator (t : Text) : other t ≠ separator := by
  rw [other]
  split <;> simp

theorem ofText_ne_separator (t : Text) : ofText t ≠ .ok separator := by
  fun_cases ofText t <;> simp_all [other_ne_separator]

end Word

namespace Request

def withPath (path : Text) : Request → Request
  | help => help
  | lex s => lex (s.withPath path)

end Request

namespace Settings

theorem withFlags_withPath (s : Settings) (path : Text) (fs : List Flag) :
    (s.withPath path).withFlags fs = (s.withFlags fs).map (·.withPath path) := by
  induction fs generalizing s with
  | nil => rfl
  | cons f fs ih =>
    cases f with
    | help => rfl
    | noIdentifierHyphens => exact ih { s with noIdentifierHyphens := true }
    | rejectLeadingZeros => exact ih { s with rejectLeadingZeros := true }
    | verbose => exact ih { s with verbose := true }

theorem path_of_withFlags {s s' : Settings} {fs : List Flag} (h : s.withFlags fs = some s') :
    s'.path = s.path := by
  induction fs generalizing s with
  | nil => rw [← Option.some.inj h]
  | cons f fs ih =>
    cases f with
    | help => cases h
    | noIdentifierHyphens => exact (ih h : _ = _)
    | rejectLeadingZeros => exact (ih h : _ = _)
    | verbose => exact (ih h : _ = _)

def step (s : Settings) : Word → Except UsageError (Option Settings)
  | .unknown t => .ok (some (s.withSurplus t))
  | .long flag (some value) => .error (.ignoredValue flag value)
  | .long flag none => .ok (s.withFlags [flag])
  | .short flag value => (Word.shortFlags flag value).map s.withFlags
  | .operand _ | .separator => .ok (some s)

theorem act_flag {w : Word} (hw : w.IsFlag) (s : Settings) (ws : List Word) :
    s.act (w :: ws) = match s.step w with
      | .error e => .error e
      | .ok none => .ok .help
      | .ok (some next) => next.act ws := by
  cases w with
  | operand t => exact hw.elim
  | separator => exact hw.elim
  | unknown t => rw [act, step]
  | long flag value =>
    cases value with
    | none =>
      rw [act, step]
      cases s.withFlags [flag] <;> rfl
    | some value => rw [act, step]
  | short flag value =>
    rw [act, step]
    cases Word.shortFlags flag value with
    | error e => rfl
    | ok flags =>
      dsimp only [Except.map]
      cases s.withFlags flags <;> rfl

theorem step_withPath (s : Settings) (path : Text) (w : Word) :
    (s.withPath path).step w = (s.step w).map (Option.map (·.withPath path)) := by
  cases w with
  | operand t => rfl
  | separator => rfl
  | unknown t => rfl
  | long flag value =>
    cases value with
    | none => simp only [step, withFlags_withPath, Except.map]
    | some value => rfl
  | short flag value =>
    simp only [step]
    cases Word.shortFlags flag value with
    | error e => rfl
    | ok flags => simp only [withFlags_withPath, Except.map]

theorem path_of_step {s next : Settings} {w : Word} (h : s.step w = .ok (some next)) :
    next.path = s.path := by
  cases w with
  | operand t => rw [← Option.some.inj (Except.ok.inj h)]
  | separator => rw [← Option.some.inj (Except.ok.inj h)]
  | unknown t => rw [← Option.some.inj (Except.ok.inj h)]; rfl
  | long flag value =>
    cases value with
    | none => exact path_of_withFlags (Except.ok.inj h)
    | some value => cases h
  | short flag value =>
    rw [step] at h
    cases hf : Word.shortFlags flag value with
    | error e => rw [hf] at h; cases h
    | ok flags =>
      rw [hf] at h
      exact path_of_withFlags (Except.ok.inj h)

theorem act_withPath (s : Settings) (path : Text) {ws : List Word} (hws : ∀ w ∈ ws, w.IsFlag) :
    (s.withPath path).act ws = (s.act ws).map (·.withPath path) := by
  induction ws generalizing s with
  | nil =>
    rw [act, act]
    cases hs : s.surplus with
    | nil => simp [withPath, hs, Except.map, Request.withPath]
    | cons t ts => simp [withPath, hs, Except.map]
  | cons w ws ih =>
    obtain ⟨hw, hws⟩ := List.forall_mem_cons.mp hws
    rw [act_flag hw, act_flag hw, step_withPath]
    rcases s.step w with e | next | next
    · rfl
    · rfl
    · exact ih next hws

theorem act_operand {s : Settings} (hs : s.path = none) (path : Text) {vs : List Word}
    (hvs : ∀ w ∈ vs, w.IsFlag) :
    s.act (.operand path :: vs) = (s.act vs).map (·.withPath path) := by
  rw [← s.act_withPath path hvs, act, hs]
  rintro ws rfl
  exact hvs .separator (List.mem_cons_self ..)

theorem act_append_congr {s : Settings} {f : Request → Request} (hf : f .help = .help)
    {ws us vs : List Word} (hws : ∀ w ∈ ws, w.IsFlag)
    (h : ∀ next : Settings, next.path = s.path → next.act us = (next.act vs).map f) :
    s.act (ws ++ us) = (s.act (ws ++ vs)).map f := by
  induction ws generalizing s with
  | nil => exact h s rfl
  | cons w ws ih =>
    obtain ⟨hw, hws⟩ := List.forall_mem_cons.mp hws
    rw [List.cons_append, List.cons_append, act_flag hw, act_flag hw]
    rcases hs : s.step w with e | next | next
    · rfl
    · exact (congrArg Except.ok hf).symm
    · refine ih hws fun next' hnext => h next' ?_
      rw [hnext, path_of_step hs]

theorem path_of_act {s s' : Settings} {ws : List Word} (hws : ∀ w ∈ ws, w.IsFlag)
    (h : s.act ws = .ok (.lex s')) : s'.path = s.path := by
  induction ws generalizing s with
  | nil =>
    rw [act] at h
    split at h
    · rw [← Request.lex.inj (Except.ok.inj h)]
    · cases h
  | cons w ws ih =>
    obtain ⟨hw, hws⟩ := List.forall_mem_cons.mp hws
    rw [act_flag hw] at h
    rcases hs : s.step w with e | next | next
    · rw [hs] at h; cases h
    · rw [hs] at h; cases h
    · rw [hs] at h
      rw [ih hws h, path_of_step hs]

end Settings

theorem ofTexts_append {ts : List Text} (h : ∀ t ∈ ts, IsFlag t) (us : List Text) :
    Word.ofTexts (ts ++ us) = do
      let ws ← ts.mapM Word.ofText
      let vs ← Word.ofTexts us
      return ws ++ vs := by
  induction ts with
  | nil =>
    rw [List.nil_append]
    cases Word.ofTexts us <;> rfl
  | cons t ts ih =>
    obtain ⟨ht, hts⟩ := List.forall_mem_cons.mp h
    rw [List.cons_append, Word.ofTexts, if_neg ht.1, ih hts, List.mapM_cons]
    cases Word.ofText t <;> cases ts.mapM Word.ofText <;> cases Word.ofTexts us <;> rfl

theorem ofTexts_flags {ts : List Text} (h : ∀ t ∈ ts, IsFlag t) :
    Word.ofTexts ts = ts.mapM Word.ofText := by
  have hall := ofTexts_append h []
  rw [List.append_nil] at hall
  rw [hall]
  cases ts.mapM Word.ofText with
  | error e => rfl
  | ok ws => exact congrArg Except.ok (List.append_nil ws)

theorem isFlag_of_mapM {ts : List Text} (h : ∀ t ∈ ts, IsFlag t) {ws : List Word}
    (hws : ts.mapM Word.ofText = .ok ws) : ∀ w ∈ ws, w.IsFlag := by
  induction ts generalizing ws with
  | nil =>
    obtain rfl := Except.ok.inj hws
    exact List.forall_mem_nil _
  | cons t ts ih =>
    obtain ⟨ht, hts⟩ := List.forall_mem_cons.mp h
    rw [List.mapM_cons] at hws
    cases hw : Word.ofText t with
    | error e => rw [hw] at hws; cases hws
    | ok w =>
      cases hvs : ts.mapM Word.ofText with
      | error e => rw [hw, hvs] at hws; cases hws
      | ok vs =>
        rw [hw, hvs] at hws
        obtain rfl := Except.ok.inj hws
        refine List.forall_mem_cons.mpr ⟨?_, ih hts hvs⟩
        cases w with
        | operand u => exact absurd hw (ht.2 u)
        | separator => exact absurd hw (Word.ofText_ne_separator t)
        | long flag value => trivial
        | short flag value => trivial
        | unknown u => trivial

inductive NamesFile (path : Text) : (arguments flags : List Text) → Prop
  | between {before after} : (∀ t ∈ before, IsFlag t) → (∀ t ∈ after, IsFlag t) →
      Word.ofText path = .ok (.operand path) →
      NamesFile path (before ++ path :: after) (before ++ after)
  | separated {flags} : (∀ t ∈ flags, IsFlag t) →
      NamesFile path (flags ++ [['-', '-'], path]) flags

namespace NamesFile

variable {path : Text} {arguments flags : List Text}

theorem ofTexts_eq (h : NamesFile path arguments flags) :
    Request.ofTexts arguments = (Request.ofTexts flags).map (·.withPath path) := by
  cases h with
  | @between before after hbefore hafter hpath =>
    have hne : path ≠ ['-', '-'] := by
      rintro rfl
      cases hpath
    rw [Request.ofTexts, Request.ofTexts, ofTexts_append hbefore, ofTexts_append hbefore,
      Word.ofTexts, if_neg hne, hpath, ofTexts_flags hafter]
    cases hws : before.mapM Word.ofText with
    | error e => rfl
    | ok ws =>
      cases hvs : after.mapM Word.ofText with
      | error e => rfl
      | ok vs =>
        exact Settings.act_append_congr rfl (isFlag_of_mapM hbefore hws)
          fun next hnext => Settings.act_operand hnext path (isFlag_of_mapM hafter hvs)
  | @separated flags hflags =>
    rw [Request.ofTexts, Request.ofTexts, ofTexts_append hflags, ofTexts_flags hflags]
    cases hws : flags.mapM Word.ofText with
    | error e => rfl
    | ok ws =>
      have hact (next : Settings) (hnext : next.path = none) :
          next.act [.separator, .operand path] = (next.act []).map (·.withPath path) := by
        rw [← next.act_withPath path (List.forall_mem_nil _)]
        conv_lhs => rw [Settings.act, hnext]
      have hlast := Settings.act_append_congr (s := {}) (f := (·.withPath path)) rfl
        (isFlag_of_mapM hflags hws) hact
      rw [List.append_nil] at hlast
      exact hlast

theorem path_eq_none (h : NamesFile path arguments flags) {s : Settings}
    (hs : Request.ofTexts flags = .ok (.lex s)) : s.path = none := by
  have hflags : ∀ t ∈ flags, IsFlag t := by
    cases h with
    | between hbefore hafter _ => exact List.forall_mem_append.mpr ⟨hbefore, hafter⟩
    | separated hflags => exact hflags
  rw [Request.ofTexts, ofTexts_flags hflags] at hs
  cases hws : flags.mapM Word.ofText with
  | error e => rw [hws] at hs; cases hs
  | ok ws =>
    rw [hws] at hs
    exact Settings.path_of_act (isFlag_of_mapM hflags hws) hs

end NamesFile

end PlcScan.CommandLine
