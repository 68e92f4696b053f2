import PlcScan.Proofs.Encoding
import PlcScan.Proofs.Progress

/-!
Bodies of literals as sequences of units, each a character or an escape. Main statement: a body
stands for a text exactly if it is made of units; the fault of any other is what stands behind the
longest run of units in front of it.
-/

namespace PlcScan

namespace Escape

open Grammar (escapable)

theorem value?_eq_none_iff {c : Char} : value? c = none ↔ c ∉ escapable := by
  rw [Grammar.mem_escapable, ← value?_isSome, Option.isSome_iff_ne_none, not_not]

inductive BodyUnit
  | raw (c : Char) (h : c ≠ '\\')
  | escape (e : Char) (h : e ∈ escapable)

namespace BodyUnit

def text : BodyUnit → Text
  | raw c _ => [c]
  | escape e _ => ['\\', e]

def isEscape : BodyUnit → Bool
  | raw _ _ => false
  | escape _ _ => true

theorem exists_value (u : BodyUnit) :
    ∃ c, ∀ t, unescape (u.text ++ t) = (unescape t).map (c :: ·) := by
  cases u with
  | raw c h => exact ⟨c, unescape_raw h⟩
  | escape e h =>
    obtain ⟨c, hc⟩ := exists_value? ((Grammar.mem_escapable e).mp h)
    exact ⟨c, unescape_escape hc⟩

theorem length_text (u : BodyUnit) : u.text.length = if u.isEscape then 2 else 1 := by
  cases u <;> rfl

theorem text_append_inj {u v : BodyUnit} {t t' : Text} (h : u.text ++ t = v.text ++ t') :
    u = v ∧ t = t' := by
  cases u with
  | raw c hc =>
    cases v with
    | raw d hd =>
      obtain ⟨rfl, rfl⟩ := List.cons.inj h
      exact ⟨rfl, rfl⟩
    | escape e he => exact absurd (List.cons.inj h).1 hc
  | escape e he =>
    cases v with
    | raw d hd => exact absurd (List.cons.inj h).1.symm hd
    | escape e' he' =>
      obtain ⟨rfl, rfl⟩ := List.cons.inj (List.cons.inj h).2
      exact ⟨rfl, rfl⟩

end BodyUnit

def body (us : List BodyUnit) : Text := us.flatMap BodyUnit.text

theorem body_cons (u : BodyUnit) (us : List BodyUnit) : body (u :: us) = u.text ++ body us := rfl

inductive Stuck : Text → Prop
  | done : Stuck []
  | dangling : Stuck ['\\']
  | unsupported {c t} : c ∉ escapable → Stuck ('\\' :: c :: t)

theorem Stuck.ne_text_append {r : Text} (h : Stuck r) (u : BodyUnit) (t : Text) :
    r ≠ u.text ++ t := by
  rintro rfl
  cases u with
  | raw c hc =>
    cases h with
    | dangling => exact hc rfl
    | unsupported => exact hc rfl
  | escape e he =>
    cases h with
    | unsupported hc => exact hc he

theorem exists_units (t : Text) : ∃ us r, t = body us ++ r ∧ Stuck r := by
  fun_induction unescape t with
  | case1 => exact ⟨[], [], rfl, .done⟩
  | case2 => exact ⟨[], _, rfl, .dangling⟩
  | case3 c t hc => exact ⟨[], _, rfl, .unsupported (value?_eq_none_iff.mp hc)⟩
  | case4 e t c hc ih =>
    obtain ⟨us, r, rfl, hr⟩ := ih
    have he : e ∈ escapable := (Grammar.mem_escapable e).mpr (mem_of_value? hc)
    exact ⟨.escape e he :: us, r, rfl, hr⟩
  | case5 c t hlast hpair ih =>
    obtain ⟨us, r, ht, hr⟩ := ih
    have hc : c ≠ '\\' := by
      rintro rfl
      cases t with
      | nil => exact hlast rfl rfl
      | cons d t => exact hpair d t rfl rfl
    exact ⟨.raw c hc :: us, r, congrArg (c :: ·) ht, hr⟩

theorem Stuck.prefix_units {r r' : Text} {us vs : List BodyUnit} (hr : Stuck r)
    (h : body us ++ r = body vs ++ r') : vs <+: us := by
  -- Units show where they end, so both sides lose the same unit in front.
  induction vs generalizing us with
  | nil => exact List.nil_prefix
  | cons v vs ih =>
    rw [body_cons, List.append_assoc] at h
    cases us with
    | nil => exact absurd h (hr.ne_text_append v _)
    | cons u us =>
      rw [body_cons, List.append_assoc] at h
      obtain ⟨rfl, htail⟩ := BodyUnit.text_append_inj h
      exact (List.prefix_cons_inj u).mpr (ih htail)

theorem body_injective : Function.Injective body := by
  intro us vs h
  have hnil : body us ++ [] = body vs ++ [] := congrArg (· ++ []) h
  have hvs := Stuck.done.prefix_units hnil
  have hus := Stuck.done.prefix_units hnil.symm
  exact hus.eq_of_length (hus.length_le.antisymm hvs.length_le)

theorem body_prefix_body {us vs : List BodyUnit} (h : us <+: vs) : body us <+: body vs := by
  obtain ⟨ws, rfl⟩ := h
  exact ⟨body ws, List.flatMap_append.symm⟩

structure LongestRun (t w : Text) : Prop where
  isPrefix : w <+: t
  units : ∃ us, w = body us
  longest : ∀ us, body us <+: t → (body us).length ≤ w.length

theorem LongestRun.of_stuck {r : Text} (hr : Stuck r) (us : List BodyUnit) :
    LongestRun (body us ++ r) (body us) where
  isPrefix := List.prefix_append _ _
  units := ⟨us, rfl⟩
  longest vs h := by
    obtain ⟨r', h⟩ := h
    exact (body_prefix_body (hr.prefix_units h.symm)).length_le

theorem LongestRun.stuck {w r : Text} (h : LongestRun (w ++ r) w) : Stuck r := by
  obtain ⟨us, rfl⟩ := h.units
  obtain ⟨vs, r', ht, hr'⟩ := exists_units (body us ++ r)
  have hus : us <+: vs := hr'.prefix_units ht.symm
  have hle : (body vs).length ≤ (body us).length := h.longest vs ⟨r', ht.symm⟩
  have hbody : body us = body vs :=
    (body_prefix_body hus).eq_of_length ((body_prefix_body hus).length_le.antisymm hle)
  rw [hbody] at ht
  rwa [List.append_cancel_left ht]

theorem unescape_body (us : List BodyUnit) : ∃ v, unescape (body us) = .ok v ∧
    (∀ t, unescape (body us ++ t) = (unescape t).map (v ++ ·)) ∧
      v.length + us.countP BodyUnit.isEscape = (body us).length := by
  induction us with
  | nil => exact ⟨[], rfl, fun t => (congrFun Except.map_id _).symm, rfl⟩
  | cons u us ih =>
    obtain ⟨v, hok, happend, hlen⟩ := ih
    obtain ⟨c, hc⟩ := u.exists_value
    refine ⟨c :: v, ?_, fun t => ?_, ?_⟩
    · rw [body_cons, hc, hok]
      rfl
    · rw [body_cons, List.append_assoc, hc, happend]
      cases unescape t <;> rfl
    · rw [body_cons, List.length_append, u.length_text, List.countP_cons, List.length_cons, ← hlen]
      split <;> omega

theorem unescape_unsupported {c : Char} (hc : c ∉ escapable) (t : Text) :
    unescape ('\\' :: c :: t) = .error (.unsupported c) := by
  rw [unescape, value?_eq_none_iff.mpr hc]

theorem unescape_cases (t : Text) :
    (∃ us v, t = body us ∧ unescape t = .ok v) ∨
      (∃ w, LongestRun t w ∧ t = w ++ ['\\'] ∧ unescape t = .error .dangling) ∨
      ∃ w c u, LongestRun t w ∧ t = w ++ '\\' :: c :: u ∧ unescape t = .error (.unsupported c) := by
  obtain ⟨us, r, rfl, hr⟩ := exists_units t
  have hrun := LongestRun.of_stuck hr us
  obtain ⟨v, -, happend, -⟩ := unescape_body us
  have hread := happend r
  cases hr with
  | done => exact .inl ⟨us, _, List.append_nil _, hread⟩
  | dangling => exact .inr (.inl ⟨_, hrun, rfl, hread⟩)
  | unsupported hc =>
    rw [unescape_unsupported hc] at hread
    exact .inr (.inr ⟨_, _, _, hrun, rfl, hread⟩)

theorem unescape_ok_iff {t : Text} : (∃ v, unescape t = .ok v) ↔ ∃ us, t = body us := by
  constructor
  · rintro ⟨v, hv⟩
    rcases unescape_cases t with ⟨us, -, ht, -⟩ | ⟨w, -, -, he⟩ | ⟨w, c, u, -, -, he⟩
    · exact ⟨us, ht⟩
    · cases hv.symm.trans he
    · cases hv.symm.trans he
  · rintro ⟨us, rfl⟩
    obtain ⟨v, hok, -⟩ := unescape_body us
    exact ⟨v, hok⟩

theorem unescape_dangling_iff {t : Text} :
    unescape t = .error .dangling ↔ ∃ w, LongestRun t w ∧ t = w ++ ['\\'] := by
  constructor
  · intro h
    rcases unescape_cases t with ⟨us, v, -, hv⟩ | ⟨w, hrun, ht, -⟩ | ⟨w, c, u, -, -, he⟩
    · cases h.symm.trans hv
    · exact ⟨w, hrun, ht⟩
    · cases h.symm.trans he
  · rintro ⟨w, hrun, rfl⟩
    obtain ⟨us, rfl⟩ := hrun.units
    obtain ⟨v, -, happend, -⟩ := unescape_body us
    exact happend ['\\']

theorem unescape_unsupported_iff {t : Text} {c : Char} : unescape t = .error (.unsupported c) ↔
    ∃ w u, LongestRun t w ∧ t = w ++ '\\' :: c :: u := by
  constructor
  · intro h
    rcases unescape_cases t with ⟨us, v, -, hv⟩ | ⟨w, -, -, he⟩ | ⟨w, d, u, hrun, ht, he⟩
    · cases h.symm.trans hv
    · cases h.symm.trans he
    · cases h.symm.trans he
      exact ⟨w, u, hrun, ht⟩
  · rintro ⟨w, u, hrun, rfl⟩
    obtain ⟨us, rfl⟩ := hrun.units
    obtain ⟨v, -, happend, -⟩ := unescape_body us
    cases hrun.stuck with
    | unsupported hc =>
      rw [happend, unescape_unsupported hc]
      rfl

end Escape

open Escape

theorem unescape_by_units :
    (∀ t : Text, ((∃ v, unescape t = .ok v) ↔ ∃ us, t = body us) ∧
      (unescape t = .error .dangling ↔ ∃ w, LongestRun t w ∧ t = w ++ ['\\']) ∧
      ∀ c, unescape t = .error (.unsupported c) ↔
        ∃ w u, LongestRun t w ∧ t = w ++ '\\' :: c :: u) ∧
    (∀ us, ∃ v, unescape (body us) = .ok v ∧
      (∀ t, unescape (body us ++ t) = (unescape t).map (v ++ ·)) ∧
      v.length + us.countP BodyUnit.isEscape = (body us).length) ∧
    Function.Injective body ∧
    ∀ e, (e ∈ Grammar.escapable ↔ CharClass.escapeChar.mem e = true) ∧
      ∀ t, e ∈ Grammar.escapable ↔ Rule.escape ('\\' :: e :: t) = .accept 2 () := by
  refine ⟨fun t => ⟨unescape_ok_iff, unescape_dangling_iff, fun c => unescape_unsupported_iff⟩,
    unescape_body, body_injective, fun e => ⟨Grammar.mem_escapable e, fun t => ?_⟩⟩
  rw [Rule.escape_cons, Grammar.mem_escapable]
  constructor
  · exact fun he => if_pos he
  · intro h
    by_contra he
    rw [if_neg he] at h
    simp [Munch.accept, Munch.refuse] at h

end PlcScan
