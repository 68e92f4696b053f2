import PlcScan.Proofs.StandardOutput

namespace PlcScan

open Text

theorem Text.printable_upperHex (width n : ℕ) :
    Printable ((ofNatHex width n).map Char.toUpper) := by
  have hdigit : ∀ d < 16, isPrintable (Nat.digitChar d).toUpper = true := by decide
  intro c hc
  obtain ⟨b, hb, rfl⟩ := List.mem_map.mp hc
  obtain ⟨d, hd, rfl⟩ := exists_digitChar_hex hb
  exact hdigit d hd

theorem Text.lowerHex_upperHex (width n : ℕ) :
    ((ofNatHex width n).map Char.toUpper).map Char.toLower = ofNatHex width n := by
  have hdigit : ∀ d < 16, (Nat.digitChar d).toUpper.toLower = Nat.digitChar d := by decide
  rw [List.map_map, List.map_congr_left (g := id), List.map_id]
  intro c hc
  obtain ⟨d, hd, rfl⟩ := exists_digitChar_hex hc
  exact hdigit d hd

namespace Found

theorem printable_describe (f : Found) : f.describe.Printable := by
  have hquote : isPrintable '\'' = true := by decide
  fun_cases describe f with
  | case1 => exact .of_all (by cbv)
  | case2 => exact .cons hquote (.cons hquote (List.forall_mem_nil _))
  | case3 c hc => exact .cons hquote (.cons hc (.cons hquote (List.forall_mem_nil _)))
  | case4 c => exact .cons (by decide) (.cons (by decide) (printable_upperHex 4 c.toNat))

def read? : Text → Option Found
  | '\'' :: c :: t => some (if t = [] then nothing else char c)
  | 'U' :: '+' :: t => ((ofHex? (t.map Char.toLower)).bind ofCodePoint?).map char
  | _ => some endOfInput

theorem read?_describe (f : Found) : read? f.describe = some f := by
  fun_cases describe f with
  | case1 => rfl
  | case2 => rfl
  | case3 c hc => rfl
  | case4 c =>
    rw [read?, lowerHex_upperHex, ofHex?_ofNatHex, Option.bind_some, ofCodePoint?_toNat]
    rfl

theorem describe_injective : Function.Injective describe := injective_of_read read?_describe

theorem ahead_inj {t u : Text} : ahead t = ahead u ↔ t.head? = u.head? := by
  cases t <;> cases u <;> simp [ahead]

end Found

namespace Fault

def found? : Fault → Option Found
  | invalidCharacter found => some found
  | unterminatedString => none
  | invalidNumber _ => none
  | invalidEscape found => some found
  | malformedCharacter found => some found

theorem printable_subject (f : Fault) : f.subject.Printable := by
  unfold subject
  cases f with
  | invalidCharacter found => exact .append (.of_all (by cbv)) found.printable_describe
  | unterminatedString => exact .of_all (by cbv)
  | invalidNumber reason => exact .of_all (by cbv)
  | invalidEscape found => exact .append (.of_all (by cbv)) found.printable_describe
  | malformedCharacter found => exact .append (.of_all (by cbv)) found.printable_describe

theorem printable_message (f : Fault) (n : ℤ) : (f.message n).Printable := by
  unfold message
  exact .append (.append f.printable_subject (.of_all (by cbv))) (printable_ofInt n)

theorem message_eq (f : Fault) (n : ℤ) :
    f.message n = (f.subject ++ " at offset".toList) ++ ' ' :: ofInt n := by
  have hlast : " at offset ".toList = " at offset".toList ++ [' '] := rfl
  unfold message
  rw [hlast]
  simp only [List.append_assoc, List.singleton_append]

theorem message_inj {f g : Fault} {m n : ℤ} (h : f.message m = g.message n) :
    f.subject = g.subject ∧ m = n := by
  rw [message_eq, message_eq] at h
  obtain ⟨hsubject, hoffset⟩ := last_separator_inj (not_mem_ofInt rfl (by decide) m)
    (not_mem_ofInt rfl (by decide) n) h
  exact ⟨List.append_cancel_right hsubject, ofInt_injective hoffset⟩

def codeDigit : Fault → Char
  | invalidCharacter _ => '1'
  | unterminatedString => '2'
  | invalidNumber _ => '3'
  | invalidEscape _ => '6'
  | malformedCharacter _ => '9'

theorem code_eq_append (f : Fault) : f.code = "L00".toList ++ [f.codeDigit] := by
  cases f <;> rfl

theorem codeDigit_eq_of_code {f g : Fault} (h : f.code = g.code) : f.codeDigit = g.codeDigit := by
  rw [code_eq_append, code_eq_append] at h
  exact List.singleton_inj.mp (List.append_cancel_left h)

theorem found?_eq_of_subject {f g : Fault} (hcode : f.code = g.code)
    (h : f.subject = g.subject) : f.found? = g.found? := by
  have hdigit := codeDigit_eq_of_code hcode
  unfold subject at h
  cases f <;> cases g
  case invalidCharacter.invalidCharacter | invalidEscape.invalidEscape |
      malformedCharacter.malformedCharacter =>
    exact congrArg some (Found.describe_injective (List.append_cancel_left h))
  -- Faults of different kinds have different codes.
  all_goals first
    | rfl
    | simp [codeDigit] at hdigit

theorem exists_found {f : Fault} (h : f.code ∈ ["L001".toList, "L006".toList, "L009".toList]) :
    ∃ found, f.found? = some found := by
  cases f with
  | unterminatedString => exact absurd h (by decide)
  | invalidNumber =>
    have h : "L003".toList ∈ ["L001".toList, "L006".toList, "L009".toList] := h
    exact absurd h (by decide)
  | _ => exact ⟨_, rfl⟩

theorem printable_help {f : Fault}
    (h : ∀ reason, f = invalidNumber reason → reason.Printable ∧ reason ≠ []) :
    f.help.Printable ∧ f.help ≠ [] := by
  unfold help
  cases f with
  | invalidNumber reason => exact h reason rfl
  | _ => exact ⟨.of_all (by cbv), List.isEmpty_eq_false_iff.mp (by cbv)⟩

def suggestionLines (f : Fault) : List Text :=
  match f.suggestions with
  | none => []
  | some suggestions => "  suggestions:".toList :: suggestions.map ("    - ".toList ++ ·)

theorem printable_suggestionLines (f : Fault) : ∀ line ∈ f.suggestionLines, line.Printable := by
  have hall {ls : List Text} (h : ls.all (·.all isPrintable) = true) : ∀ l ∈ ls, l.Printable :=
    fun l hl => .of_all (List.all_eq_true.mp h l hl)
  unfold suggestionLines suggestions
  cases f with
  | unterminatedString => exact hall (by cbv)
  | malformedCharacter => exact hall (by cbv)
  | _ => exact List.forall_mem_nil _

end Fault

namespace Diagnosis

variable {o : Options} {t : Text} {x : Finding}

theorem found_eq (h : Diagnosis o t x) :
    ∀ found ∈ x.fault.found?, found = .ahead (t.drop x.offset) := by
  intro found hfound
  cases h with
  | leadingZero => cases hfound
  | unterminatedString => cases hfound
  | @stringEscape b c t hb hc =>
    obtain rfl := Option.some.inj hfound
    have hdrop : ('"' :: (b ++ '\\' :: c :: t)).drop (b.length + 2) = c :: t := by
      rw [List.drop_succ_cons, List.drop_length_add_append]
      rfl
    rw [hdrop]
    rfl
  | _ => exact (Option.some.inj hfound).symm

theorem printable_help (h : Diagnosis o t x) : x.fault.help.Printable ∧ x.fault.help ≠ [] := by
  refine Fault.printable_help fun reason hreason => ?_
  cases h with
  | leadingZero =>
    rw [← Fault.invalidNumber.inj hreason]
    exact ⟨.of_all (by cbv), List.isEmpty_eq_false_iff.mp (by cbv)⟩
  | _ => cases hreason

end Diagnosis

theorem Location.lineFeed_not_mem_brief {l : Location} (h : '\n' ∉ l.filename) : '\n' ∉ l.brief := by
  have hline := not_mem_ofNat (c := '\n') rfl l.line
  have hcolumn := not_mem_ofInt (c := '\n') rfl (by decide) l.column
  simp [brief, h, hline, hcolumn]

namespace LexicalError

theorem renderLines_eq {e : LexicalError} (h : e.fault.help ≠ []) : e.diagnostic.renderLines =
    [("error".toList.map Char.toUpper ++ ": ".toList) ++ e.message,
      "  --> ".toList ++ e.location.brief ++ " (offset ".toList ++ ofInt e.location.offset ++ [')'],
      "  help: ".toList ++ e.fault.help] ++ e.fault.suggestionLines := by
  obtain ⟨c, t, hhelp⟩ := List.exists_cons_of_ne_nil h
  unfold Diagnostic.renderLines Fault.suggestionLines diagnostic
  dsimp only
  rw [hhelp]
  cases e.fault <;> rfl

theorem lineFeed_not_mem_renderLines {e : LexicalError} (h : '\n' ∉ e.location.filename)
    (hhelp : e.fault.help.Printable) (hne : e.fault.help ≠ []) :
    ∀ line ∈ e.diagnostic.renderLines, '\n' ∉ line := by
  have hfeed : isPrintable '\n' = false := by decide
  have hhead : Printable ("error".toList.map Char.toUpper ++ ": ".toList) := .of_all (by cbv)
  have harrow : Printable ("  --> ".toList) := .of_all (by cbv)
  have hoffset : Printable (" (offset ".toList) := .of_all (by cbv)
  have hlabel : Printable ("  help: ".toList) := .of_all (by cbv)
  have hplace := (printable_ofInt e.location.offset).not_mem hfeed
  rw [renderLines_eq hne]
  refine List.forall_mem_append.mpr ⟨?_, fun line hline =>
    (e.fault.printable_suggestionLines line hline).not_mem hfeed⟩
  rw [List.forall_mem_cons, List.forall_mem_cons, List.forall_mem_singleton]
  refine ⟨?_, ?_, ?_⟩
  · exact (hhead.append (e.fault.printable_message e.location.offset)).not_mem hfeed
  · simp only [List.mem_append, not_or]
    exact ⟨⟨⟨⟨harrow.not_mem hfeed, Location.lineFeed_not_mem_brief h⟩, hoffset.not_mem hfeed⟩,
      hplace⟩, by decide⟩
  · exact (hlabel.append hhelp).not_mem hfeed

theorem length_renderLines {e : LexicalError} (h : e.fault.help ≠ []) :
    e.fault.code ∈ ["L001".toList, "L003".toList, "L006".toList] ∧
        e.diagnostic.renderLines.length = 3 ∨
      e.fault.code = "L009".toList ∧ e.diagnostic.renderLines.length = 5 ∨
      e.fault.code = "L002".toList ∧ e.diagnostic.renderLines.length = 6 := by
  rw [renderLines_eq h, List.length_append]
  cases e.fault with
  | invalidCharacter => exact .inl ⟨.head _, rfl⟩
  | unterminatedString => exact .inr (.inr ⟨rfl, rfl⟩)
  | invalidNumber => exact .inl ⟨.tail _ (.head _), rfl⟩
  | invalidEscape => exact .inl ⟨.tail _ (.tail _ (.head _)), rfl⟩
  | malformedCharacter => exact .inr (.inl ⟨rfl, rfl⟩)

end LexicalError

theorem lex_error_tells {o : Options} {filename source : Text} {e : LexicalError}
    (h : lex o filename source = .error (.lexical e)) :
    0 ≤ e.location.offset ∧
    (∀ found ∈ e.fault.found?, found = .ahead (source.drop e.location.offset.toNat)) ∧
    e.location.filename = filename ∧ e.fault.help.Printable ∧ e.fault.help ≠ [] := by
  obtain ⟨ps, x, -, hx, he⟩ := lex_error_iff.mp h
  obtain rfl := Failure.lexical.inj he
  refine ⟨Int.natCast_nonneg _, fun found hfound => ?_, rfl, hx.printable_help⟩
  have hahead := hx.found_eq found hfound
  rwa [List.drop_drop] at hahead

theorem lex_messages {o : Options} {filename source : Text} {e : LexicalError}
    (h : lex o filename source = .error (.lexical e)) :
    e.message.Printable ∧
    (0 ≤ e.location.offset ∧ " at offset ".toList ++ ofInt e.location.offset <:+ e.message) ∧
    (∀ found ∈ e.fault.found?, found = .ahead (source.drop e.location.offset.toNat)) ∧
    (∀ o' filename' source' e', lex o' filename' source' = .error (.lexical e') →
      e'.fault.code = e.fault.code → e'.message = e.message →
      e'.location.offset = e.location.offset ∧
      (e.fault.code ∈ ["L001".toList, "L006".toList, "L009".toList] →
        source'[e'.location.offset.toNat]? = source[e.location.offset.toNat]?)) ∧
    ('\n' ∉ filename → ∃ ls, e.render = lines ls ∧ (∀ line ∈ ls, '\n' ∉ line) ∧
      (e.fault.code ∈ ["L001".toList, "L003".toList, "L006".toList] ∧ ls.length = 3 ∨
        e.fault.code = "L009".toList ∧ ls.length = 5 ∨
        e.fault.code = "L002".toList ∧ ls.length = 6)) := by
  obtain ⟨hpos, hshown, hname, hhelp, hne⟩ := lex_error_tells h
  refine ⟨e.fault.printable_message _, ⟨hpos, e.fault.subject, ?_⟩, hshown, ?_, fun hfilename => ?_⟩
  · exact (List.append_assoc _ _ _).symm
  · intro o' filename' source' e' h' hcode hmessage
    obtain ⟨hsubject, hoffset⟩ := Fault.message_inj hmessage
    refine ⟨hoffset, fun hkind => ?_⟩
    obtain ⟨found, hfound⟩ := Fault.exists_found hkind
    have hfound' : e'.fault.found? = some found :=
      (Fault.found?_eq_of_subject hcode hsubject).trans hfound
    have hahead := ((lex_error_tells h').2.1 found hfound').symm.trans (hshown found hfound)
    rwa [Found.ahead_inj, List.head?_drop, List.head?_drop] at hahead
  · rw [← hname] at hfilename
    exact ⟨_, rfl, LexicalError.lineFeed_not_mem_renderLines hfilename hhelp hne,
      LexicalError.length_renderLines hne⟩

def separatorEscape (filename : Text) : LexicalError :=
  ⟨.invalidEscape (.char '\u2028'), ⟨filename, 1, 4, 3⟩⟩

theorem lex_messages_separator :
    lex {} ['a'] ['"', 'x', '\\', '\u2028'] = .error (.lexical (separatorEscape ['a'])) ∧
    lex {} ['b'] ['"', 'y', '\\', '\u2028', '"'] = .error (.lexical (separatorEscape ['b'])) ∧
    (separatorEscape ['a']).message.Printable ∧
    " at offset ".toList ++ ofInt 3 <:+ (separatorEscape ['a']).message ∧
    ['"', 'y', '\\', '\u2028', '"'][3]? = ['"', 'x', '\\', '\u2028'][3]? ∧
    ∃ ls, (separatorEscape ['a']).render = lines ls ∧ (∀ line ∈ ls, '\n' ∉ line) ∧
      ls.length = 3 := by
  have h : lex {} ['a'] ['"', 'x', '\\', '\u2028'] =
      .error (.lexical (separatorEscape ['a'])) := by cbv
  have h' : lex {} ['b'] ['"', 'y', '\\', '\u2028', '"'] =
      .error (.lexical (separatorEscape ['b'])) := by cbv
  obtain ⟨hprintable, ⟨-, hoffset⟩, -, hother, hlines⟩ := lex_messages h
  obtain ⟨-, hcharacter⟩ := hother _ _ _ _ h' rfl rfl
  obtain ⟨ls, hrender, hline, hlength⟩ := hlines (by decide)
  refine ⟨h, h', hprintable, hoffset, hcharacter (.tail _ (.head _)), ls, hrender,
    hline, ?_⟩
  rcases hlength with ⟨-, hlength⟩ | ⟨hcode, -⟩ | ⟨hcode, -⟩
  · exact hlength
  · cases hcode
  · cases hcode

end PlcScan
