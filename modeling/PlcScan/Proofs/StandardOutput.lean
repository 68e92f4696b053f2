import PlcScan.Proofs.Listing
import PlcScan.Proofs.Numerals
import PlcScan.Proofs.QuotedTexts
import PlcScan.Proofs.ScanTree

namespace PlcScan

namespace Text

def lineBreakers : List Char :=
  ['\n', '\r', '\x0b', '\x0c', '\x1c', '\x1d', '\x1e', '\x85', '\u2028', '\u2029']

def splitLines : Text → List Text
  | [] => []
  | '\r' :: '\n' :: rest => [] :: splitLines rest
  | c :: rest =>
    if c ∈ lineBreakers then [] :: splitLines rest
    else match splitLines rest with
      | [] => [[c]]
      | line :: more => (c :: line) :: more

theorem splitLines_append {line : Text} (h : ∀ c ∈ line, c ∉ lineBreakers) (t : Text) :
    splitLines (line ++ '\n' :: t) = line :: splitLines t := by
  induction line with
  | nil =>
    have hfeed : '\n' ∈ lineBreakers := by decide
    rw [List.nil_append, splitLines, if_pos hfeed]
    simp
  | cons c line ih =>
    obtain ⟨hc, hline⟩ := List.forall_mem_cons.mp h
    have hr : c ≠ '\r' := by
      rintro rfl
      exact hc (by decide)
    rw [List.cons_append, splitLines, if_neg hc, ih hline]
    simp [hr]

theorem splitLines_lines {ls : List Text} (h : ∀ line ∈ ls, ∀ c ∈ line, c ∉ lineBreakers) :
    splitLines (lines ls) = ls := by
  induction ls with
  | nil => rfl
  | cons line ls ih =>
    obtain ⟨hline, hls⟩ := List.forall_mem_cons.mp h
    rw [lines_cons, splitLines_append hline, ih hls]

theorem splitLines_eq_self {t : Text} (ht : t ≠ []) (h : ∀ c ∈ t, c ∉ lineBreakers) :
    splitLines t = [t] := by
  induction t with
  | nil => exact absurd rfl ht
  | cons c t ih =>
    obtain ⟨hc, htail⟩ := List.forall_mem_cons.mp h
    have hr : c ≠ '\r' := by
      rintro rfl
      exact hc (by decide)
    rw [splitLines, if_neg hc]
    · by_cases hnil : t = []
      · subst hnil
        rfl
      · rw [ih hnil htail]
    · simp [hr]

theorem isPrintable_of_mem_lineBreakers : ∀ c ∈ lineBreakers, isPrintable c = false := by
  intro c hc
  fin_cases hc <;> decide +kernel

theorem Printable.not_lineBreaker {t : Text} (ht : Printable t) : ∀ c ∈ t, c ∉ lineBreakers :=
  fun c hc hbreak => ht.not_mem (isPrintable_of_mem_lineBreakers c hbreak) hc

end Text

theorem Kind.ofName?_name (k : Kind) : Kind.ofName? k.name = some k := by
  cases k <;> rfl

theorem Kind.name_injective : Function.Injective Kind.name := injective_of_read ofName?_name

namespace CommandLine

open Utf8 (Bytes)

def readListing (line : Text) : Option Token :=
  match Text.fields '\t' line with
  | [kind, offset, literal] => do
    return ⟨← Kind.ofName? kind, ← Text.unquote? literal, ← Text.readInt? offset⟩
  | _ => none

theorem readListing_listing (u : Token) : readListing (listing u) = some u := by
  simp [readListing, fields_listing, Kind.ofName?_name, Text.unquote?_quote, Text.readInt?_ofInt]

theorem count_tab_listing (u : Token) : (listing u).count '\t' = 2 := by
  have htab : Text.isPrintable '\t' = false := by decide
  have hkind := List.count_eq_zero.mpr (u.kind.printable_name.not_mem htab)
  have hoffset := List.count_eq_zero.mpr ((Text.printable_ofInt u.offset).not_mem htab)
  have hlexeme := List.count_eq_zero.mpr ((Text.printable_quote u.lexeme).not_mem htab)
  simp [listing, hkind, hoffset, hlexeme]

theorem lineBreaker_not_mem_listing (u : Token) : ∀ c ∈ listing u, c ∉ Text.lineBreakers := by
  have htab : '\t' ∉ Text.lineBreakers := by decide
  have hkind := u.kind.printable_name.not_lineBreaker
  have hoffset := (Text.printable_ofInt u.offset).not_lineBreaker
  have hlexeme := (Text.printable_quote u.lexeme).not_lineBreaker
  exact List.forall_mem_append.mpr ⟨List.forall_mem_append.mpr
    ⟨hkind, List.forall_mem_cons.mpr ⟨htab, hoffset⟩⟩, List.forall_mem_cons.mpr ⟨htab, hlexeme⟩⟩

/-- An output records tokens: its lines, of two tabs each, read back as the tokens in their order. -/
structure Records (out : Text) (us : List Token) : Prop where
  out_eq : out = Text.lines (us.map listing)
  splitLines_eq : out.splitLines = us.map listing
  count_tab : ∀ line ∈ out.splitLines, line.count '\t' = 2
  read_eq : out.splitLines.map readListing = us.map some

theorem records_listing (us : List Token) : Records (Text.lines (us.map listing)) us := by
  have hsplit : (Text.lines (us.map listing)).splitLines = us.map listing :=
    Text.splitLines_lines (List.forall_mem_map.mpr fun u _ => lineBreaker_not_mem_listing u)
  refine ⟨rfl, hsplit, ?_, ?_⟩
  · rw [hsplit]
    exact List.forall_mem_map.mpr fun u _ => count_tab_listing u
  · rw [hsplit, List.map_map]
    exact List.map_congr_left fun u _ => readListing_listing u

theorem Records.unique {out : Text} {us vs : List Token} (hu : Records out us)
    (hv : Records out vs) : us = vs :=
  List.map_injective_iff.mpr (Option.some_injective Token) (hu.read_eq.symm.trans hv.read_eq)

def Lexed (arguments : List Text) (stdin : Bytes) (reader : Reader) (us : List Token) : Prop :=
  ∃ s t, Request.ofTexts arguments = .ok (.lex s) ∧ s.readSource stdin reader = .ok t ∧
    lex s.options s.sourceName t = .ok us

inductive Unlisted (arguments : List Text) (stdin : Bytes) (reader : Reader) : Outcome → Prop
  | usage {e out} : Request.ofTexts arguments = .error e → out.ending = .exit 2 →
      Unlisted arguments stdin reader out
  | missing {s out} : Request.ofTexts arguments = .ok (.lex s) →
      s.readSource stdin reader = .error (.path .notFound) → out.ending = .exit 2 →
      Unlisted arguments stdin reader out
  | unreadable {s fault out} : Request.ofTexts arguments = .ok (.lex s) →
      s.readSource stdin reader = .error fault → fault ≠ .path .notFound →
      out.ending = .escape (.read s.source fault) → Unlisted arguments stdin reader out
  | faulty {s t e out} : Request.ofTexts arguments = .ok (.lex s) →
      s.readSource stdin reader = .ok t → lex s.options s.sourceName t = .error (.lexical e) →
      out.ending = .exit 1 → (s.verbose = false → out.stderr = e.render) →
      Unlisted arguments stdin reader out

variable {arguments : List Text} {stdin : Bytes} {reader : Reader}

theorem Settings.run_of_ok {s : Settings} {t : Text} (ht : s.readSource stdin reader = .ok t) :
    s.run stdin reader = s.lexText t := by
  rw [Settings.run, ht]

theorem run_of_lexed {us : List Token} (h : Lexed arguments stdin reader us) :
    (run arguments stdin reader).ending = .exit 0 ∧
      (run arguments stdin reader).stdout = Text.lines (us.map listing) := by
  obtain ⟨s, t, hs, ht, hus⟩ := h
  have hrun : run arguments stdin reader = s.run stdin reader := by rw [run, hs]
  rw [hrun, Settings.run_of_ok ht, Settings.lexText, hus]
  exact ⟨rfl, rfl⟩

theorem Settings.run_of_unreadable {s : Settings} {fault : ReadFault}
    (ht : s.readSource stdin reader = .error fault) (hfault : fault ≠ .path .notFound) :
    s.run stdin reader = ⟨.escape (.read s.source fault), [], []⟩ := by
  rw [Settings.run, ht]
  rcases fault with (_ | _ | _) | _
  · exact absurd rfl hfault
  all_goals rfl

theorem run_cases (arguments : List Text) (stdin : Bytes) (reader : Reader) :
    (∃ us, Lexed arguments stdin reader us) ∨
    (Request.ofTexts arguments = .ok .help ∧
      run arguments stdin reader = ⟨.exit 0, Text.lines helpLines, []⟩) ∨
    (Unlisted arguments stdin reader (run arguments stdin reader) ∧
      (run arguments stdin reader).stdout = []) := by
  rcases hs : Request.ofTexts arguments with e | _ | s
  · refine .inr (.inr ⟨.usage hs ?_, ?_⟩) <;> rw [run, hs]
  · exact .inr (.inl ⟨rfl, by rw [run, hs]⟩)
  have hrun : run arguments stdin reader = s.run stdin reader := by rw [run, hs]
  cases ht : s.readSource stdin reader with
  | error fault =>
    by_cases hmissing : fault = .path .notFound
    · subst hmissing
      rw [hrun, Settings.run, ht]
      exact .inr (.inr ⟨.missing hs ht rfl, rfl⟩)
    · rw [hrun, Settings.run_of_unreadable ht hmissing]
      exact .inr (.inr ⟨.unreadable hs ht hmissing rfl, rfl⟩)
  | ok t =>
    cases hus : lex s.options s.sourceName t with
    | ok us => exact .inl ⟨us, s, t, hs, ht, hus⟩
    | error failure =>
      -- Scanning has no other failure than a fault in the text.
      obtain ⟨ps, x, -, -, rfl⟩ := lex_error_iff.mp hus
      rw [hrun, Settings.run_of_ok ht, Settings.lexText, hus]
      refine .inr (.inr ⟨.faulty hs ht hus rfl fun hquiet => ?_, rfl⟩)
      simp [Settings.log, hquiet]

theorem run_stdout :
    (∀ arguments stdin reader us, Lexed arguments stdin reader us →
      (run arguments stdin reader).ending = .exit 0 ∧
      Records (run arguments stdin reader).stdout us) ∧
    (∀ arguments stdin reader,
      (∃ us, Lexed arguments stdin reader us) ∨
      (Request.ofTexts arguments = .ok .help ∧
        run arguments stdin reader = ⟨.exit 0, Text.lines helpLines, []⟩) ∨
      (Unlisted arguments stdin reader (run arguments stdin reader) ∧
        (run arguments stdin reader).stdout = [])) ∧
    (∀ arguments arguments' stdin stdin' reader reader' us vs,
      Lexed arguments stdin reader us → Lexed arguments' stdin' reader' vs →
      (run arguments stdin reader).stdout = (run arguments' stdin' reader').stdout → us = vs) := by
  have hrecords {arguments stdin reader us} (h : Lexed arguments stdin reader us) :
      Records (run arguments stdin reader).stdout us := by
    rw [(run_of_lexed h).2]
    exact records_listing us
  refine ⟨fun _ _ _ _ h => ⟨(run_of_lexed h).1, hrecords h⟩, run_cases, ?_⟩
  intro arguments arguments' stdin stdin' reader reader' us vs hu hv hout
  have hvs := hrecords hv
  rw [← hout] at hvs
  exact (hrecords hu).unique hvs

def separators : Text := "\"a\t\u2028'\\\"\"".toList

theorem run_stdout_separators :
    Lexed [] (Utf8.encode separators) (fun _ => .error .notFound) [⟨.string, separators, 0⟩] ∧
    Records (run [] (Utf8.encode separators) fun _ => .error .notFound).stdout
      [⟨.string, separators, 0⟩] ∧
    ∃ vs, Lexed ["a.plc".toList] [] (fun _ => .ok (Utf8.encode separators)) vs ∧
      [⟨.string, separators, 0⟩] = vs := by
  have h : Lexed [] (Utf8.encode separators) (fun _ => .error .notFound)
      [⟨.string, separators, 0⟩] := ⟨{}, separators, rfl, by cbv, by cbv⟩
  have hfile : Lexed ["a.plc".toList] [] (fun _ => .ok (Utf8.encode separators))
      [⟨.string, separators, 0⟩] :=
    ⟨{ path := some "a.plc".toList }, separators, by cbv, by cbv, by cbv⟩
  have hrecords := (run_stdout.1 _ _ _ _ h).2
  have hout := hrecords.out_eq.trans (run_stdout.1 _ _ _ _ hfile).2.out_eq.symm
  exact ⟨h, hrecords, _, hfile, run_stdout.2.2 _ _ _ _ _ _ _ _ h hfile hout⟩

end CommandLine

end PlcScan
