import PlcScan.Proofs.Listing
import PlcScan.Proofs.Sessions
import PlcScan.Proofs.Utf8Faults
import PlcScan.SourceFile

namespace PlcScan

open Utf8

theorem Directory.reader_of_name (d : Directory) {name : Text} (hempty : name ≠ [])
    (hslash : '/' ∉ name) (hstay : name ≠ ['.']) (hrise : name ≠ ['.', '.']) :
    d.reader name = match d.files.lookup [name] with
      | some content => .ok content
      | none =>
        .error (if d.files.any ([name].isPrefixOf ·.1) then .isDirectory else .notFound) := by
  have hstart : name.head? ≠ some '/' := fun h => hslash (List.mem_of_mem_head? h)
  rw [reader, if_neg hempty, if_neg hstart, Text.fields_of_not_mem hslash, List.foldlM_cons]
  cases hfile : d.files.lookup [name] with
  | some content =>
    have hstep : d.step (.inside []) name = .ok (.file content) := by
      simp [step, hempty, hstay, hrise, hfile]
    rw [hstep]
    rfl
  | none =>
    have hstep : d.step (.inside []) name =
        if d.files.any ([name].isPrefixOf ·.1) then .ok (.inside [name]) else .error .notFound := by
      simp [step, hempty, hstay, hrise, hfile]
    rw [hstep]
    cases d.files.any ([name].isPrefixOf ·.1) with
    | true => rfl
    | false => rfl

theorem location_of_lex_error {o : Options} {filename t : Text} {e : LexicalError}
    (h : lex o filename t = .error (.lexical e)) :
    0 ≤ e.location.offset ∧ e.location.offset ≤ t.length ∧
      e.location = .of t e.location.offset filename := by
  obtain ⟨ps, x, -, hx, he⟩ := lex_error_iff.mp h
  obtain rfl := Failure.lexical.inj he
  have hoffset := hx.offset_le
  have hlength := List.length_pos_of_ne_nil hx.ne_nil
  rw [List.length_drop] at hoffset hlength
  change 0 ≤ ((Piece.width ps + x.offset : ℕ) : ℤ) ∧
    ((Piece.width ps + x.offset : ℕ) : ℤ) ≤ t.length ∧ _
  refine ⟨by omega, by omega, rfl⟩

theorem slice_of_lex_ok {o : Options} {filename t : Text} {ts : List Token}
    (h : lex o filename t = .ok ts) : ∀ u ∈ ts, u.lexeme = t.slice u.offset u.stop := by
  obtain ⟨ps, hps, rfl⟩ := lex_ok_iff.mp h
  intro u hu
  exact Session.slice_of_mem_tokens hps rfl hu

variable {reader : Reader} {path t : Text} {bytes : Bytes} {f : Utf8.Fault}

theorem readText_of_encode (h : reader path = .ok (encode t)) : readText reader path = .ok t := by
  rw [readText, h]
  simp only [decode_encode]
  rfl

theorem readText_of_decode_error (h : reader path = .ok bytes) (hf : decode bytes = .error f) :
    readText reader path = .error (.encoding f) := by
  rw [readText, h]
  simp only [hf]
  rfl

theorem exists_fault (h : ∀ t, bytes ≠ encode t) : ∃ f, decode bytes = .error f := by
  rcases decodeFrom_cases 0 bytes with ⟨t, ht⟩ | ⟨w, rest, f, -, -, -, hf⟩
  · exact absurd ht (h t)
  · exact ⟨f, hf⟩

theorem lexFile_of_bytes (h : reader path = .ok bytes) (o : Options) :
    (∀ t, bytes = encode t →
      readText reader path = .ok t ∧
      lexFile reader o path = (lex o path t).mapError .failure ∧
      (∀ ts, lexFile reader o path = .ok ts → ∀ u ∈ ts, u.lexeme = t.slice u.offset u.stop) ∧
      ∀ e, lexFile reader o path = .error (.failure (.lexical e)) →
        0 ≤ e.location.offset ∧ e.location.offset ≤ t.length ∧
          e.location = .of t e.location.offset path) ∧
    ((∀ t, bytes ≠ encode t) →
      ∃ f : Utf8.Fault, lexFile reader o path = .error (.unreadable (.encoding f)) ∧
        f.Exact bytes) := by
  constructor
  · rintro t rfl
    have hread := readText_of_encode h
    have hlex : lexFile reader o path = (lex o path t).mapError .failure := by
      rw [lexFile, hread]
    refine ⟨hread, hlex, ?_⟩
    rw [hlex]
    cases hl : lex o path t with
    | ok us =>
      constructor
      · intro ts hts
        obtain rfl := Except.ok.inj hts
        exact slice_of_lex_ok hl
      · intro e he
        cases he
    | error g =>
      constructor
      · intro ts hts
        cases hts
      · intro e he
        obtain rfl := FileFailure.failure.inj (Except.error.inj he)
        exact location_of_lex_error hl
  · intro hbytes
    obtain ⟨f, hf⟩ := exists_fault hbytes
    refine ⟨f, ?_, exact_of_decode hf⟩
    rw [lexFile, readText_of_decode_error h hf]

theorem lexFile_of_bytes_marked :
    lexFile (fun _ => .ok (encode "\uFEFFa\r\n1".toList))
        { whitespace := [['\uFEFF'], ['\r'], ['\n']] } [] =
      .ok [⟨.identifier, ['a'], 1⟩, ⟨.integer, ['1'], 4⟩] ∧
    lexFile (fun _ => .ok [0x0d, 0x0a, 0xe2, 0x82]) {} [] =
      .error (.unreadable (.encoding ⟨2, 2, 0xe2, .truncated⟩)) ∧
    (⟨2, 2, 0xe2, .truncated⟩ : Utf8.Fault).Exact [0x0d, 0x0a, 0xe2, 0x82] := by
  have hlex : lex { whitespace := [['\uFEFF'], ['\r'], ['\n']] } [] "\uFEFFa\r\n1".toList =
      .ok [⟨.identifier, ['a'], 1⟩, ⟨.integer, ['1'], 4⟩] := by cbv
  have hmarked := ((@lexFile_of_bytes (fun _ => .ok (encode "\uFEFFa\r\n1".toList)) [] _ rfl
    { whitespace := [['\uFEFF'], ['\r'], ['\n']] }).1 _ rfl).2.1
  have hdecode : decode [0x0d, 0x0a, 0xe2, 0x82] = .error ⟨2, 2, 0xe2, .truncated⟩ := by cbv
  have hbytes : ∀ t, ([0x0d, 0x0a, 0xe2, 0x82] : Bytes) ≠ encode t := by
    intro t ht
    rw [ht, decode_encode] at hdecode
    cases hdecode
  obtain ⟨f, hf, hexact⟩ :=
    (@lexFile_of_bytes (fun _ => .ok [0x0d, 0x0a, 0xe2, 0x82]) [] _ rfl {}).2 hbytes
  have hread : lexFile (fun _ => .ok [0x0d, 0x0a, 0xe2, 0x82]) {} [] =
      .error (.unreadable (.encoding ⟨2, 2, 0xe2, .truncated⟩)) := by
    rw [lexFile, readText_of_decode_error rfl hdecode]
  obtain rfl := ReadFault.encoding.inj (FileFailure.unreadable.inj
    (Except.error.inj (hread.symm.trans hf)))
  refine ⟨?_, hread, hexact⟩
  rw [hmarked, hlex]
  rfl

end PlcScan
