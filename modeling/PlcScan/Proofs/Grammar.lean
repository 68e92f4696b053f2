import Mathlib
import PlcScan.Rule

namespace PlcScan.Grammar

open Computability

def one (s : Set Char) : Language Char := {t | ∃ c ∈ s, t = [c]}

def letters : Set Char := Set.Icc 'A' 'Z' ∪ Set.Icc 'a' 'z'

def digits : Set Char := Set.Icc '0' '9'

def breaks : Set Char := {'\n', '\r'}

def identifierStart : Set Char := {'@'} ∪ letters

def identifierPart (o : Options) : Set Char :=
  letters ∪ digits ∪ {'_'} ∪ {c | c = '-' ∧ o.identifierHyphens = true}

def escapable : Set Char := {'b', 'n', 'r', 't', '\'', '"', '\\'}

/-- The printable characters that begin no lexeme of another kind, the sign before a digit apart. -/
def symbols : Set Char :=
  {c | Text.isPrintable c = true ∧ c ≠ ' '} \ (identifierStart ∪ digits ∪ {'\'', '"'})

def identifier (o : Options) : Language Char := one identifierStart * (one (identifierPart o))∗

def sign : Language Char := 1 + one {'+', '-'}

def zero : Language Char := one {'0'}

def natural : Language Char := zero + one (Set.Icc '1' '9') * (one digits)∗

def integer : Language Char := sign * natural

def decimal : Language Char := integer * one {'.'} * (one digits * (one digits)∗)

def escape : Language Char := one {'\\'} * one escapable

def characterRaw : Set Char := ({'\'', '\\'} ∪ breaks)ᶜ

def character : Language Char := one {'\''} * (one characterRaw + escape) * one {'\''}

def stringRaw : Set Char := ({'"', '\\'} ∪ breaks)ᶜ

def stringBody : Language Char := (escape + one stringRaw)∗

def string : Language Char := one {'"'} * stringBody * one {'"'}

def operator : Language Char :=
  {"==".toList, "!=".toList, "&&".toList, "||".toList} + one symbols

def lexemes (o : Options) : Kind → Language Char
  | .identifier => identifier o
  | .integer => integer
  | .decimal => decimal
  | .character => character
  | .string => string
  | .operator => operator

theorem mem_letters (c : Char) : c ∈ letters ↔ c.isAlpha = true := by
  simp [letters, Char.isAlpha, Char.isUpper, Char.isLower, Char.le_def]

theorem mem_digits (c : Char) : c ∈ digits ↔ CharClass.digit.mem c = true := by
  simp [digits, CharClass.mem, Char.isDigit, Char.le_def]

theorem mem_nonzero (c : Char) : c ∈ Set.Icc '1' '9' ↔ CharClass.nonzeroDigit.mem c = true := by
  have hz : c = '0' ↔ c.val = 48 := ⟨fun h => h ▸ rfl, fun h => Char.ext h⟩
  simp only [CharClass.mem, Char.isDigit, Char.le_def, Set.mem_Icc, bne_iff_ne, ne_eq, hz,
    Bool.and_eq_true, decide_eq_true_eq, UInt32.le_iff_toNat_le, ← UInt32.toNat_inj]
  change 49 ≤ _ ∧ _ ≤ 57 ↔ (48 ≤ _ ∧ _ ≤ 57) ∧ ¬ _ = 48
  omega

theorem mem_identifierStart (c : Char) :
    c ∈ identifierStart ↔ CharClass.identifierStart.mem c = true := by
  simp [identifierStart, CharClass.mem, mem_letters]

theorem mem_identifierPart (o : Options) (c : Char) :
    c ∈ identifierPart o ↔ o.identifierPart.mem c = true := by
  have hd : c ∈ digits ↔ c.isDigit = true := mem_digits c
  cases h : o.identifierHyphens <;>
    simp [identifierPart, Options.identifierPart, h, CharClass.mem, mem_letters, hd,
      Char.isAlphanum] <;> tauto

theorem mem_escapable (c : Char) : c ∈ escapable ↔ CharClass.escapeChar.mem c = true := by
  simp [escapable, CharClass.mem]

theorem mem_characterRaw (c : Char) :
    c ∈ characterRaw ↔ CharClass.characterBody.mem c = true := by
  simp [characterRaw, breaks, CharClass.mem]
  tauto

theorem mem_stringRaw (c : Char) : c ∈ stringRaw ↔ CharClass.stringBody.mem c = true := by
  simp [stringRaw, breaks, CharClass.mem]
  tauto

theorem mem_symbols (c : Char) : c ∈ symbols ↔
    Text.isOperator c = true ∧ CharClass.identifierStart.mem c = false ∧
      CharClass.digit.mem c = false ∧ c ≠ '\'' ∧ c ≠ '"' := by
  simp [symbols, mem_identifierStart, mem_digits, Text.isOperator]
  tauto

theorem mem_one {s : Set Char} {w : Text} : w ∈ one s ↔ ∃ c ∈ s, w = [c] := Iff.rfl

theorem mem_one_mul {s : Set Char} {l : Language Char} {w : Text} :
    w ∈ one s * l ↔ ∃ c ∈ s, ∃ u ∈ l, w = c :: u := by
  rw [Language.mem_mul]
  constructor
  · rintro ⟨_, ⟨c, hc, rfl⟩, u, hu, rfl⟩
    exact ⟨c, hc, u, hu, rfl⟩
  · rintro ⟨c, hc, u, hu, rfl⟩
    exact ⟨[c], ⟨c, hc, rfl⟩, u, hu, rfl⟩

theorem mem_one_star {s : Set Char} {w : Text} : w ∈ (one s)∗ ↔ ∀ c ∈ w, c ∈ s := by
  rw [Language.mem_kstar]
  constructor
  · rintro ⟨ws, rfl, hws⟩ c hc
    obtain ⟨u, hu, hcu⟩ := List.mem_flatten.mp hc
    obtain ⟨d, hd, rfl⟩ := hws u hu
    rwa [List.mem_singleton.mp hcu]
  · intro hw
    refine ⟨w.map fun c => [c], (List.flatMap_singleton' w).symm, ?_⟩
    simpa [mem_one] using hw

theorem mem_identifier {o : Options} {w : Text} : w ∈ identifier o ↔
    ∃ c p, CharClass.identifierStart.mem c = true ∧ (∀ d ∈ p, o.identifierPart.mem d = true) ∧
      w = c :: p := by
  simp [identifier, mem_one_mul, mem_one_star, mem_identifierStart, mem_identifierPart]

theorem mem_sign {w : Text} :
    w ∈ sign ↔ w = [] ∨ ∃ c, CharClass.sign.mem c = true ∧ w = [c] := by
  rw [sign, Language.mem_add, Language.mem_one, mem_one]
  simp [CharClass.mem]

theorem mem_zero {w : Text} : w ∈ zero ↔ w = ['0'] := by
  simp [zero, mem_one]

theorem mem_natural {w : Text} : w ∈ natural ↔ w = ['0'] ∨
    ∃ d ds, CharClass.nonzeroDigit.mem d = true ∧ (∀ e ∈ ds, CharClass.digit.mem e = true) ∧
      w = d :: ds := by
  rw [natural, Language.mem_add, mem_zero, mem_one_mul]
  simp only [mem_one_star, mem_nonzero, mem_digits]
  tauto

theorem mem_decimal {w : Text} : w ∈ decimal ↔
    ∃ i ∈ integer, ∃ d ds, CharClass.digit.mem d = true ∧
      (∀ e ∈ ds, CharClass.digit.mem e = true) ∧ w = i ++ '.' :: d :: ds := by
  rw [decimal, mul_assoc, Language.mem_mul]
  simp only [mem_one_mul, mem_one_star, mem_digits, Set.mem_singleton_iff]
  constructor
  · rintro ⟨i, hi, _, ⟨_, rfl, _, ⟨d, hd, ds, hds, rfl⟩, rfl⟩, rfl⟩
    exact ⟨i, hi, d, ds, hd, hds, rfl⟩
  · rintro ⟨i, hi, d, ds, hd, hds, rfl⟩
    exact ⟨i, hi, _, ⟨_, rfl, _, ⟨d, hd, ds, hds, rfl⟩, rfl⟩, rfl⟩

theorem mem_escape {w : Text} :
    w ∈ escape ↔ ∃ c, CharClass.escapeChar.mem c = true ∧ w = ['\\', c] := by
  simp [escape, mem_one_mul, mem_one, mem_escapable]

theorem mem_character {w : Text} : w ∈ character ↔
    (∃ c, CharClass.characterBody.mem c = true ∧ w = ['\'', c, '\'']) ∨
      ∃ c, CharClass.escapeChar.mem c = true ∧ w = ['\'', '\\', c, '\''] := by
  have hbody {u : Text} : u ∈ one characterRaw + escape ↔
      (∃ c, CharClass.characterBody.mem c = true ∧ u = [c]) ∨
        ∃ c, CharClass.escapeChar.mem c = true ∧ u = ['\\', c] := by
    rw [Language.mem_add, mem_escape, mem_one]
    simp only [mem_characterRaw]
  rw [character, mul_assoc, mem_one_mul]
  simp only [Set.mem_singleton_iff, Language.mem_mul, mem_one, hbody]
  constructor
  · rintro ⟨_, rfl, _, ⟨_, ⟨c, hc, rfl⟩ | ⟨c, hc, rfl⟩, _, ⟨_, rfl, rfl⟩, rfl⟩, rfl⟩
    · exact .inl ⟨c, hc, rfl⟩
    · exact .inr ⟨c, hc, rfl⟩
  · rintro (⟨c, hc, rfl⟩ | ⟨c, hc, rfl⟩)
    · exact ⟨_, rfl, _, ⟨[c], .inl ⟨c, hc, rfl⟩, _, ⟨_, rfl, rfl⟩, rfl⟩, rfl⟩
    · exact ⟨_, rfl, _, ⟨['\\', c], .inr ⟨c, hc, rfl⟩, _, ⟨_, rfl, rfl⟩, rfl⟩, rfl⟩

theorem mem_string {w : Text} : w ∈ string ↔ ∃ b ∈ stringBody, w = '"' :: (b ++ ['"']) := by
  rw [string, mul_assoc, mem_one_mul]
  simp only [Set.mem_singleton_iff, Language.mem_mul, mem_one]
  constructor
  · rintro ⟨_, rfl, _, ⟨b, hb, _, ⟨_, rfl, rfl⟩, rfl⟩, rfl⟩
    exact ⟨b, hb, rfl⟩
  · rintro ⟨b, hb, rfl⟩
    exact ⟨_, rfl, _, ⟨b, hb, _, ⟨_, rfl, rfl⟩, rfl⟩, rfl⟩

theorem mem_operator {w : Text} : w ∈ operator ↔ w ∈ Rule.longOperators ∨ ∃ c ∈ symbols, w = [c] := by
  rw [operator, Language.mem_add, mem_one]
  simp [Rule.longOperators]
  rfl

theorem nil_mem_stringBody : [] ∈ stringBody := Language.nil_mem_kstar _

theorem raw_mem_stringBody {c : Char} {b : Text} (hc : CharClass.stringBody.mem c = true)
    (hb : b ∈ stringBody) : c :: b ∈ stringBody := by
  obtain ⟨us, rfl, hus⟩ := hb
  refine ⟨[c] :: us, rfl, ?_⟩
  rw [List.forall_mem_cons]
  exact ⟨.inr ⟨c, (mem_stringRaw c).mpr hc, rfl⟩, hus⟩

theorem escape_mem_stringBody {c : Char} {b : Text} (hc : CharClass.escapeChar.mem c = true)
    (hb : b ∈ stringBody) : '\\' :: c :: b ∈ stringBody := by
  obtain ⟨us, rfl, hus⟩ := hb
  refine ⟨['\\', c] :: us, rfl, ?_⟩
  rw [List.forall_mem_cons]
  exact ⟨.inl (mem_escape.mpr ⟨c, hc, rfl⟩), hus⟩

@[elab_as_elim]
theorem stringBody_induction {motive : (b : Text) → b ∈ stringBody → Prop}
    (nil : motive [] nil_mem_stringBody)
    (raw : ∀ c b (hc : CharClass.stringBody.mem c = true) (hb : b ∈ stringBody), motive b hb →
      motive (c :: b) (raw_mem_stringBody hc hb))
    (escape : ∀ c b (hc : CharClass.escapeChar.mem c = true) (hb : b ∈ stringBody), motive b hb →
      motive ('\\' :: c :: b) (escape_mem_stringBody hc hb))
    {b : Text} (hb : b ∈ stringBody) : motive b hb := by
  obtain ⟨us, rfl, hus⟩ := hb
  induction us with
  | nil => exact nil
  | cons u us ih =>
    obtain ⟨hu, hrest⟩ := List.forall_mem_cons.mp hus
    rcases hu with hu | ⟨c, hc, rfl⟩
    · obtain ⟨c, hc, rfl⟩ := mem_escape.mp hu
      exact escape c _ hc ⟨us, rfl, hrest⟩ (ih hrest)
    · exact raw c _ ((mem_stringRaw c).mp hc) ⟨us, rfl, hrest⟩ (ih hrest)

theorem ne_nil_of_mem {o : Options} {k : Kind} {w : Text} (h : w ∈ lexemes o k) : w ≠ [] := by
  rintro rfl
  cases k <;>
    simp [lexemes, mem_identifier, integer, Language.mem_mul, mem_natural, mem_decimal,
      mem_character, mem_string, mem_operator, Rule.longOperators] at h

end PlcScan.Grammar
