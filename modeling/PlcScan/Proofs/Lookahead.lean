import PlcScan.Proofs.Grammar

/-!
Where lexemes end. A lexeme is complete if what comes after it does not begin in one of a few barred
ways, each of at most two characters; a barred beginning would make the lexeme longer, or show a
leading zero.
-/

namespace PlcScan

open Grammar

namespace Text

theorem starts_append (tests : List (Char → Bool)) (t u : Text) :
    (t ++ u).starts tests = (t.starts (tests.take t.length) && u.starts (tests.drop t.length)) := by
  induction tests generalizing t with
  | nil => simp [starts]
  | cons test tests ih =>
    cases t with
    | nil => simp [starts]
    | cons c t => simp [starts, ih, Bool.and_assoc]

theorem starts_of_prefix {tests : List (Char → Bool)} {t u : Text} (htu : t <+: u)
    (ht : t.starts tests = true) : u.starts tests = true := by
  induction tests generalizing t u with
  | nil => rfl
  | cons test tests ih =>
    cases t with
    | nil => simp [starts] at ht
    | cons c t =>
      obtain ⟨v, rfl⟩ := htu
      simp only [starts, List.cons_append, Bool.and_eq_true] at ht ⊢
      exact ⟨ht.1, ih (List.prefix_append t v) ht.2⟩

theorem starts_singleton {test : Char → Bool} {t : Text} :
    t.starts [test] = true ↔ ∃ c u, t = c :: u ∧ test c = true := by
  cases t <;> simp [starts]

theorem starts_pair {p q : Char → Bool} {t : Text} :
    t.starts [p, q] = true ↔ ∃ c d u, t = c :: d :: u ∧ p c = true ∧ q d = true := by
  rcases t with _ | ⟨c, _ | ⟨d, u⟩⟩ <;> simp [starts]

end Text

def zeros : List Text := [['0'], ['+', '0'], ['-', '0']]

def barred (o : Options) : Kind → Text → List (List (Char → Bool))
  | .identifier, _ => [[o.identifierPart.mem]]
  | .integer, w =>
    [[CharClass.dot.mem, CharClass.digit.mem],
      [fun c => CharClass.digit.mem c && (o.rejectLeadingZeros || !zeros.contains w)]]
  | .decimal, _ => [[CharClass.digit.mem]]
  | .character, _ | .string, _ => []
  | .operator, w =>
    [[fun c => Rule.longOperators.contains (w ++ [c])],
      [fun c => [['+'], ['-']].contains w && CharClass.digit.mem c]]

structure Ends (o : Options) (k : Kind) (w rest : Text) : Prop where
  mem : w ∈ lexemes o k
  follow : ∀ tests ∈ barred o k w, rest.starts tests = false

end PlcScan
