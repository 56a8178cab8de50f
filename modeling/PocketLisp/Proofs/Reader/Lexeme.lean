import PocketLisp.Reader.Token

/-!
The texts of tokens, apart from their positions. A text that one token can hold is a token of its
own as soon as what follows cannot go on with it.
-/
namespace PocketLisp.Token

theorem not_isDelimiter_of_isBlank {c : Char} (h : Text.isBlank c = true) :
    isDelimiter c = false := by
  simp only [isDelimiter, Bool.or_eq_false_iff, beq_eq_false_iff_ne, ne_eq]
  refine ⟨⟨?_, ?_⟩, ?_⟩ <;> rintro rfl <;> exact absurd h (by decide)

/-- End a run of characters, given with the last one first; an empty one leaves nothing. -/
def closeRun (begun : List Char) (rest : List String) : List String :=
  match begun with
  | [] => rest
  | begun => String.ofList begun.reverse :: rest

/-- The texts of the tokens after a run of characters has begun. -/
def lexemes (begun : List Char) : List Char → List String
  | [] => closeRun begun []
  | c :: cs =>
    if isDelimiter c then closeRun begun (String.ofList [c] :: lexemes [] cs)
    else if Text.isBlank c then closeRun begun (lexemes [] cs)
    else lexemes (c :: begun) cs

def begunChars : Option Partial → List Char
  | none => []
  | some p => p.chars

theorem map_text_flush (line : Nat) {begun : Option Partial}
    (h : begun.isSome → begunChars begun ≠ []) (rest : List Token) :
    (flush line begun rest).map text = closeRun (begunChars begun) (rest.map text) := by
  cases begun with
  | none => rfl
  | some p =>
    cases hp : p.chars with
    | nil => exact absurd hp (h rfl)
    | cons c cs => simp [flush, placed, begunChars, closeRun, hp]

/-- Positions play no part in where tokens begin and end. -/
theorem map_text_scan (line column : Nat) {begun : Option Partial}
    (h : begun.isSome → begunChars begun ≠ []) (cs : List Char) :
    (scan line column begun cs).map text = lexemes (begunChars begun) cs := by
  induction cs generalizing line column begun with
  | nil => exact map_text_flush line h []
  | cons c cs ih =>
    have hnone : (none : Option Partial).isSome → begunChars none ≠ [] := by simp
    by_cases hnl : c = '\n'
    · subst hnl
      rw [scan, if_pos rfl, map_text_flush line h, ih _ _ hnone]
      rfl
    · rw [scan, if_neg hnl, lexemes]
      split
      · rw [map_text_flush line h, List.map_cons, ih _ _ hnone]
        rfl
      · split
        · rw [map_text_flush line h, ih _ _ hnone]
          rfl
        · have hsome : (some (extend column c begun)).isSome →
              begunChars (some (extend column c begun)) ≠ [] := by
            cases begun <;> simp [begunChars, extend]
          rw [ih _ _ hsome]
          cases begun <;> rfl

theorem map_text_ofText (s : String) : (ofText s).map text = lexemes [] s.toList :=
  map_text_scan 1 1 (by simp) s.toList

/-- Characters that do not begin with one that belongs to an atom. -/
def Bounded (cs : List Char) : Prop := ∀ c ∈ cs.head?, isAtomChar c = false

theorem bounded_nil : Bounded [] := by simp [Bounded]

theorem bounded_cons {c : Char} (h : isAtomChar c = false) (cs : List Char) :
    Bounded (c :: cs) := by
  simpa [Bounded] using h

theorem lexemes_append_of_isAtomChar {cs : List Char} (h : ∀ c ∈ cs, isAtomChar c = true)
    (begun rest : List Char) : lexemes begun (cs ++ rest) = lexemes (cs.reverse ++ begun) rest := by
  induction cs generalizing begun with
  | nil => rfl
  | cons c cs ih =>
    have hc : isDelimiter c = false ∧ Text.isBlank c = false := by
      simpa [isAtomChar] using h c (by simp)
    rw [List.cons_append, lexemes, hc.1, hc.2]
    simp only [Bool.false_eq_true, if_false]
    rw [ih fun d hd => h d (List.mem_cons_of_mem c hd)]
    simp

theorem lexemes_of_bounded (begun : List Char) {rest : List Char} (h : Bounded rest) :
    lexemes begun rest = closeRun begun (lexemes [] rest) := by
  cases rest with
  | nil => cases begun <;> rfl
  | cons c cs =>
    have hc : isAtomChar c = false := h c rfl
    by_cases hdelim : isDelimiter c = true
    · simp [lexemes, hdelim, closeRun]
    · have hblank : Text.isBlank c = true := by simpa [isAtomChar, hdelim] using hc
      simp [lexemes, hdelim, hblank, closeRun]

/-- A text without blanks and delimiters is one token, up to where such a character follows. -/
theorem lexemes_atom {cs rest : List Char} (hne : cs ≠ []) (hcs : ∀ c ∈ cs, isAtomChar c = true)
    (hrest : Bounded rest) : lexemes [] (cs ++ rest) = String.ofList cs :: lexemes [] rest := by
  rw [lexemes_append_of_isAtomChar hcs, lexemes_of_bounded _ hrest, List.append_nil]
  have hrev : cs.reverse ≠ [] := fun h => hne (List.reverse_eq_nil_iff.mp h)
  cases hr : cs.reverse with
  | nil => exact absurd hr hrev
  | cons c ds =>
    have hback : String.ofList (c :: ds).reverse = String.ofList cs := by
      rw [← hr, List.reverse_reverse]
    rw [closeRun, hback]
    exact List.cons_ne_nil c ds

theorem lexemes_delimiter {c : Char} (h : isDelimiter c = true) (cs : List Char) :
    lexemes [] (c :: cs) = String.ofList [c] :: lexemes [] cs := by
  simp [lexemes, h, closeRun]

theorem lexemes_space (cs : List Char) : lexemes [] (' ' :: cs) = lexemes [] cs := rfl

end PocketLisp.Token
