import Mathlib.Data.List.Sort
import PocketLisp.Proofs.Reader.Lexeme

/-!
Tokens as stretches of a text. Told by line and column, the tokens of a text are its delimiters and
its longest runs of other characters that are not blank, in order; they do not overlap, and they leave
out nothing but blanks. No other sequence of tokens is like that.
-/
namespace PocketLisp.Token

/-- The lines of a text. Only a newline ends a line here. -/
def lines (s : String) : List (List Char) := s.toList.splitOn '\n'

/-- The character in a line and a column, both counted from 0. -/
def charAt? (ls : List (List Char)) (line column : Nat) : Option Char :=
  ls[line]?.bind fun l => l[column]?

/-- Part of a line: where it starts, counted from 0, and the characters. -/
structure Stretch where
  line : Nat
  column : Nat
  chars : List Char

def Precedes (line column line' column' : Nat) : Prop :=
  line < line' ∨ line = line' ∧ column ≤ column'

/-- Characters that make a token where they stand: a delimiter alone, or a run of other characters
that are not blank, which goes on neither to the left nor to the right. -/
inductive IsWhole : List Char → List Char → List Char → Prop
  | delimiter {front rest : List Char} {c : Char} (h : isDelimiter c = true) : IsWhole front [c] rest
  | run {front chars rest : List Char} (hne : chars ≠ []) (h : ∀ c ∈ chars, isAtomChar c = true)
      (hfront : Bounded front.reverse) (hrest : Bounded rest) : IsWhole front chars rest

namespace Stretch

/-- The token there; lines and columns of tokens are counted from 1. -/
def token (p : Stretch) : Token := .placed p.chars (p.line + 1) (p.column + 1)

/-- The characters are found at the place, and they make a token there. -/
def Stands (ls : List (List Char)) (p : Stretch) : Prop :=
  ∃ front rest, ls[p.line]? = some (front ++ p.chars ++ rest) ∧ front.length = p.column ∧
    IsWhole front p.chars rest

def Before (p q : Stretch) : Prop := Precedes p.line (p.column + p.chars.length) q.line q.column

def Holds (p : Stretch) (line column : Nat) : Prop :=
  p.line = line ∧ p.column ≤ column ∧ column < p.column + p.chars.length

end Stretch

/-- Tokens in order and without overlap, of which every character that is not blank belongs to
exactly one. -/
structure Partition (ls : List (List Char)) (ps : List Stretch) : Prop where
  standing : ∀ p ∈ ps, p.Stands ls
  ordered : ps.Pairwise Stretch.Before
  covering : ∀ line column c, charAt? ls line column = some c → Text.isBlank c = false →
    ∃! p, p ∈ ps ∧ p.Holds line column

namespace IsWhole

variable {front chars rest : List Char}

theorem ne_nil (h : IsWhole front chars rest) : chars ≠ [] := by
  cases h <;> simp_all

theorem not_isBlank (h : IsWhole front chars rest) : ∀ c ∈ chars, Text.isBlank c = false := by
  cases h with
  | delimiter h =>
    simp only [List.mem_singleton, forall_eq]
    refine Bool.eq_false_iff.mpr fun hblank => ?_
    simp [not_isDelimiter_of_isBlank hblank] at h
  | run _ h =>
    intro c hc
    have hatom := h c hc
    simp only [isAtomChar, Bool.and_eq_true, Bool.not_eq_true'] at hatom
    exact hatom.2

end IsWhole

/-! Two tokens that share a place are the same. -/

/-- The characters of a stretch belong to atoms, and those beside it do not. -/
structure IsRun (ls : List (List Char)) (p : Stretch) : Prop where
  atoms : ∀ c ∈ p.chars, isAtomChar c = true
  left : ∀ column c, column + 1 = p.column → charAt? ls p.line column = some c →
    isAtomChar c = false
  right : ∀ c, charAt? ls p.line (p.column + p.chars.length) = some c → isAtomChar c = false

namespace Stretch

variable {ls : List (List Char)} {p q : Stretch} {line column : Nat}

theorem Stands.getElem? (h : p.Stands ls) {i : Nat} (hi : i < p.chars.length) :
    charAt? ls p.line (p.column + i) = p.chars[i]? := by
  obtain ⟨front, rest, hline, hfront, -⟩ := h
  simp [charAt?, hline, ← hfront, List.getElem?_append, hi]

theorem Stands.exists_mem (h : p.Stands ls) (hp : p.Holds line column) :
    ∃ c ∈ p.chars, charAt? ls line column = some c := by
  obtain ⟨rfl, hstart, hend⟩ := hp
  have hi : column - p.column < p.chars.length := by omega
  have hchar := h.getElem? hi
  rw [Nat.add_sub_cancel' hstart] at hchar
  exact ⟨p.chars[column - p.column], List.getElem_mem hi, by simp [hchar, hi]⟩

theorem Stands.cases (h : p.Stands ls) :
    (∃ c, isDelimiter c = true ∧ p.chars = [c]) ∨ IsRun ls p := by
  obtain ⟨l, k, chars⟩ := p
  obtain ⟨front, rest, hline, rfl, hwhole⟩ := h
  cases hwhole with
  | delimiter h => exact .inl ⟨_, h, rfl⟩
  | run _ hatoms hleft hright =>
    simp only [List.append_assoc] at hline
    refine .inr ⟨hatoms, fun column c hcolumn hc => ?_, fun c hc => ?_⟩
    · have hlt : column < front.length := Nat.lt_of_succ_le (Nat.le_of_eq hcolumn)
      have hpred : front.length - 1 = column := Nat.sub_eq_of_eq_add hcolumn.symm
      have hlast : front.reverse.head? = some c := by
        simpa [charAt?, hline, List.getLast?_eq_getElem?, hpred, List.getElem?_append, hlt] using hc
      exact hleft c hlast
    · have hfirst : rest.head? = some c := by
        simpa [charAt?, hline, List.getElem?_append, List.head?_eq_getElem?] using hc
      exact hright c hfirst

/-- Of two runs that share a place, neither starts before the other. -/
theorem column_le_of_isRun (hp : p.Stands ls) (hprun : IsRun ls p) (hqrun : IsRun ls q)
    (hpc : p.Holds line column) (hqc : q.Holds line column) : q.column ≤ p.column := by
  refine Nat.le_of_not_lt fun hlt => ?_
  have hbefore : p.Holds line (q.column - 1) := by
    simp only [Holds] at hpc hqc ⊢
    omega
  obtain ⟨c, hc, hchar⟩ := hp.exists_mem hbefore
  have hleft := hqrun.left (q.column - 1) c (by omega) (hqc.1 ▸ hchar)
  simp [hprun.atoms c hc] at hleft

theorem length_le_of_isRun (hq : q.Stands ls) (hprun : IsRun ls p) (hqrun : IsRun ls q)
    (hline : p.line = q.line) (hcolumn : p.column = q.column) : q.chars.length ≤ p.chars.length := by
  refine Nat.le_of_not_lt fun hlt => ?_
  have hafter : q.Holds p.line (p.column + p.chars.length) := by
    simp only [Holds]
    omega
  obtain ⟨c, hc, hchar⟩ := hq.exists_mem hafter
  have hright := hprun.right c hchar
  simp [hqrun.atoms c hc] at hright

theorem Stands.ext (hp : p.Stands ls) (hq : q.Stands ls) (hline : p.line = q.line)
    (hcolumn : p.column = q.column) (hlength : p.chars.length = q.chars.length) : p = q := by
  have hchars : p.chars = q.chars := by
    refine List.ext_getElem? fun i => ?_
    by_cases hi : i < p.chars.length
    · rw [← hp.getElem? hi, ← hq.getElem? (hlength ▸ hi), hline, hcolumn]
    · rw [List.getElem?_eq_none (by omega), List.getElem?_eq_none (by omega)]
  obtain ⟨l, k, chars⟩ := p
  obtain ⟨l', k', chars'⟩ := q
  simp_all

theorem Stands.eq_of_holds (hp : p.Stands ls) (hq : q.Stands ls) (hpc : p.Holds line column)
    (hqc : q.Holds line column) : p = q := by
  have hline : p.line = q.line := hpc.1.trans hqc.1.symm
  obtain ⟨c, hc, hchar⟩ := hp.exists_mem hpc
  obtain ⟨d, hd, hchar'⟩ := hq.exists_mem hqc
  obtain rfl : c = d := Option.some.inj (hchar.symm.trans hchar')
  rcases hp.cases with ⟨x, hx, hpx⟩ | hprun
  · rcases hq.cases with ⟨y, hy, hqy⟩ | hqrun
    · have hlengths : p.chars.length = 1 ∧ q.chars.length = 1 := by simp [hpx, hqy]
      simp only [Holds] at hpc hqc
      exact hp.ext hq hline (by omega) (by omega)
    · have hatom := hqrun.atoms c hd
      simp_all [isAtomChar]
  · rcases hq.cases with ⟨y, hy, hqy⟩ | hqrun
    · have hatom := hprun.atoms c hc
      simp_all [isAtomChar]
    · have hcolumn : p.column = q.column :=
        Nat.le_antisymm (column_le_of_isRun hq hqrun hprun hqc hpc)
          (column_le_of_isRun hp hprun hqrun hpc hqc)
      have hlength : p.chars.length = q.chars.length :=
        Nat.le_antisymm (length_le_of_isRun hp hqrun hprun hline.symm hcolumn.symm)
          (length_le_of_isRun hq hprun hqrun hline hcolumn)
      exact hp.ext hq hline hcolumn hlength

def Sooner (p q : Stretch) : Prop := p.line < q.line ∨ p.line = q.line ∧ p.column < q.column

instance : Std.Irrefl Sooner where
  irrefl p := by simp [Sooner]

instance : Std.Antisymm Sooner where
  antisymm p q hpq hqp := by
    simp only [Sooner] at hpq hqp
    omega

end Stretch

namespace Partition

open Stretch

variable {ls : List (List Char)} {ps qs : List Stretch}

theorem sooner (h : Partition ls ps) : ps.Pairwise Sooner := by
  refine h.ordered.imp_of_mem fun {p q} hp _ hbefore => ?_
  obtain ⟨front, rest, -, -, hwhole⟩ := h.standing p hp
  have hpos := List.length_pos_iff.mpr hwhole.ne_nil
  simp only [Before, Precedes] at hbefore
  simp only [Sooner]
  omega

theorem subset (h : Partition ls ps) (h' : Partition ls qs) : ps ⊆ qs := by
  intro p hp
  have hstands := h.standing p hp
  obtain ⟨front, rest, -, -, hwhole⟩ := hstands
  have hpos := List.length_pos_iff.mpr hwhole.ne_nil
  have hplace : p.Holds p.line p.column := ⟨rfl, Nat.le_refl _, by omega⟩
  obtain ⟨c, hc, hchar⟩ := (h.standing p hp).exists_mem hplace
  obtain ⟨q, ⟨hq, hqplace⟩, -⟩ := h'.covering _ _ c hchar (hwhole.not_isBlank c hc)
  rwa [(h.standing p hp).eq_of_holds (h'.standing q hq) hplace hqplace]

theorem unique (h : Partition ls ps) (h' : Partition ls qs) : ps = qs :=
  h.sooner.eq_of_mem_iff h'.sooner fun _ => ⟨fun hp => h.subset h' hp, fun hq => h'.subset h hq⟩

end Partition

/-! The scanner goes through a text from place to place. -/

/-- The place in a text after some lines and the front of the next one; these characters follow. -/
def Here (ls before : List (List Char)) (front cs : List Char) : Prop :=
  ∃ rest more, cs.splitOn '\n' = rest :: more ∧ ls = before ++ (front ++ rest) :: more

namespace Here

variable {ls before : List (List Char)} {front cs : List Char} {c : Char}

theorem newline (h : Here ls before front ('\n' :: cs)) : Here ls (before ++ [front]) [] cs := by
  obtain ⟨rest, more, hsplit, rfl⟩ := h
  simp only [List.splitOn_cons_eq_if_modifyHead, beq_self_eq_true, if_true, List.cons.injEq] at hsplit
  obtain ⟨rfl, rfl⟩ := hsplit
  obtain ⟨rest, more, hcs⟩ := List.exists_cons_of_ne_nil (List.splitOn_ne_nil '\n' cs)
  exact ⟨rest, more, hcs, by simp [hcs]⟩

theorem step (h : Here ls before front (c :: cs)) (hc : c ≠ '\n') :
    Here ls before (front ++ [c]) cs := by
  obtain ⟨rest, more, hsplit, rfl⟩ := h
  obtain ⟨rest', more', hcs⟩ := List.exists_cons_of_ne_nil (List.splitOn_ne_nil '\n' cs)
  simp only [List.splitOn_cons_eq_if_modifyHead, beq_iff_eq, hc, if_false, hcs,
    List.modifyHead_cons, List.cons.injEq] at hsplit
  obtain ⟨rfl, rfl⟩ := hsplit
  exact ⟨rest', more', hcs, by simp⟩

theorem steps {w : List Char} (h : Here ls before front (w ++ cs)) (hw : ∀ c ∈ w, c ≠ '\n') :
    Here ls before (front ++ w) cs := by
  induction w generalizing front with
  | nil => simpa using h
  | cons c w ih =>
    simp only [List.forall_mem_cons] at hw
    simpa using ih (h.step hw.1) hw.2

theorem getElem? (h : Here ls before front cs) :
    ∃ rest, ls[before.length]? = some (front ++ rest) ∧ (Bounded cs → Bounded rest) := by
  obtain ⟨rest, more, hsplit, rfl⟩ := h
  refine ⟨rest, by simp, fun hcs => ?_⟩
  cases cs with
  | nil =>
    obtain ⟨rfl, -⟩ : rest = [] ∧ more = [] := by simpa [eq_comm] using hsplit
    exact bounded_nil
  | cons c cs =>
    obtain ⟨next, others, hnext⟩ := List.exists_cons_of_ne_nil (List.splitOn_ne_nil '\n' cs)
    rw [List.splitOn_cons_eq_if_modifyHead, hnext] at hsplit
    by_cases hc : c = '\n'
    · simp only [hc, beq_self_eq_true, if_true, List.cons.injEq] at hsplit
      rw [← hsplit.1]
      exact bounded_nil
    · simp only [beq_iff_eq, hc, if_false, List.modifyHead_cons, List.cons.injEq] at hsplit
      rw [← hsplit.1]
      exact bounded_cons (hcs c rfl) next

theorem getElem?_newline (h : Here ls before front ('\n' :: cs)) :
    ls[before.length]? = some front := by
  obtain ⟨rest, more, -, rfl⟩ := h.newline
  simp

theorem getElem?_end (h : Here ls before front []) :
    ls[before.length]? = some front ∧ ls.length = before.length + 1 := by
  obtain ⟨rest, more, hsplit, rfl⟩ := h
  obtain ⟨rfl, rfl⟩ : rest = [] ∧ more = [] := by simpa [eq_comm] using hsplit
  simp

theorem charAt? (h : Here ls before front (c :: cs)) (hc : c ≠ '\n') :
    charAt? ls before.length front.length = some c := by
  obtain ⟨rest, hline, -⟩ := (h.step hc).getElem?
  simp [Token.charAt?, hline]

theorem stands {w : List Char} (h : Here ls before front (w ++ cs)) (hw : ∀ c ∈ w, c ≠ '\n')
    (hwhole : ∀ rest, (Bounded cs → Bounded rest) → IsWhole front w rest) :
    (⟨before.length, front.length, w⟩ : Stretch).Stands ls := by
  obtain ⟨rest, hline, hrest⟩ := (h.steps hw).getElem?
  exact ⟨front, rest, hline, rfl, hwhole rest hrest⟩

end Here

/-- The tokens of a text from a place on. -/
structure Cut (ls : List (List Char)) (line column : Nat) (ps : List Stretch) : Prop where
  standing : ∀ p ∈ ps, p.Stands ls
  ordered : ps.Pairwise Stretch.Before
  following : ∀ p ∈ ps, Precedes line column p.line p.column
  covering : ∀ line' column' c, charAt? ls line' column' = some c →
    Precedes line column line' column' → Text.isBlank c = false →
    ∃ p ∈ ps, p.Holds line' column'

namespace Cut

variable {ls : List (List Char)} {line column : Nat} {l : List Char} {ps : List Stretch}

theorem nil (hline : ls[line]? = some l) (hlast : ls.length = line + 1) :
    Cut ls line l.length [] := by
  refine ⟨by simp, .nil, by simp, fun line' column' c hc hplace _ => ?_⟩
  have hnone : charAt? ls line' column' = none := by
    rcases hplace with hlt | ⟨rfl, hle⟩
    · simp [charAt?, List.getElem?_eq_none (show ls.length ≤ line' by omega)]
    · simp [charAt?, hline, hle]
  simp [hnone] at hc

theorem newline (hline : ls[line]? = some l) (h : Cut ls (line + 1) 0 ps) :
    Cut ls line l.length ps := by
  refine ⟨h.standing, h.ordered, fun p hp => ?_, fun line' column' c hc hplace hblank => ?_⟩
  · have := h.following p hp
    simp only [Precedes] at this ⊢
    omega
  · refine h.covering line' column' c hc ?_ hblank
    rcases hplace with hlt | ⟨rfl, hle⟩
    · simp only [Precedes]
      omega
    · simp [charAt?, hline, hle] at hc

theorem blank {b : Char} (hb : charAt? ls line column = some b) (hblank : Text.isBlank b = true)
    (h : Cut ls line (column + 1) ps) : Cut ls line column ps := by
  refine ⟨h.standing, h.ordered, fun p hp => ?_, fun line' column' c hc hplace hnot => ?_⟩
  · have := h.following p hp
    simp only [Precedes] at this ⊢
    omega
  · refine h.covering line' column' c hc ?_ hnot
    rcases hplace with hlt | ⟨rfl, hle⟩
    · exact .inl hlt
    · rcases Nat.lt_or_eq_of_le hle with hlt | rfl
      · exact .inr ⟨rfl, hlt⟩
      · simp_all

theorem cons {w : List Char} (hw : (⟨line, column, w⟩ : Stretch).Stands ls)
    (h : Cut ls line (column + w.length) ps) : Cut ls line column (⟨line, column, w⟩ :: ps) := by
  refine ⟨?_, ?_, ?_, fun line' column' c hc hplace hnot => ?_⟩
  · simpa [hw] using h.standing
  · exact List.pairwise_cons.mpr ⟨h.following, h.ordered⟩
  · simp only [List.forall_mem_cons]
    refine ⟨.inr ⟨rfl, Nat.le_refl _⟩, fun p hp => ?_⟩
    have := h.following p hp
    simp only [Precedes] at this ⊢
    omega
  · by_cases hin : line' = line ∧ column' < column + w.length
    · refine ⟨_, List.mem_cons_self, hin.1.symm, ?_, hin.2⟩
      simp only [Precedes] at hplace
      show column ≤ column'
      omega
    · have hafter : Precedes line (column + w.length) line' column' := by
        simp only [Precedes] at hplace ⊢
        omega
      obtain ⟨p, hp, hholds⟩ := h.covering line' column' c hc hafter hnot
      exact ⟨p, List.mem_cons_of_mem _ hp, hholds⟩

theorem partition (h : Cut ls 0 0 ps) : Partition ls ps where
  standing := h.standing
  ordered := h.ordered
  covering line column c hc hblank := by
    obtain ⟨p, hp, hholds⟩ := h.covering line column c hc (by simp [Precedes]; omega) hblank
    refine ⟨p, ⟨hp, hholds⟩, fun q hq => ?_⟩
    exact (h.standing q hq.1).eq_of_holds (h.standing p hp) hq.2 hholds

end Cut

/-! What the scanner does at a place, and what it comes to. -/

theorem ne_newline_of_isDelimiter {c : Char} (h : isDelimiter c = true) : c ≠ '\n' := by
  rintro rfl
  exact absurd h (by decide)

theorem ne_newline_of_isAtomChar {c : Char} (h : isAtomChar c = true) : c ≠ '\n' := by
  rintro rfl
  exact absurd h (by decide)

section Scan

variable (line column : Nat)

theorem scan_newline (cs : List Char) :
    scan line column none ('\n' :: cs) = scan (line + 1) 1 none cs := by
  simp [scan, flush]

theorem scan_blank {c : Char} (hc : Text.isBlank c = true) (hne : c ≠ '\n') (cs : List Char) :
    scan line column none (c :: cs) = scan line (column + 1) none cs := by
  simp [scan, flush, hne, hc, not_isDelimiter_of_isBlank hc]

theorem scan_delimiter {c : Char} (hc : isDelimiter c = true) (cs : List Char) :
    scan line column none (c :: cs) =
      .placed [c] line column :: scan line (column + 1) none cs := by
  simp [scan, flush, ne_newline_of_isDelimiter hc, hc]

theorem scan_of_isAtomChar {c : Char} (hc : isAtomChar c = true) (begun : Option Partial)
    (cs : List Char) :
    scan line column begun (c :: cs) = scan line (column + 1) (some (extend column c begun)) cs := by
  have hne := ne_newline_of_isAtomChar hc
  simp only [isAtomChar, Bool.and_eq_true, Bool.not_eq_true'] at hc
  simp [scan, hne, hc.1, hc.2]

theorem scan_append_of_isAtomChar {w : List Char} (hw : ∀ c ∈ w, isAtomChar c = true) (p : Partial)
    (cs : List Char) :
    scan line column (some p) (w ++ cs) =
      scan line (column + w.length) (some ⟨p.column, w.reverse ++ p.chars⟩) cs := by
  induction w generalizing column p with
  | nil => rfl
  | cons c w ih =>
    simp only [List.forall_mem_cons] at hw
    rw [List.cons_append, scan_of_isAtomChar line column hw.1, ih _ hw.2]
    simp [extend, Nat.add_comm, Nat.add_left_comm]

theorem scan_of_bounded (p : Partial) {cs : List Char} (h : Bounded cs) :
    scan line column (some p) cs =
      .placed p.chars.reverse line p.column :: scan line column none cs := by
  cases cs with
  | nil => rfl
  | cons c cs =>
    have hc : isAtomChar c = false := h c rfl
    simp only [isAtomChar, Bool.and_eq_false_iff, Bool.not_eq_false'] at hc
    by_cases hne : c = '\n'
    · simp [scan, flush, hne]
    · rcases hc with hc | hc
      · simp [scan, flush, hne, hc]
      · simp [scan, flush, hne, hc, not_isDelimiter_of_isBlank hc]

theorem scan_atom {w : List Char} (hne : w ≠ []) (hw : ∀ c ∈ w, isAtomChar c = true)
    {cs : List Char} (h : Bounded cs) :
    scan line column none (w ++ cs) =
      .placed w line column :: scan line (column + w.length) none cs := by
  cases w with
  | nil => exact absurd rfl hne
  | cons c w =>
    simp only [List.forall_mem_cons] at hw
    rw [List.cons_append, scan_of_isAtomChar line column hw.1,
      scan_append_of_isAtomChar line _ hw.2, scan_of_bounded line _ _ h]
    simp [extend, Nat.add_comm, Nat.add_left_comm]

end Scan

theorem bounded_or_atom (cs : List Char) :
    Bounded cs ∨ ∃ w rest, cs = w ++ rest ∧ w ≠ [] ∧ (∀ c ∈ w, isAtomChar c = true) ∧ Bounded rest := by
  cases cs with
  | nil => exact .inl bounded_nil
  | cons c cs =>
    by_cases hc : isAtomChar c = true
    · refine .inr ⟨(c :: cs).takeWhile isAtomChar, (c :: cs).dropWhile isAtomChar,
        List.takeWhile_append_dropWhile.symm, by simp [hc], ?_, ?_⟩
      · intro d hd
        exact List.all_eq_true.mp List.all_takeWhile d hd
      · intro d hd
        have := List.head?_dropWhile_not isAtomChar (c :: cs)
        simp_all
    · exact .inl (bounded_cons (by simpa using hc) cs)

/-- From this place on, the scanner finds the tokens that follow. -/
def Scanned (ls before : List (List Char)) (front cs : List Char) : Prop :=
  ∃ ps, scan (before.length + 1) (front.length + 1) none cs = ps.map Stretch.token ∧
    Cut ls before.length front.length ps

namespace Scanned

variable {ls before : List (List Char)} {front cs : List Char} {c : Char}

theorem nil (h : Here ls before front []) : Scanned ls before front [] := by
  obtain ⟨hline, hlast⟩ := h.getElem?_end
  exact ⟨[], rfl, .nil hline hlast⟩

theorem newline (h : Here ls before front ('\n' :: cs))
    (hnext : Scanned ls (before ++ [front]) [] cs) : Scanned ls before front ('\n' :: cs) := by
  obtain ⟨ps, hscan, hcut⟩ := hnext
  simp only [List.length_append, List.length_singleton, List.length_nil] at hscan hcut
  exact ⟨ps, (scan_newline _ _ cs).trans hscan, .newline h.getElem?_newline hcut⟩

theorem blank (h : Here ls before front (c :: cs)) (hblank : Text.isBlank c = true)
    (hne : c ≠ '\n') (hnext : Scanned ls before (front ++ [c]) cs) :
    Scanned ls before front (c :: cs) := by
  obtain ⟨ps, hscan, hcut⟩ := hnext
  simp only [List.length_append, List.length_singleton] at hscan hcut
  exact ⟨ps, (scan_blank _ _ hblank hne cs).trans hscan, .blank (h.charAt? hne) hblank hcut⟩

theorem delimiter (h : Here ls before front (c :: cs)) (hc : isDelimiter c = true)
    (hnext : Scanned ls before (front ++ [c]) cs) : Scanned ls before front (c :: cs) := by
  obtain ⟨ps, hscan, hcut⟩ := hnext
  simp only [List.length_append, List.length_singleton] at hscan hcut
  have hne : ∀ d ∈ [c], d ≠ '\n' := by simpa using ne_newline_of_isDelimiter hc
  have hstands := h.stands (w := [c]) hne fun _ _ => .delimiter hc
  refine ⟨_ :: ps, ?_, .cons hstands hcut⟩
  rw [scan_delimiter _ _ hc, hscan]
  rfl

theorem atom {w : List Char} (h : Here ls before front (w ++ cs)) (hne : w ≠ [])
    (hw : ∀ c ∈ w, isAtomChar c = true) (hfront : Bounded front.reverse) (hcs : Bounded cs)
    (hnext : Scanned ls before (front ++ w) cs) : Scanned ls before front (w ++ cs) := by
  obtain ⟨ps, hscan, hcut⟩ := hnext
  simp only [List.length_append] at hscan hcut
  have hstands := h.stands (fun c hc => ne_newline_of_isAtomChar (hw c hc)) fun _ hright =>
    .run hne hw hfront (hright hcs)
  refine ⟨_ :: ps, ?_, .cons hstands hcut⟩
  rw [scan_atom _ _ hne hw hcs, List.map_cons, ← hscan, Nat.add_right_comm]
  rfl

end Scanned

/-- So it does from every place where no atom is cut. -/
theorem scanned_of_here {ls before : List (List Char)} {front cs : List Char}
    (h : Here ls before front cs) (hplace : Bounded front.reverse ∨ Bounded cs) :
    Scanned ls before front cs := by
  induction hn : cs.length using Nat.strongRecOn generalizing before front cs with
  | ind n ih =>
    rcases bounded_or_atom cs with hcs | ⟨w, rest, rfl, hne, hw, hrest⟩
    · cases cs with
      | nil => exact .nil h
      | cons c cs =>
        have hc : isAtomChar c = false := hcs c rfl
        have hshorter : cs.length < n := by simp [← hn]
        by_cases hnewline : c = '\n'
        · subst hnewline
          exact .newline h (ih cs.length hshorter h.newline (.inl bounded_nil) rfl)
        · have hfront : Bounded (front ++ [c]).reverse := by
            simpa using bounded_cons hc front.reverse
          have hnext := ih cs.length hshorter (h.step hnewline) (.inl hfront) rfl
          by_cases hdelim : isDelimiter c = true
          · exact .delimiter h hdelim hnext
          · have hblank : Text.isBlank c = true := by simpa [isAtomChar, hdelim] using hc
            exact .blank h hblank hnewline hnext
    · -- An atom begins here, so none has begun before.
      have hfront : Bounded front.reverse := by
        refine hplace.resolve_right fun hbounded => ?_
        obtain ⟨c, w, rfl⟩ := List.exists_cons_of_ne_nil hne
        have hatom := hw c List.mem_cons_self
        simp [hbounded c rfl] at hatom
      have hshorter : rest.length < n := by
        have := List.length_pos_iff.mpr hne
        simp only [List.length_append] at hn
        omega
      have hafter := h.steps fun c hc => ne_newline_of_isAtomChar (hw c hc)
      exact .atom h hne hw hfront hrest (ih rest.length hshorter hafter (.inr hrest) rfl)

/-- The tokens of a text are the only ones that partition it: in the order of the text and without
overlap, each with its characters at its line and column, either a delimiter alone or a whole run of
other characters that are not blank, so that every character that is not blank belongs to exactly
one. -/
theorem ofText_partitions (s : String) (ts : List Token) :
    ts = ofText s ↔ ∃ ps, ts = ps.map Stretch.token ∧ Partition (lines s) ps := by
  have hstart : Here (lines s) [] [] s.toList := by
    obtain ⟨rest, more, hsplit⟩ := List.exists_cons_of_ne_nil (List.splitOn_ne_nil '\n' s.toList)
    exact ⟨rest, more, hsplit, hsplit⟩
  obtain ⟨ps, hscan, hcut⟩ := scanned_of_here hstart (.inl bounded_nil)
  constructor
  · rintro rfl
    exact ⟨ps, hscan, hcut.partition⟩
  · rintro ⟨qs, rfl, hqs⟩
    rw [hqs.unique hcut.partition]
    exact hscan.symm

end PocketLisp.Token
