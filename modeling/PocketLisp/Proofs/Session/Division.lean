import Mathlib.Data.List.Infix
import PocketLisp.Proofs.Session.Chunk

/-!
How lines are divided into chunks. Each chunk is a run of lines: it starts with one that is not blank,
and it ends as soon as its parentheses balance, or with the last line. Only blank lines are left out
between the runs. There is one such division of given lines, and the chunks of a text hold its
tokens, no more and no less.
-/
namespace PocketLisp.Chunk

open Token

/-- Lines that make a chunk: the first one is not blank, and before the last one parentheses are
open. -/
structure IsRun (run : List String) : Prop where
  starts : ∃ first later, run = first :: later ∧ Text.isBlankText first = false
  early : ∀ front back, run = front ++ back → front ≠ [] → back ≠ [] →
    0 < parenBalance (String.join front)

/-- The lines of a chunk, and the lines passed over before them. -/
structure Piece where
  skipped : List String
  run : List String

namespace Piece

def lines (p : Piece) : List String := p.skipped ++ p.run

def text (p : Piece) : String := String.join p.run

end Piece

/-- Lines in pieces, and lines passed over after the last one. What is passed over is blank. Every
chunk is closed, except that the last one may be open if it goes to the end. -/
structure Division (lines : List String) (pieces : List Piece) (trailing : List String) : Prop where
  whole : lines = pieces.flatMap Piece.lines ++ trailing
  blank : ∀ line ∈ pieces.flatMap Piece.skipped ++ trailing, Text.isBlankText line = true
  runs : ∀ p ∈ pieces, IsRun p.run
  closed : ∀ before p later, pieces = before ++ p :: later →
    parenBalance p.text ≤ 0 ∨ later = [] ∧ trailing = []

namespace IsRun

variable {run : List String}

theorem single {line : String} (h : Text.isBlankText line = false) : IsRun [line] := by
  refine ⟨⟨line, [], rfl, h⟩, fun front back hsplit hfront hback => ?_⟩
  have hlength := congrArg List.length hsplit
  have := List.length_pos_iff.mpr hfront
  have := List.length_pos_iff.mpr hback
  simp only [List.length_append, List.length_singleton] at hlength
  omega

theorem snoc (h : IsRun run) (hopen : 0 < parenBalance (String.join run)) (line : String) :
    IsRun (run ++ [line]) := by
  obtain ⟨first, later, hrun, hfirst⟩ := h.starts
  refine ⟨⟨first, later ++ [line], by simp [hrun], hfirst⟩, fun front back hsplit hfront hback => ?_⟩
  obtain ⟨init, last, rfl⟩ := List.eq_nil_or_concat back |>.resolve_left hback
  rw [List.concat_eq_append, ← List.append_assoc] at hsplit
  obtain ⟨rfl, -⟩ := List.append_inj' hsplit rfl
  by_cases hinit : init = []
  · simpa [hinit] using hopen
  · exact h.early front init rfl hfront hinit

theorem join_ne_empty (h : IsRun run) {front back : List String} (hrun : run = front ++ back)
    (hfront : front ≠ []) : String.join front ≠ "" := by
  obtain ⟨first, later, hstart, hfirst⟩ := h.starts
  obtain ⟨line, lines, rfl⟩ := List.exists_cons_of_ne_nil hfront
  obtain ⟨rfl, -⟩ : line = first ∧ _ := by simpa [hrun] using hstart
  intro hempty
  rw [String.join_cons, String.append_eq_empty_iff] at hempty
  simp [hempty.1, Text.isBlankText] at hfirst

end IsRun

namespace Division

variable {lines trailing : List String} {pieces : List Piece}

theorem nil : Division [] [] [] :=
  ⟨rfl, by simp, by simp, by simp⟩

theorem skip (h : Division lines pieces trailing) {line : String}
    (hblank : Text.isBlankText line = true) :
    ∃ pieces' trailing', Division (line :: lines) pieces' trailing' := by
  cases pieces with
  | nil =>
    refine ⟨[], line :: trailing, by simpa using h.whole, ?_, by simp, by simp⟩
    simpa [hblank] using h.blank
  | cons p pieces =>
    refine ⟨⟨line :: p.skipped, p.run⟩ :: pieces, trailing, ?_, ?_, ?_, ?_⟩
    · simpa [Piece.lines] using h.whole
    · simpa [hblank] using h.blank
    · simpa using h.runs
    · intro before q later hsplit
      cases before with
      | nil =>
        obtain ⟨rfl, rfl⟩ := List.cons.inj hsplit
        exact h.closed [] p pieces rfl
      | cons r before =>
        obtain ⟨rfl, rfl⟩ := List.cons.inj hsplit
        exact h.closed (p :: before) q later rfl

theorem last {run : List String} (hrun : IsRun run) : Division run [⟨[], run⟩] [] := by
  refine ⟨by simp [Piece.lines], by simp, by simpa using hrun, fun before p later hsplit => ?_⟩
  right
  cases before <;> simp_all

theorem cons {run : List String} (hrun : IsRun run) (hclosed : parenBalance (String.join run) ≤ 0)
    (h : Division lines pieces trailing) : Division (run ++ lines) (⟨[], run⟩ :: pieces) trailing := by
  refine ⟨by simp [Piece.lines, h.whole], by simpa using h.blank, by simpa [hrun] using h.runs, ?_⟩
  intro before p later hsplit
  cases before with
  | nil =>
    obtain ⟨rfl, rfl⟩ := List.cons.inj hsplit
    exact .inl hclosed
  | cons q before =>
    obtain ⟨rfl, rfl⟩ := List.cons.inj hsplit
    exact h.closed before p later rfl

theorem blank_of_nil (h : Division lines [] trailing) :
    ∀ line ∈ lines, Text.isBlankText line = true := by
  simpa [h.whole] using h.blank

section Cons

variable {p : Piece}

theorem skipped_blank (h : Division lines (p :: pieces) trailing) :
    ∀ line ∈ p.skipped, Text.isBlankText line = true :=
  fun line hline => h.blank line (by simp [hline])

theorem whole_cons (h : Division lines (p :: pieces) trailing) :
    lines = p.skipped ++ (p.run ++ (pieces.flatMap Piece.lines ++ trailing)) := by
  simp [h.whole, Piece.lines]

theorem tail (h : Division lines (p :: pieces) trailing) :
    Division (pieces.flatMap Piece.lines ++ trailing) pieces trailing := by
  refine ⟨rfl, fun line hline => h.blank line ?_, fun q hq => h.runs q (List.mem_cons_of_mem p hq), ?_⟩
  · simp only [List.flatMap_cons, List.append_assoc]
    exact List.mem_append_right _ hline
  · rintro before q later rfl
    exact h.closed (p :: before) q later rfl

end Cons

end Division

/-- Lines can be divided, also after some that make an open run. -/
theorem exists_division_after {opened : List String}
    (h : opened = [] ∨ IsRun opened ∧ 0 < parenBalance (String.join opened)) (lines : List String) :
    ∃ pieces trailing, Division (opened ++ lines) pieces trailing := by
  induction lines generalizing opened with
  | nil =>
    rcases h with rfl | ⟨hrun, -⟩
    · exact ⟨[], [], .nil⟩
    · exact ⟨_, [], by simpa using Division.last hrun⟩
  | cons line lines ih =>
    have hclosing (hrun : IsRun (opened ++ [line])) :
        ∃ pieces trailing, Division (opened ++ line :: lines) pieces trailing := by
      by_cases hclosed : parenBalance (String.join (opened ++ [line])) ≤ 0
      · obtain ⟨pieces, trailing, hdivision⟩ := ih (.inl rfl)
        exact ⟨_, trailing, by simpa using hdivision.cons hrun hclosed⟩
      · simpa using ih (.inr ⟨hrun, Int.not_le.mp hclosed⟩)
    rcases h with rfl | ⟨hrun, hopen⟩
    · by_cases hblank : Text.isBlankText line = true
      · obtain ⟨pieces, trailing, hdivision⟩ := ih (.inl rfl)
        exact hdivision.skip hblank
      · exact hclosing (.single (Bool.eq_false_iff.mpr hblank))
    · exact hclosing (hrun.snoc hopen line)

theorem exists_division (lines : List String) : ∃ pieces trailing, Division lines pieces trailing :=
  exists_division_after (.inl rfl) lines

theorem cutFrom_skip {skipped : List String} (h : ∀ line ∈ skipped, Text.isBlankText line = true)
    (lines : List String) : cutFrom "" (skipped ++ lines) = cutFrom "" lines := by
  induction skipped with
  | nil => rfl
  | cons line skipped ih =>
    simp only [List.forall_mem_cons] at h
    simp [cutFrom, h.1, ih h.2]

/-- The lines of a run are taken together, whatever of them is pending already. -/
theorem cutFrom_run (front : List String) {back : List String} (h : IsRun (front ++ back))
    (hback : back ≠ []) (lines : List String) :
    cutFrom (String.join front) (back ++ lines) =
      if parenBalance (String.join (front ++ back)) ≤ 0 then
        String.join (front ++ back) :: cutFrom "" lines
      else cutFrom (String.join (front ++ back)) lines := by
  induction back generalizing front with
  | nil => exact absurd rfl hback
  | cons line back ih =>
    have htaken : ¬((String.join front).isEmpty && Text.isBlankText line) = true := by
      by_cases hfront : front = []
      · obtain ⟨first, later, hstart, hfirst⟩ := h.starts
        obtain ⟨rfl, -⟩ : line = first ∧ _ := by simpa [hfront] using hstart
        simp [hfirst]
      · simp [h.join_ne_empty rfl hfront]
    have hjoin : String.join front ++ line = String.join (front ++ [line]) := by
      simp [String.join_append]
    rw [List.cons_append, cutFrom, if_neg htaken, hjoin]
    by_cases hend : back = []
    · simp [hend]
    · have hopen : ¬parenBalance (String.join (front ++ [line])) ≤ 0 :=
        Int.not_le.mpr (h.early (front ++ [line]) back (by simp) (by simp) hend)
      have hrun : front ++ line :: back = front ++ [line] ++ back := by simp
      rw [if_neg hopen, hrun]
      exact ih (front ++ [line]) (hrun ▸ h) hend

theorem Division.cut_eq {lines trailing : List String} {pieces : List Piece}
    (h : Division lines pieces trailing) : cut lines = pieces.map Piece.text := by
  induction pieces generalizing lines with
  | nil => simpa [cut, cutFrom] using cutFrom_skip h.blank_of_nil []
  | cons p pieces ih =>
    have hrun : IsRun p.run := h.runs p List.mem_cons_self
    have hne : p.run ≠ [] := by
      obtain ⟨first, later, hstart, -⟩ := hrun.starts
      simp [hstart]
    have hfirst := cutFrom_run [] hrun hne (pieces.flatMap Piece.lines ++ trailing)
    rw [List.nil_append, String.join_nil, ← Piece.text] at hfirst
    rw [cut, h.whole_cons, cutFrom_skip h.skipped_blank, hfirst, List.map_cons, ← ih h.tail]
    by_cases hclosed : parenBalance p.text ≤ 0
    · rw [if_pos hclosed, cut]
    · obtain ⟨rfl, rfl⟩ := (h.closed [] p pieces rfl).resolve_left hclosed
      have htext : p.text ≠ "" := hrun.join_ne_empty (List.append_nil _).symm hne
      simp [hclosed, htext, cut, cutFrom]

/-! Cutting leaves no token out. -/

theorem words_join {lines : List String} (h : Lines lines) :
    words (String.join lines) = lines.flatMap words := by
  induction lines with
  | nil => rfl
  | cons line lines ih =>
    have hfirst := words_append_line h ""
    simpa [ih h.tail] using hfirst

theorem words_of_isBlankText {line : String} (h : Text.isBlankText line = true) :
    words line = [] := by
  have hempty : words "" = [] := rfl
  simpa [hempty] using words_blank_line h ""

theorem flatMap_words_of_isBlankText {lines : List String}
    (h : ∀ line ∈ lines, Text.isBlankText line = true) : lines.flatMap words = [] :=
  List.flatMap_eq_nil_iff.mpr fun line hline => words_of_isBlankText (h line hline)

theorem Division.words_eq {lines trailing : List String} {pieces : List Piece}
    (h : Division lines pieces trailing) (hlines : Lines lines) :
    (pieces.map Piece.text).flatMap words = lines.flatMap words := by
  induction pieces generalizing lines with
  | nil => simp [flatMap_words_of_isBlankText h.blank_of_nil]
  | cons p pieces ih =>
    have hwhole := h.whole_cons
    rw [hwhole] at hlines
    have hkept : Lines (p.run ++ (pieces.flatMap Piece.lines ++ trailing)) := hlines.right_of_append
    have htext : words p.text = p.run.flatMap words := words_join hkept.left_of_append
    have hrest := ih h.tail hkept.right_of_append
    rw [List.map_cons, List.flatMap_cons, hrest, htext, hwhole]
    simp [flatMap_words_of_isBlankText h.skipped_blank]

/-- The chunks of given lines are those of their division, and there is only one: runs of lines, one
after the other, each of which starts with a line that is not blank and ends with the first line
where no parenthesis is open, or else with the last line of all. All lines outside the runs are blank.
The tokens of the chunks of a text are the tokens of the text. -/
theorem cut_iff_division :
    (∀ lines chunks, chunks = cut lines ↔
      ∃ pieces trailing, Division lines pieces trailing ∧ chunks = pieces.map Piece.text) ∧
    ∀ s, (ofText s).flatMap words = words s := by
  refine ⟨fun lines chunks => ⟨?_, ?_⟩, fun s => ?_⟩
  · rintro rfl
    obtain ⟨pieces, trailing, hdivision⟩ := exists_division lines
    exact ⟨pieces, trailing, hdivision, hdivision.cut_eq⟩
  · rintro ⟨pieces, trailing, hdivision, rfl⟩
    exact hdivision.cut_eq.symm
  · obtain ⟨pieces, trailing, hdivision⟩ := exists_division (Text.splitLines s)
    have hlines := lines_splitLines s
    calc (ofText s).flatMap words
      _ = (pieces.map Piece.text).flatMap words := by rw [ofText, hdivision.cut_eq]
      _ = (Text.splitLines s).flatMap words := hdivision.words_eq hlines
      _ = words (String.join (Text.splitLines s)) := (words_join hlines).symm
      _ = words s := by rw [join_splitLines]

end PocketLisp.Chunk
