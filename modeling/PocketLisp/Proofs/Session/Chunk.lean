import Mathlib.Data.List.Chain
import Mathlib.Data.List.Forall2
import PocketLisp.Proofs.Reader.Diagnosis
import PocketLisp.Proofs.Reader.Lexeme
import PocketLisp.Session.Chunk

/-!
Chunks against the grammar. Cutting loses no token, because lines end where tokens do. A chunk ends
where as many parentheses are closed as opened; in a text that can be read this is the end of an
expression, unless a quotation mark stands there.
-/
namespace PocketLisp

namespace Token

theorem closeRun_append (begun : List Char) (ws us : List String) :
    closeRun begun (ws ++ us) = closeRun begun ws ++ us := by
  cases begun <;> rfl

/-- Nothing goes on over a blank. -/
theorem lexemes_append_blank {c : Char} (hc : Text.isBlank c = true) (begun cs ds : List Char) :
    lexemes begun (cs ++ c :: ds) = lexemes begun cs ++ lexemes [] ds := by
  induction cs generalizing begun with
  | nil =>
    have hd := not_isDelimiter_of_isBlank hc
    simp [lexemes, hd, hc, ← closeRun_append]
  | cons d cs ih =>
    rw [List.cons_append, lexemes, lexemes]
    split
    · rw [ih, ← List.cons_append, closeRun_append]
    · split
      · rw [ih, closeRun_append]
      · exact ih _

theorem lexemes_of_isBlank {cs : List Char} (h : ∀ c ∈ cs, Text.isBlank c = true) (ds : List Char) :
    lexemes [] (cs ++ ds) = lexemes [] ds := by
  induction cs with
  | nil => rfl
  | cons c cs ih =>
    have hrest := ih fun d hd => h d (List.mem_cons_of_mem c hd)
    rw [List.cons_append, ← hrest]
    exact lexemes_append_blank (h c List.mem_cons_self) [] [] (cs ++ ds)

def words (s : String) : List String := (ofText s).map text

theorem words_eq (s : String) : words s = lexemes [] s.toList := map_text_ofText s

end Token

namespace Text

def EndsBlank (cs : List Char) : Prop := ∃ front c, cs = front ++ [c] ∧ isBlank c = true

theorem EndsBlank.cons {cs : List Char} (h : EndsBlank cs) (c : Char) : EndsBlank (c :: cs) := by
  obtain ⟨front, d, rfl, hd⟩ := h
  exact ⟨c :: front, d, rfl, hd⟩

theorem isChain_splitLineChars (cs : List Char) :
    List.IsChain (fun l _ => EndsBlank l) (splitLineChars cs) := by
  fun_induction splitLineChars cs with
  | case1 => exact .nil
  | case2 cs ih =>
    have hline : EndsBlank ['\r', '\n'] := ⟨['\r'], '\n', rfl, isBlank_newline⟩
    cases hs : splitLineChars cs with
    | nil => exact .singleton _
    | cons l ls => exact .cons_cons hline (hs ▸ ih)
  | case3 c cs _ hc ih =>
    have hline : EndsBlank [c] := ⟨[], c, rfl, isBlank_of_isLineBreak hc⟩
    cases hs : splitLineChars cs with
    | nil => exact .singleton _
    | cons l ls => exact .cons_cons hline (hs ▸ ih)
  | case4 c cs _ _ ih =>
    cases hs : splitLineChars cs with
    | nil => exact .singleton _
    | cons l ls =>
      rw [hs] at ih
      cases ih with
      | singleton => exact .singleton _
      | cons_cons hl hls => exact .cons_cons (hl.cons c) hls

end Text

namespace Reader

/-- Expressions can be cut wherever nothing is open and nothing waits. -/
theorem DerivesAll.split {ws us : List String} {vs : List Value} (h : DerivesAll (ws ++ us) vs)
    (hws : balance ws ≤ 0) (hlast : ws.getLast? ≠ some "'") :
    ∃ xs ys, DerivesAll ws xs ∧ DerivesAll us ys ∧ vs = xs ++ ys := by
  obtain ⟨hsettled, hvalues⟩ := derivesAll_iff.mp ⟨vs, h⟩
  have hshelter : Sheltered ws := hsettled.sheltered.of_append
  have hzero : balance ws = 0 := Int.le_antisymm hws hshelter.nonneg
  obtain ⟨xs, hxs⟩ := derivesAll_iff.mpr
    ⟨⟨hshelter, hzero, hlast⟩, fun w hw => hvalues w (List.mem_append_left us hw)⟩
  have hbalance : balance us = 0 := by
    have hwhole := hsettled.balanced
    rw [balance_append, hzero] at hwhole
    omega
  have hend : us.getLast? ≠ some "'" := by
    by_cases hne : us = []
    · simp [hne]
    · rw [← List.getLast?_append_of_ne_nil ws hne]
      exact hsettled.last
  obtain ⟨ys, hys⟩ := derivesAll_iff.mpr
    ⟨⟨hsettled.sheltered.of_balanced_append hzero, hbalance, hend⟩,
      fun w hw => hvalues w (List.mem_append_right ws hw)⟩
  exact ⟨xs, ys, hxs, hys, h.unique (hxs.append hys)⟩

end Reader

namespace Chunk

open Token Reader

/-- The last token of a chunk is a quotation mark, whose expression is cut off. -/
def Dangling (chunk : String) : Prop := ∃ t, (Token.ofText chunk).getLast? = some t ∧ t.text = "'"

theorem dangling_iff {chunk : String} : Dangling chunk ↔ (words chunk).getLast? = some "'" := by
  simp [Dangling, words, List.getLast?_map, Option.map_eq_some_iff]

/-- Every line but the last one ends with a blank. -/
def Lines (lines : List String) : Prop := List.IsChain (fun l _ => Text.EndsBlank l.toList) lines

theorem lines_splitLines (s : String) : Lines (Text.splitLines s) := by
  rw [Lines, Text.splitLines, List.isChain_map]
  simpa using Text.isChain_splitLineChars s.toList

theorem join_splitLines (s : String) : String.join (Text.splitLines s) = s := by
  apply String.toList_injective
  rw [String.toList_join, Text.splitLines, List.flatMap_map]
  simpa [List.flatMap_def] using Text.flatten_splitLineChars s.toList

/-- Cutting after a line loses no token. -/
theorem words_append_line {line : String} {lines : List String} (h : Lines (line :: lines))
    (pending : String) :
    words (pending ++ String.join (line :: lines)) =
      words (pending ++ line) ++ words (String.join lines) := by
  rw [String.join_cons, ← String.append_assoc, words_eq, words_eq, words_eq, String.toList_append]
  cases h with
  | singleton => simp [String.join, lexemes, closeRun]
  | cons_cons hline _ =>
    obtain ⟨front, c, hfront, hc⟩ := hline
    rw [String.toList_append, hfront, ← List.append_assoc, List.append_assoc _ [c],
      List.singleton_append, lexemes_append_blank hc, lexemes_append_blank hc]
    simp [lexemes, closeRun]

theorem words_blank_line {line : String} (h : Text.isBlankText line = true) (rest : String) :
    words (line ++ rest) = words rest := by
  rw [words_eq, words_eq, String.toList_append]
  exact lexemes_of_isBlank (by simpa [Text.isBlankText] using h) rest.toList

theorem parseAll_ok_iff_words {room : Nat} {s : String} {es : List Value} :
    parseAll room s = .ok es ↔ DerivesAll (words s) es ∧ Value.nestingList es ≤ room :=
  parseAll_ok_iff

/-- Every chunk can be read, and what they hold, put together, are the given expressions. -/
def ReadAs (room : Nat) (chunks : List String) (es : List Value) : Prop :=
  ∃ parts, List.Forall₂ (fun chunk part => parseAll room chunk = .ok part) chunks parts ∧
    parts.flatten = es

theorem ReadAs.cons {room : Nat} {chunk : String} {chunks : List String} {part es : List Value}
    (h : parseAll room chunk = .ok part) (hrest : ReadAs room chunks es) :
    ReadAs room (chunk :: chunks) (part ++ es) := by
  obtain ⟨parts, hparts, rfl⟩ := hrest
  exact ⟨part :: parts, .cons h hparts, rfl⟩

theorem readAs_cutFrom {room : Nat} {lines : List String} (hlines : Lines lines) (pending : String)
    {es : List Value} (h : parseAll room (pending ++ String.join lines) = .ok es)
    (hmarks : ∀ chunk ∈ cutFrom pending lines, ¬Dangling chunk) :
    ReadAs room (cutFrom pending lines) es := by
  induction lines generalizing pending es with
  | nil =>
    rw [String.join_nil, String.append_empty] at h
    by_cases hempty : pending.isEmpty
    · rw [String.isEmpty_iff.mp hempty, parseAll_ok_iff_words] at h
      have hnone : es = [] := h.1.unique .nil
      rw [cutFrom, if_pos hempty]
      exact ⟨[], .nil, hnone.symm⟩
    · rw [cutFrom, if_neg hempty]
      exact ⟨[es], .cons h .nil, by simp⟩
  | cons line lines ih =>
    have hrest : Lines lines := hlines.tail
    by_cases hskip : (pending.isEmpty && Text.isBlankText line) = true
    · rw [cutFrom, if_pos hskip] at hmarks ⊢
      rw [Bool.and_eq_true, String.isEmpty_iff] at hskip
      refine ih hrest "" ?_ hmarks
      rw [parseAll_ok_iff_words, String.empty_append]
      rwa [parseAll_ok_iff_words, hskip.1, String.empty_append, String.join_cons,
        words_blank_line hskip.2] at h
    · rw [cutFrom, if_neg hskip] at hmarks ⊢
      by_cases hclosed : parenBalance (pending ++ line) ≤ 0
      · rw [if_pos hclosed] at hmarks ⊢
        obtain ⟨hderives, hroom⟩ := parseAll_ok_iff_words.mp h
        rw [words_append_line hlines] at hderives
        have hlast : (words (pending ++ line)).getLast? ≠ some "'" :=
          fun hmark => hmarks _ List.mem_cons_self (dangling_iff.mpr hmark)
        rw [parenBalance_eq] at hclosed
        obtain ⟨xs, ys, hxs, hys, rfl⟩ := hderives.split hclosed hlast
        rw [Value.nestingList_append, Nat.max_le] at hroom
        refine .cons (parseAll_ok_iff.mpr ⟨hxs, hroom.1⟩) (ih hrest "" ?_ ?_)
        · rw [String.empty_append]
          exact parseAll_ok_iff.mpr ⟨hys, hroom.2⟩
        · exact fun chunk hchunk => hmarks chunk (List.mem_cons_of_mem _ hchunk)
      · rw [if_neg hclosed] at hmarks ⊢
        rw [String.join_cons, ← String.append_assoc] at h
        exact ih hrest (pending ++ line) h hmarks

theorem not_dangling_of_parseAll {room : Nat} {chunk : String} {es : List Value}
    (h : parseAll room chunk = .ok es) : ¬Dangling chunk := by
  rw [dangling_iff]
  exact (settled_of_derivesAll (parseAll_ok_iff.mp h).1).last

/-- The chunks of a text that can be read hold what the text holds, exactly if none dangles. -/
theorem readAs_ofText_iff {room : Nat} {s : String} {es : List Value}
    (h : parseAll room s = .ok es) :
    ReadAs room (ofText s) es ↔ ∀ chunk ∈ ofText s, ¬Dangling chunk := by
  constructor
  · rintro ⟨parts, hread, -⟩
    have hboth := hread.imp fun _ _ hpart => And.intro (not_dangling_of_parseAll hpart) hpart
    exact ((List.forall₂_and_left _ _).mp hboth).1
  · intro hmarks
    refine readAs_cutFrom (lines_splitLines s) "" ?_ hmarks
    rwa [String.empty_append, join_splitLines]

end Chunk

end PocketLisp
