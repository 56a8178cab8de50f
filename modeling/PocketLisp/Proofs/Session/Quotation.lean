import PocketLisp.Proofs.Session.Sequence

/-!
Quoted data on its way through a session: printed, put behind a quotation mark or into a quotation,
cut into chunks with other lines, read, evaluated and printed again. It comes out as it went in,
whatever is bound in the session, and leaves no trace in it.
-/
namespace PocketLisp

namespace Text

def Unbroken (cs : List Char) : Prop := ∀ c ∈ cs, isLineBreak c = false

theorem unbroken_of_all {cs : List Char} (h : (cs.all fun c => !isLineBreak c) = true) :
    Unbroken cs := by
  simpa [Unbroken] using h

theorem splitLineChars_cons {c : Char} (hc : isLineBreak c = false) (cs : List Char) :
    splitLineChars (c :: cs) = consLine c (splitLineChars cs) := by
  have hne : c ≠ '\r' := by
    rintro rfl
    exact absurd hc (by decide)
  rw [splitLineChars.eq_def]
  split
  · rename_i heq
    cases heq
  · rename_i heq
    exact absurd (List.cons.inj heq).1 hne
  · rename_i heq
    cases heq
    rw [if_neg (by simp [hc])]

theorem splitLineChars_unbroken {cs : List Char} (h : Unbroken cs) (hne : cs ≠ []) :
    splitLineChars cs = [cs] := by
  induction cs with
  | nil => exact absurd rfl hne
  | cons c cs ih =>
    rw [splitLineChars_cons (h c List.mem_cons_self)]
    by_cases hcs : cs = []
    · rw [hcs]
      rfl
    · rw [ih (fun d hd => h d (List.mem_cons_of_mem c hd)) hcs]
      rfl

theorem splitLineChars_newline {cs : List Char} (h : Unbroken cs) (rest : List Char) :
    splitLineChars (cs ++ '\n' :: rest) = (cs ++ ['\n']) :: splitLineChars rest := by
  induction cs with
  | nil =>
    rw [List.nil_append, splitLineChars.eq_def]
    rfl
  | cons c cs ih =>
    rw [List.cons_append, splitLineChars_cons (h c List.mem_cons_self),
      ih fun d hd => h d (List.mem_cons_of_mem c hd)]
    rfl

/-- A text that is made of lines, with a newline after each of them, or after each but the last. -/
inductive InLines : List String → String → Prop
  | nil : InLines [] ""
  | last (line : String) : InLines [line] line
  | cons (line : String) {lines : List String} {text : String} (h : InLines lines text) :
      InLines (line :: lines) (line ++ "\n" ++ text)

/-- What is so of lines is so of the lines that the text is cut into, if a newline at the end makes
no difference to it. -/
theorem InLines.splitLines {α : Type} {R : String → α → Prop}
    (hR : ∀ line a, R line a → R (line ++ "\n") a) {lines : List String} {text : String}
    (h : InLines lines text) (hlines : ∀ line ∈ lines, line ≠ "" ∧ Unbroken line.toList)
    {as : List α} (has : List.Forall₂ R lines as) : List.Forall₂ R (splitLines text) as := by
  induction h generalizing as with
  | nil => exact has
  | last line =>
    obtain ⟨hne, hline⟩ := hlines line List.mem_cons_self
    rwa [Text.splitLines, splitLineChars_unbroken hline (by simpa using hne), List.map_singleton,
      String.ofList_toList]
  | @cons line lines text _ ih =>
    have hline := (hlines line List.mem_cons_self).2
    have hchars : (line ++ "\n" ++ text).toList = line.toList ++ '\n' :: text.toList := by simp
    have hpiece : String.ofList (line.toList ++ ['\n']) = line ++ "\n" := by
      apply String.toList_injective
      simp
    rw [Text.splitLines, hchars, splitLineChars_newline hline, List.map_cons, hpiece]
    cases has with
    | cons ha has =>
      exact .cons (hR _ _ ha) (ih (fun l hl => hlines l (List.mem_cons_of_mem line hl)) has)

theorem unbroken_of_isAtomChar {cs : List Char} (h : ∀ c ∈ cs, Token.isAtomChar c = true) :
    Unbroken cs := by
  intro c hc
  have hatom : Token.isDelimiter c = false ∧ isBlank c = false := by
    simpa [Token.isAtomChar] using h c hc
  rw [Bool.eq_false_iff]
  intro hbreak
  rw [isBlank_of_isLineBreak hbreak] at hatom
  cases hatom.2

theorem Unbroken.append {cs ds : List Char} (hcs : Unbroken cs) (hds : Unbroken ds) :
    Unbroken (cs ++ ds) := by
  intro c hc
  rcases List.mem_append.mp hc with hc | hc
  · exact hcs c hc
  · exact hds c hc

theorem unbroken_intercalate {parts : List String} (h : ∀ part ∈ parts, Unbroken part.toList) :
    Unbroken (" ".intercalate parts).toList := by
  have hspace : Unbroken " ".toList := unbroken_of_all (by decide)
  induction parts with
  | nil => exact unbroken_of_all (by decide)
  | cons part parts ih =>
    have hpart := h part List.mem_cons_self
    cases parts with
    | nil => rwa [String.intercalate_singleton]
    | cons next parts =>
      rw [String.intercalate_cons_cons, String.toList_append, String.toList_append]
      exact (hpart.append hspace).append (ih fun p hp => h p (List.mem_cons_of_mem part hp))

end Text

namespace Value

theorem mem_of_writeList {st : Style} {vs : List Value} {parts : List String}
    (h : writeList st vs = .ok parts) : ∀ part ∈ parts, ∃ v ∈ vs, v.write st = .ok part := by
  induction vs generalizing parts with
  | nil =>
    cases h
    simp
  | cons v vs ih =>
    rw [writeList] at h
    cases hv : v.write st with
    | error x =>
      rw [hv] at h
      cases h
    | ok text =>
      cases hvs : writeList st vs with
      | error x =>
        rw [hv, hvs] at h
        cases h
      | ok texts =>
        rw [hv, hvs] at h
        cases h
        intro part hpart
        rcases List.mem_cons.mp hpart with rfl | hpart
        · exact ⟨v, List.mem_cons_self, hv⟩
        · obtain ⟨w, hw, hwrite⟩ := ih hvs part hpart
          exact ⟨w, List.mem_cons_of_mem v hw, hwrite⟩

theorem Readable.unbroken {v : Value} (h : v.Readable) {text : String}
    (hwrite : v.write .printed = .ok text) : Text.Unbroken text.toList := by
  induction h generalizing text with
  | @int n hdigits =>
    obtain ⟨m, hm, -⟩ := Numeral.value_intChars hdigits
    rw [write, Number.print, intText, if_pos hdigits] at hwrite
    cases hwrite
    rw [String.toList_ofList]
    exact Text.unbroken_of_isAtomChar (Numeral.isAtomChar_of_ofChars? hm)
  | @float x hfinite =>
    obtain ⟨m, hm, -⟩ := Numeral.value_toText hfinite
    cases hwrite
    exact Text.unbroken_of_isAtomChar (Numeral.isAtomChar_of_ofChars? hm)
  | @sym name _ hchars _ =>
    cases hwrite
    exact Text.unbroken_of_isAtomChar fun c hc => by simp [Token.isAtomChar, hchars c hc]
  | @list items _ ih =>
    rw [write] at hwrite
    cases hparts : writeList .printed items with
    | error x =>
      rw [hparts] at hwrite
      cases hwrite
    | ok parts =>
      rw [hparts] at hwrite
      cases hwrite
      have hinner : Text.Unbroken (" ".intercalate parts).toList := by
        apply Text.unbroken_intercalate
        intro part hpart
        obtain ⟨v, hv, hwrite⟩ := mem_of_writeList hparts part hpart
        exact ih v hv hwrite
      have hopen : Text.Unbroken "(".toList := Text.unbroken_of_all (by decide)
      have hclose : Text.Unbroken ")".toList := Text.unbroken_of_all (by decide)
      rw [Style.list, String.toList_append, String.toList_append]
      exact (hopen.append hinner).append hclose

end Value

namespace Reader

open Token

/-- A line that quotes what another text spells: the text behind a quotation mark, or in a
quotation. -/
inductive Quotes (text : String) : String → Prop
  | mark : Quotes text ("'" ++ text)
  | form : Quotes text ("(quote " ++ text ++ ")")

namespace Quotes

variable {text line : String} {v : Value}

theorem spells (h : Quotes text line) (hv : Spells text v) : Spells line v.quote := by
  cases h with
  | mark =>
    obtain ⟨ws, hws, hlex⟩ := hv
    refine ⟨"'" :: ws, .quote hws, fun rest hrest => ?_⟩
    have hchars : ("'" ++ text).toList ++ rest = '\x27' :: (text.toList ++ rest) := by simp
    rw [hchars, lexemes_delimiter (by decide), hlex rest hrest]
    rfl
  | form =>
    have hname : Spells "quote" (.sym "quote") := spells_name (by decide +kernel)
    have hitems := spellsAll_cons hname (spellsAll_cons hv spellsAll_nil rfl) rfl
    have htext : Style.printed.list ["quote", text] = "(quote " ++ text ++ ")" := by
      apply String.toList_injective
      simp [Style.list, Style.printed]
    exact htext ▸ spells_list hitems

theorem unbroken (h : Quotes text line) (htext : Text.Unbroken text.toList) :
    Text.Unbroken line.toList := by
  cases h with
  | mark =>
    have hmark : Text.Unbroken "'".toList := Text.unbroken_of_all (by decide)
    rw [String.toList_append]
    exact hmark.append htext
  | form =>
    have hopen : Text.Unbroken "(quote ".toList := Text.unbroken_of_all (by decide)
    have hclose : Text.Unbroken ")".toList := Text.unbroken_of_all (by decide)
    rw [String.toList_append, String.toList_append]
    exact (hopen.append htext).append hclose

theorem ne_empty (h : Quotes text line) : line ≠ "" := by
  cases h <;> simp

end Quotes

end Reader

namespace Chunk

open Token Reader

theorem parseAll_ended {room : Nat} {line : String} {es : List Value}
    (h : parseAll room line = .ok es) : parseAll room (line ++ "\n") = .ok es := by
  have hempty : parseAll room "" = .ok [] := parseAll_ok_iff_words.mpr ⟨.nil, Nat.zero_le room⟩
  have hended := parseAll_newline h hempty
  rwa [String.append_empty, List.append_nil] at hended

/-- Lines that can be read one by one, with something on each, are chunks. -/
theorem cut_of_parseAll {room : Nat} {lines : List String}
    (h : ∀ line ∈ lines, ∃ e es, parseAll room line = .ok (e :: es)) : cut lines = lines := by
  induction lines with
  | nil => rfl
  | cons line lines ih =>
    obtain ⟨e, es, hline⟩ := h line List.mem_cons_self
    have hderives := (parseAll_ok_iff_words.mp hline).1
    have hrest : cutFrom "" lines = lines := ih fun l hl => h l (List.mem_cons_of_mem line hl)
    have hblank : ¬("".isEmpty && Text.isBlankText line) = true := by
      intro hblank
      rw [Bool.and_eq_true] at hblank
      have hwords := words_blank_line hblank.2 ""
      rw [String.append_empty] at hwords
      rw [hwords] at hderives
      cases hderives.unique .nil
    have hclosed : parenBalance ("" ++ line) ≤ 0 := by
      rw [String.empty_append, parenBalance_eq]
      exact Int.le_of_eq (settled_of_derivesAll hderives).balanced
    rw [cut, cutFrom, if_neg hblank, if_pos hclosed, String.empty_append, hrest]

end Chunk

namespace Session

open Reader

theorem run_quote {s : Session} (h : 0 < s.host.frames) (v : Value) :
    run v.quote s = (.ok v, s) := by
  obtain ⟨room, hroom⟩ := Nat.exists_eq_add_of_lt h
  have hruns : Runs s.conditions (room + 1) 0 (.expr v.quote) s.state (.ok v, s.state) :=
    .form (r := .ok v) rfl (.quote (SpecialForm.ofName?_name .quote) rfl)
  have houtcome : outcome v.quote s = (.ok v, s.state) := by
    rw [outcome_eq, hroom, Nat.zero_add]
    exact hruns.evaluate_eq
  rw [run_eq, houtcome]
  rfl

theorem runAll_quotes {s : Session} {vs : List Value} (h : ∀ v ∈ vs, v.nesting < s.host.frames) :
    runAll (vs.map Value.quote) s = (.ok vs, s) := by
  induction vs with
  | nil => rfl
  | cons v vs ih =>
    have hframes : 0 < s.host.frames := Nat.zero_lt_of_lt (h v List.mem_cons_self)
    exact runAll_cons_of (run_quote hframes v) (ih fun w hw => h w (List.mem_cons_of_mem v hw))

theorem parseAll_quotes {text line : String} {v : Value} (h : Quotes text line) (hv : Spells text v)
    {room : Nat} (hroom : v.nesting < room) : parseAll room line = .ok [v.quote] := by
  have hderives := DerivesAll.single (derives_of_spells (h.spells hv))
  refine Chunk.parseAll_ok_iff_words.mpr ⟨hderives, ?_⟩
  simp only [Value.quote, Value.nestingList, Value.nesting]
  omega

/-- Readable values have texts, and lines that quote these are read as quotations of the values. -/
theorem exists_texts {room : Nat} {vs : List Value}
    (h : ∀ v ∈ vs, v.Readable ∧ v.nesting < room) :
    ∃ texts, List.Forall₂ (fun v text => v.render = .ok text) vs texts ∧
      Printed room vs texts ∧
      ∀ lines, List.Forall₂ Quotes texts lines →
        (∀ line ∈ lines, line ≠ "" ∧ Text.Unbroken line.toList) ∧
        List.Forall₂ (fun line part => parseAll room line = .ok part) lines
          (vs.map fun v => [v.quote]) := by
  induction vs with
  | nil =>
    refine ⟨[], .nil, .nil, fun lines hlines => ?_⟩
    cases hlines
    exact ⟨by simp, .nil⟩
  | cons v vs ih =>
    obtain ⟨texts, hrender, hprinted, hquotes⟩ := ih fun w hw => h w (List.mem_cons_of_mem v hw)
    obtain ⟨hv, hroom⟩ := h v List.mem_cons_self
    obtain ⟨text, hwrite, hspells⟩ := write_spells hv
    have hfirst : v.render = .ok text := by
      cases hv <;> exact hwrite
    have hfirst' : v.renderWithin room = .ok text := by
      rw [Value.renderWithin_of_nesting_le (Nat.le_of_lt hroom), hfirst]
    refine ⟨text :: texts, .cons hfirst hrender, .cons hfirst' hprinted, fun lines hlines => ?_⟩
    cases hlines with
    | cons hline hlines =>
      obtain ⟨hsound, hread⟩ := hquotes _ hlines
      refine ⟨?_, .cons (parseAll_quotes hline hspells hroom) hread⟩
      rw [List.forall_mem_cons]
      exact ⟨⟨hline.ne_empty, hline.unbroken (hv.unbroken hwrite)⟩, hsound⟩

/-- Quoted data comes back as it is. For all readable values, in every session, a text of lines that
quote their printed forms, behind quotation marks or in quotations, is run without a fault: it writes
the printed forms, one on a line, and nothing as an error, and all that is bound stays as it was. -/
theorem runText_quotes (s : Session) (vs : List Value)
    (h : ∀ v ∈ vs, v.Readable ∧ v.nesting < s.host.frames) :
    ∃ texts, List.Forall₂ (fun v text => v.render = .ok text) vs texts ∧
      ∀ lines code, List.Forall₂ Quotes texts lines → Text.InLines lines code →
        ∃ left, runText code s = (.ok 0, left) ∧ left.interpreter = s.interpreter ∧
          left.host.journal.outText = s.host.journal.outText ++ listing "" texts ∧
          left.host.journal.errText = s.host.journal.errText := by
  obtain ⟨texts, hrender, hprinted, hquotes⟩ := exists_texts h
  refine ⟨texts, hrender, fun lines code hlines hcode => ?_⟩
  obtain ⟨hsound, hread⟩ := hquotes lines hlines
  have hpieces := hcode.splitLines (fun _ _ => Chunk.parseAll_ended) hsound hread
  have hchunks : Chunk.ofText code = Text.splitLines code := by
    have hboth := (List.forall₂_map_right_iff.mp hpieces).imp fun line v hline =>
      And.intro (show ∃ e es, parseAll s.host.frames line = .ok (e :: es) from ⟨_, _, hline⟩) hline
    exact Chunk.cut_of_parseAll ((List.forall₂_and_left _ _).mp hboth).1
  have hvalues : runAll (vs.map fun v => [v.quote]).flatten s = (.ok vs, s) := by
    have hquotes : (vs.map fun v => [v.quote]).flatten = vs.map Value.quote := by
      rw [← List.flatMap_def, List.map_eq_flatMap]
    rw [hquotes, runAll_quotes fun v hv => (h v hv).2]
  rw [runText, hchunks]
  obtain ⟨left, hleft, halike, hwritten⟩ := Alike.runChunks hpieces (.refl s) rfl hvalues hprinted
  exact ⟨left, hleft, halike.interpreter, congrArg Prod.fst hwritten, congrArg Prod.snd hwritten⟩

/-- A session in which the name of the quotation is a variable. -/
def reboundQuote : Session := (evaluateAll "(setq quote 7)" (opened none (.initial [] .quiet))).2

theorem runText_quotes_reboundQuote :
    ∃ left, runText "'(f -12)\n(quote quote)" reboundQuote = (.ok 0, left) ∧
      left.interpreter = reboundQuote.interpreter ∧
      left.host.journal.outText = "(f -12)\nquote\n" ∧ left.host.journal.errText = "" := by
  let call : Value := .list [.sym "f", .int (-12)]
  have hname : (Value.sym "quote").Readable := readable_of_isName (by decide +kernel)
  have hf : (Value.sym "f").Readable := readable_of_isName (by decide +kernel)
  have hn : (Value.int (-12)).Readable := .int (by decide +kernel)
  have hcall : call.Readable := .list (by simp [hf, hn])
  have hframes : call.nesting < reboundQuote.host.frames ∧
      (Value.sym "quote").nesting < reboundQuote.host.frames := by decide +kernel
  obtain ⟨texts, hrender, hruns⟩ := runText_quotes reboundQuote [call, .sym "quote"] (by
    simpa using ⟨⟨hcall, hframes.1⟩, hname, hframes.2⟩)
  have hcallText : call.render.toOption = some "(f -12)" := by decide +kernel
  obtain ⟨text, texts', hfirst, hrest, rfl⟩ := List.forall₂_cons_left_iff.mp hrender
  obtain ⟨text', texts'', hsecond, hnone, rfl⟩ := List.forall₂_cons_left_iff.mp hrest
  cases hnone
  cases hsecond
  rw [hfirst] at hcallText
  obtain rfl : text = "(f -12)" := Option.some.inj hcallText
  obtain ⟨left, hleft, hkept, hout, herr⟩ := hruns _ _ (.cons .mark (.cons .form .nil))
    (.cons _ (.last _))
  exact ⟨left, hleft, hkept, hout.trans (by decide +kernel), herr.trans (by decide +kernel)⟩

end Session

end PocketLisp
