import PocketLisp.Proofs.Number.Numeral
import PocketLisp.Proofs.Reader.Grammar
import PocketLisp.Proofs.Reader.Lexeme

/-!
Reading undoes printing. The printed form of a value is made of tokens that derive the value, also
when other text follows that cannot go on with the last of them; so reading it gives the value back.
-/
namespace PocketLisp

/-- Values whose printed form can be read: integers within the limit of digits, finite
floating-point numbers, symbols whose name is one token and no numeral, and lists of such values. -/
inductive Value.Readable : Value → Prop
  | int {n : Int} (digits : n.natAbs < Nat.pow 10 digitLimit) : Readable (.int n)
  | float {x : Binary64} (finite : x.isFinite = true) : Readable (.float x)
  | sym {name : String} (nonempty : name ≠ "")
    (chars : ∀ c ∈ name.toList, Token.isDelimiter c = false ∧ Text.isBlank c = false)
    (symbol : atomValue name = .ok (.sym name)) : Readable (.sym name)
  | list {items : List Value} (all : ∀ v ∈ items, Readable v) : Readable (.list items)

namespace Reader

open Token Value

/-- A text spells a value if its tokens derive the value, whatever text follows that cannot go on
with the last of them. -/
def Spells (s : String) (v : Value) : Prop :=
  ∃ ws, Derives ws v ∧
    ∀ rest, Bounded rest → lexemes [] (s.toList ++ rest) = ws ++ lexemes [] rest

/-- The same for texts with a space between one and the next, and a list of values. -/
def SpellsAll (parts : List String) (vs : List Value) : Prop :=
  ∃ ws, DerivesAll ws vs ∧
    ∀ rest, Bounded rest →
      lexemes [] ((" ".intercalate parts).toList ++ rest) = ws ++ lexemes [] rest

theorem isMark_of_isAtomChar {w : String} (h : ∀ c ∈ w.toList, isAtomChar c = true) :
    isMark w = false := by
  have hne : ∀ c, isAtomChar c = false → w ≠ String.ofList [c] := by
    rintro c hc rfl
    exact Bool.false_ne_true (hc ▸ h c (by simp))
  have hopen : w ≠ "(" := hne '(' (by decide)
  have hclose : w ≠ ")" := hne ')' (by decide)
  have hquote : w ≠ "'" := hne '\x27' (by decide)
  simp [isMark, hopen, hclose, hquote]

theorem spells_atom {s : String} {v : Value} (hne : s.toList ≠ [])
    (hs : ∀ c ∈ s.toList, isAtomChar c = true) (hv : atomValue s = .ok v) : Spells s v := by
  refine ⟨[s], .atom (isMark_of_isAtomChar hs) hv, ?_⟩
  intro rest hrest
  rw [lexemes_atom hne hs hrest, String.ofList_toList]
  rfl

theorem spells_numeral {s : String} {n : Numeral} {x : Number} (hn : Numeral.ofText? s = some n)
    (hx : n.value = .ok x) : Spells s (.num x) := by
  have hv : atomValue s = .ok (.num x) := by
    simp only [atomValue, hn, hx]
    rfl
  exact spells_atom (Numeral.ne_nil_of_ofChars? hn) (Numeral.isAtomChar_of_ofChars? hn) hv

theorem spellsAll_nil : SpellsAll [] [] := ⟨[], .nil, fun _ _ => rfl⟩

theorem spellsAll_cons {s : String} {parts : List String} {v : Value} {vs : List Value}
    (hs : Spells s v) (hparts : SpellsAll parts vs) (hlen : parts.length = vs.length) :
    SpellsAll (s :: parts) (v :: vs) := by
  obtain ⟨ws, hws, hlex⟩ := hs
  obtain ⟨us, hus, hlexs⟩ := hparts
  refine ⟨ws ++ us, .cons hws hus, ?_⟩
  intro rest hrest
  cases parts with
  | nil =>
    -- a single part has no space after it, and no tokens follow
    have hvs : vs = [] := List.length_eq_zero_iff.mp hlen.symm
    subst hvs
    cases hus
    rw [String.intercalate_singleton, hlex rest hrest, List.append_nil]
  | cons p parts =>
    have hspace : Bounded (' ' :: ((" ".intercalate (p :: parts)).toList ++ rest)) :=
      bounded_cons (by decide) _
    have htext : (" ".intercalate (s :: p :: parts)).toList ++ rest =
        s.toList ++ ' ' :: ((" ".intercalate (p :: parts)).toList ++ rest) := by
      simp [String.intercalate_cons_cons]
    rw [htext, hlex _ hspace, lexemes_space, hlexs rest hrest, List.append_assoc]

theorem spells_list {parts : List String} {vs : List Value} (h : SpellsAll parts vs) :
    Spells (Style.printed.list parts) (.list vs) := by
  obtain ⟨ws, hws, hlex⟩ := h
  refine ⟨"(" :: (ws ++ [")"]), .list hws, ?_⟩
  intro rest hrest
  have htext : (Style.printed.list parts).toList ++ rest =
      '(' :: ((" ".intercalate parts).toList ++ ')' :: rest) := by
    simp [Style.list, Style.printed]
  rw [htext, lexemes_delimiter (by decide), hlex _ (bounded_cons (by decide) rest),
    lexemes_delimiter (by decide)]
  simp

theorem writeList_spells {vs : List Value}
    (h : ∀ v ∈ vs, ∃ s, v.write .printed = .ok s ∧ Spells s v) :
    ∃ parts, writeList .printed vs = .ok parts ∧ parts.length = vs.length ∧ SpellsAll parts vs := by
  induction vs with
  | nil => exact ⟨[], rfl, rfl, spellsAll_nil⟩
  | cons v vs ih =>
    obtain ⟨s, hs, hspell⟩ := h v (by simp)
    obtain ⟨parts, hparts, hlen, hspells⟩ := ih fun w hw => h w (List.mem_cons_of_mem v hw)
    refine ⟨s :: parts, ?_, by simp [hlen], spellsAll_cons hspell hspells hlen⟩
    rw [writeList, hs, hparts]
    rfl

/-- A readable value has a printed form, and that spells the value. -/
theorem write_spells {v : Value} (h : v.Readable) :
    ∃ s, v.write .printed = .ok s ∧ Spells s v := by
  induction h with
  | @int n hdigits =>
    obtain ⟨m, hm, hvalue⟩ := Numeral.value_intChars hdigits
    have hm' : Numeral.ofText? (String.ofList (intChars n)) = some m := by
      rw [Numeral.ofText?, String.toList_ofList, hm]
    have hwrite : (Value.int n).write .printed = .ok (String.ofList (intChars n)) := by
      rw [write, Number.print, intText, if_pos hdigits]
    exact ⟨String.ofList (intChars n), hwrite, spells_numeral hm' hvalue⟩
  | @float x hfinite =>
    obtain ⟨m, hm, hvalue⟩ := Numeral.value_toText hfinite
    exact ⟨x.toText, rfl, spells_numeral hm hvalue⟩
  | @sym name hne hchars hsym =>
    have hatom : ∀ c ∈ name.toList, isAtomChar c = true := fun c hc => by
      simp [isAtomChar, hchars c hc]
    exact ⟨name, rfl, spells_atom (by simpa using hne) hatom hsym⟩
  | @list items _ ih =>
    obtain ⟨parts, hparts, -, hspells⟩ := writeList_spells ih
    exact ⟨Style.printed.list parts, by rw [write, hparts]; rfl, spells_list hspells⟩

theorem derives_of_spells {s : String} {v : Value} (h : Spells s v) :
    Derives ((Token.ofText s).map Token.text) v := by
  obtain ⟨ws, hws, hlex⟩ := h
  have hwords := hlex [] bounded_nil
  rw [List.append_nil, lexemes, closeRun, List.append_nil] at hwords
  rw [map_text_ofText, hwords]
  exact hws

theorem parse_of_spells {s : String} {v : Value} (h : Spells s v) {room : Nat}
    (hroom : v.nesting ≤ room) : parse room s = .ok (some v) :=
  parse_of_derives (derives_of_spells h) hroom

/-- Every readable value is printed, and what is printed reads back as exactly that value, as long
as there is a host frame for each level of lists. -/
theorem parse_render {v : Value} (h : v.Readable) :
    ∃ s, v.render = .ok s ∧
      ∀ room, v.nesting ≤ room → v.renderWithin room = .ok s ∧ parse room s = .ok (some v) := by
  obtain ⟨s, hs, hspells⟩ := write_spells h
  have hrender : v.render = .ok s := by
    cases h <;> exact hs
  refine ⟨s, hrender, fun room hroom => ⟨?_, parse_of_spells hspells hroom⟩⟩
  rw [renderWithin_of_nesting_le hroom, hrender]

/-- A call with a negative integer, the negative zero and an empty list among its operands. -/
def negativeCall : Value := .list [.sym "f", .int (-12), .list [.float (.zero true), .list []]]

theorem parse_render_negativeCall :
    ∃ s, negativeCall.render = .ok s ∧ ∀ room, negativeCall.nesting ≤ room →
      negativeCall.renderWithin room = .ok s ∧ parse room s = .ok (some negativeCall) := by
  have hchars : ∀ c ∈ "f".toList, Token.isDelimiter c = false ∧ Text.isBlank c = false := by
    intro c hc
    have hlist : "f".toList = ['f'] := rfl
    rw [hlist, List.mem_singleton] at hc
    subst hc
    decide
  have hname : Numeral.ofText? "f" = none := by decide +kernel
  have hf : (Value.sym "f").Readable := .sym (by decide) hchars (by simp only [atomValue, hname])
  have hn : (Value.int (-12)).Readable := .int (by decide +kernel)
  have hz : (Value.float (.zero true)).Readable := .float rfl
  have hnil : (Value.list []).Readable := .list (by simp)
  have hinner : (Value.list [.float (.zero true), .list []]).Readable := .list (by simp [hz, hnil])
  exact parse_render (.list (by simp [hf, hn, hinner]))

end Reader

end PocketLisp
