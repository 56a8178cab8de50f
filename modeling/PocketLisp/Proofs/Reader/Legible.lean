import Mathlib.Data.List.Induction
import PocketLisp.Proofs.Reader.Acceptance
import PocketLisp.Proofs.Reader.RoundTrip

/-!
What reading can produce: the values of texts. Every part of such a value is one as well, the
symbols among them are names, and all of them can be printed, as long as there are host frames.
-/
namespace PocketLisp

/-- The names that reading can produce: not empty, without blanks and delimiters, and no numerals. -/
structure IsName (x : String) : Prop where
  nonempty : x ≠ ""
  chars : ∀ c ∈ x.toList, Token.isDelimiter c = false ∧ Text.isBlank c = false
  notNumeral : Numeral.ofText? x = none

theorem isName_iff {x : String} :
    IsName x ↔ x ≠ "" ∧ x.toList.all Token.isAtomChar = true ∧ Numeral.ofText? x = none := by
  have hchars : x.toList.all Token.isAtomChar = true ↔
      ∀ c ∈ x.toList, Token.isDelimiter c = false ∧ Text.isBlank c = false := by
    simp [Token.isAtomChar]
  rw [hchars]
  exact ⟨fun h => ⟨h.nonempty, h.chars, h.notNumeral⟩, fun h => ⟨h.1, h.2.1, h.2.2⟩⟩

instance (x : String) : Decidable (IsName x) := decidable_of_iff' _ isName_iff

namespace Binary64

theorem round_ne_nan (negative : Bool) (num den : Nat) :
    round negative num den ≠ .nan := by
  unfold round
  dsimp only
  split <;> exact fun he => nomatch he

theorem ofDecimal_ne_nan (negative : Bool) (d : Decimal) :
    ofDecimal negative d ≠ .nan := by
  unfold ofDecimal
  split
  · exact fun he => nomatch he
  · split
    · exact fun he => nomatch he
    · split
      · exact fun he => nomatch he
      · split <;> exact round_ne_nan _ _ _

end Binary64

namespace Numeral

theorem digitsValue_lt {ds : List Char} (h : ∀ c ∈ ds, c.isDigit = true) :
    digitsValue ds < Nat.pow 10 ds.length := by
  induction ds using List.reverseRecOn with
  | nil => exact Nat.one_pos
  | append_singleton ds c ih =>
    have hds := ih fun d hd => h d (List.mem_append_left _ hd)
    have hc : c.toNat ≤ 57 := (toNat_of_isDigit (h c (by simp))).2
    have hzero : '0'.toNat = 48 := rfl
    have hstep := digitsValue_concat ds c
    have hpow : Nat.pow 10 (ds ++ [c]).length = Nat.pow 10 ds.length * 10 := by
      rw [List.length_append]
      rfl
    omega

theorem isDigit_of_integer {cs : List Char} {negative : Bool} {ds : List Char}
    (h : ofChars? cs = some (.integer negative ds)) : ∀ c ∈ ds, c.isDigit = true := by
  unfold ofChars? at h
  dsimp only at h
  split at h
  · split at h
    · cases h
    · cases h
      exact fun c hc => List.all_eq_true.mp List.all_takeWhile c hc
  · split at h
    · cases h
    · simp at h
  · split at h
    · cases h
    · simp at h

/-- The value of a numeral can be printed: as many digits can be written as can be read. -/
theorem print_value {w : String} {numeral : Numeral} {n : Number}
    (hw : ofText? w = some numeral) (hn : numeral.value = .ok n) : ∃ text, n.print = .ok text := by
  cases numeral with
  | decimal negative whole fraction exponent =>
    cases hn
    exact ⟨_, rfl⟩
  | integer negative ds =>
    rw [value] at hn
    split at hn
    · rename_i hlength
      cases hn
      have habs : (Binary64.signed negative (digitsValue ds)).natAbs = digitsValue ds := by
        cases negative <;> simp [Binary64.signed]
      have hmono : ∀ k l, k ≤ l → Nat.pow 10 k ≤ Nat.pow 10 l :=
        fun _ _ hkl => Nat.pow_le_pow_right (by decide) hkl
      have hlimit := Nat.lt_of_lt_of_le (digitsValue_lt (isDigit_of_integer hw)) (hmono _ _ hlength)
      refine ⟨String.ofList (intChars (Binary64.signed negative (digitsValue ds))), ?_⟩
      rw [Number.print, intText, habs, if_pos hlimit]
    · cases hn

end Numeral

namespace Token

/-- The texts of tokens: a delimiter, or a run of characters of an atom. -/
inductive IsLexeme : String → Prop
  | delimiter {c : Char} (h : isDelimiter c = true) : IsLexeme (String.ofList [c])
  | atom {w : String} (nonempty : w.toList ≠ []) (chars : ∀ c ∈ w.toList, isAtomChar c = true) :
      IsLexeme w

theorem isLexeme_of_mem_closeRun {begun : List Char} {rest : List String} {w : String}
    (hbegun : ∀ c ∈ begun, isAtomChar c = true) (h : w ∈ closeRun begun rest) :
    IsLexeme w ∨ w ∈ rest := by
  cases begun with
  | nil => exact .inr h
  | cons c cs =>
    rcases List.mem_cons.mp h with rfl | hrest
    · refine .inl (.atom (by simp) fun d hd => hbegun d ?_)
      rwa [String.toList_ofList, List.mem_reverse] at hd
    · exact .inr hrest

theorem isLexeme_of_mem_lexemes {begun cs : List Char} {w : String}
    (hbegun : ∀ c ∈ begun, isAtomChar c = true) (h : w ∈ lexemes begun cs) : IsLexeme w := by
  have hnone : ∀ c ∈ ([] : List Char), isAtomChar c = true := by simp
  induction cs generalizing begun with
  | nil => exact (isLexeme_of_mem_closeRun hbegun h).resolve_right (by simp)
  | cons c cs ih =>
    by_cases hdelim : isDelimiter c = true
    · rw [lexemes, if_pos hdelim] at h
      rcases isLexeme_of_mem_closeRun hbegun h with hw | hw
      · exact hw
      · rcases List.mem_cons.mp hw with rfl | hw
        · exact .delimiter hdelim
        · exact ih hnone hw
    by_cases hblank : Text.isBlank c = true
    · rw [lexemes, if_neg hdelim, if_pos hblank] at h
      exact (isLexeme_of_mem_closeRun hbegun h).elim id (ih hnone)
    · rw [lexemes, if_neg hdelim, if_neg hblank] at h
      have hc : isAtomChar c = true := by simp [isAtomChar, hdelim, hblank]
      exact ih (by simpa [hc] using hbegun) h

theorem isLexeme_of_mem_ofText {s w : String} (h : w ∈ (ofText s).map text) : IsLexeme w := by
  rw [map_text_ofText] at h
  exact isLexeme_of_mem_lexemes (by simp) h

def spaced : List String → List Char
  | [] => []
  | w :: ws => w.toList ++ ' ' :: spaced ws

theorem lexemes_spaced {ws : List String} (h : ∀ w ∈ ws, IsLexeme w) :
    lexemes [] (spaced ws) = ws := by
  induction ws with
  | nil => rfl
  | cons w ws ih =>
    have hws := ih fun u hu => h u (List.mem_cons_of_mem w hu)
    rw [spaced]
    cases h w List.mem_cons_self with
    | delimiter hc =>
      rw [String.toList_ofList, List.singleton_append, lexemes_delimiter hc, lexemes_space, hws]
    | atom hne hchars =>
      have hspace : Bounded (' ' :: spaced ws) := bounded_cons (by decide) _
      rw [lexemes_atom hne hchars hspace, lexemes_space, hws, String.ofList_toList]

end Token

namespace Reader

open Token

theorem DerivesAll.exists_of_mem {ws : List String} {vs : List Value} (h : DerivesAll ws vs)
    {v : Value} (hv : v ∈ vs) : ∃ us, (∀ w ∈ us, w ∈ ws) ∧ Derives us v := by
  induction vs generalizing ws with
  | nil => simp at hv
  | cons x vs ih =>
    cases h with
    | @cons us rest _ _ first others =>
      rcases List.mem_cons.mp hv with rfl | hv
      · exact ⟨us, fun w hw => List.mem_append_left rest hw, first⟩
      · obtain ⟨us', hsub, hus'⟩ := ih others hv
        exact ⟨us', fun w hw => List.mem_append_right us (hsub w hw), hus'⟩

/-- A value that reading can produce. -/
def Legible (v : Value) : Prop := ∃ room s, parse room s = .ok (some v)

theorem legible_iff {v : Value} :
    Legible v ↔ ∃ ws, (∀ w ∈ ws, IsLexeme w) ∧ Derives ws v := by
  constructor
  · rintro ⟨room, s, h⟩
    exact ⟨_, fun w hw => isLexeme_of_mem_ofText hw, (parse_ok_iff.mp h).1⟩
  · rintro ⟨ws, hws, hv⟩
    have htexts : (ofText (String.ofList (spaced ws))).map text = ws := by
      rw [map_text_ofText, String.toList_ofList, lexemes_spaced hws]
    refine ⟨v.nesting, String.ofList (spaced ws), ?_⟩
    rw [parse_ok_iff, htexts]
    exact ⟨hv, Nat.le_refl _⟩

theorem legible_of_spells {s : String} {v : Value} (h : Spells s v) : Legible v :=
  ⟨v.nesting, s, parse_of_spells h (Nat.le_refl _)⟩

theorem legible_of_mem_parseAll {room : Nat} {s : String} {es : List Value}
    (h : parseAll room s = .ok es) {e : Value} (he : e ∈ es) : Legible e := by
  obtain ⟨us, hsub, hus⟩ := (parseAll_ok_iff.mp h).1.exists_of_mem he
  exact legible_iff.mpr ⟨us, fun w hw => isLexeme_of_mem_ofText (hsub w hw), hus⟩

theorem atomValue_cases {w : String} {v : Value} (h : atomValue w = .ok v) :
    (∃ n numeral, v = .num n ∧ Numeral.ofText? w = some numeral ∧ numeral.value = .ok n) ∨
      (v = .sym w ∧ Numeral.ofText? w = none) := by
  unfold atomValue at h
  cases hw : Numeral.ofText? w with
  | none =>
    rw [hw] at h
    cases h
    exact .inr ⟨rfl, rfl⟩
  | some numeral =>
    rw [hw] at h
    cases hvalue : numeral.value with
    | error x => simp [hvalue, Except.map] at h
    | ok n =>
      simp only [hvalue, Except.map, Except.ok.injEq] at h
      exact .inl ⟨n, numeral, h.symm, rfl, hvalue⟩

theorem readable_of_isName {x : String} (h : IsName x) : (Value.sym x).Readable :=
  .sym h.nonempty h.chars (by simp only [atomValue, h.notNumeral])

theorem spells_name {x : String} (h : IsName x) : Spells x (.sym x) := by
  have hvalue : atomValue x = .ok (.sym x) := by simp only [atomValue, h.notNumeral]
  exact spells_atom (by simpa using h.nonempty) (fun c hc => by simp [isAtomChar, h.chars c hc]) hvalue

theorem isMark_of_isDelimiter {c : Char} (h : isDelimiter c = true) :
    isMark (String.ofList [c]) = true := by
  simp only [isDelimiter, Bool.or_eq_true, beq_iff_eq] at h
  rcases h with (rfl | rfl) | rfl <;> decide

theorem legible_sym_iff {x : String} : Legible (.sym x) ↔ IsName x := by
  rw [legible_iff]
  constructor
  · rintro ⟨ws, hws, h⟩
    cases h with
    | @atom w _ mark value =>
      rcases atomValue_cases value with ⟨n, _, hn, -⟩ | ⟨hw, hnone⟩
      · cases hn
      obtain rfl : x = w := Value.sym.inj hw
      cases hws x (by simp) with
      | @delimiter c hc =>
        rw [isMark_of_isDelimiter hc] at mark
        cases mark
      | atom hne hchars =>
        refine ⟨by simpa using hne, fun c hc => ?_, hnone⟩
        simpa [isAtomChar] using hchars c hc
  · intro h
    exact legible_iff.mp (legible_of_spells (spells_name h))

theorem Legible.item {items : List Value} (h : Legible (.list items)) {v : Value}
    (hv : v ∈ items) : Legible v := by
  obtain ⟨ws, hws, hderives⟩ := legible_iff.mp h
  cases hderives with
  | @atom w _ _ value =>
    rcases atomValue_cases value with ⟨n, _, hn, -⟩ | ⟨hw, -⟩
    · cases hn
    · cases hw
  | @list us _ items =>
    obtain ⟨us', hsub, hus'⟩ := items.exists_of_mem hv
    refine legible_iff.mpr ⟨us', fun w hw => hws w ?_, hus'⟩
    simp [hsub w hw]
  | @quote us x quoted =>
    rcases List.mem_cons.mp hv with rfl | hv
    · exact legible_sym_iff.mpr (by decide +kernel)
    · obtain rfl := List.mem_singleton.mp hv
      exact legible_iff.mpr ⟨us, fun w hw => hws w (List.mem_cons_of_mem _ hw), quoted⟩

theorem not_legible_foreign {x : Foreign} : ¬Legible (.foreign x) := by
  intro h
  obtain ⟨ws, -, hderives⟩ := legible_iff.mp h
  cases hderives with
  | atom _ value =>
    rcases atomValue_cases value with ⟨n, _, hn, -⟩ | ⟨hw, -⟩
    · cases hn
    · cases hw

/-- Numerals denote numbers, infinities among them, but nothing that is not a number. -/
theorem not_legible_nan : ¬Legible (.float .nan) := by
  intro h
  obtain ⟨ws, -, hderives⟩ := legible_iff.mp h
  cases hderives with
  | atom _ value =>
    rcases atomValue_cases value with ⟨n, numeral, hn, -, hvalue⟩ | ⟨hw, -⟩
    · obtain rfl := Value.num.inj hn
      cases numeral with
      | integer negative ds =>
        rw [Numeral.value] at hvalue
        split at hvalue <;> cases hvalue
      | decimal negative whole fraction exponent =>
        rw [Numeral.value] at hvalue
        exact Binary64.ofDecimal_ne_nan _ _ (Number.float.inj (Except.ok.inj hvalue))
    · cases hw

theorem print_of_legible {n : Number} (h : Legible (.num n)) : ∃ text, n.print = .ok text := by
  obtain ⟨ws, -, hderives⟩ := legible_iff.mp h
  cases hderives with
  | atom _ value =>
    rcases atomValue_cases value with ⟨m, numeral, hm, hread, hvalue⟩ | ⟨hw, -⟩
    · obtain rfl := Value.num.inj hm
      exact Numeral.print_value hread hvalue
    · cases hw

mutual

theorem isProper_of_legible {v : Value} (h : Legible v) : v.isProper = true := by
  match v with
  | .num _ => rfl
  | .sym _ => rfl
  | .list _ => exact isProperList_of_legible fun _ hv => h.item hv
  | .foreign _ => exact absurd h not_legible_foreign

theorem isProperList_of_legible {vs : List Value} (h : ∀ v ∈ vs, Legible v) :
    Value.isProperList vs = true := by
  match vs with
  | [] => rfl
  | v :: vs =>
    have hv := isProper_of_legible (h v List.mem_cons_self)
    have hvs := isProperList_of_legible fun u hu => h u (List.mem_cons_of_mem v hu)
    simp [Value.isProperList, hv, hvs]

end

mutual

theorem write_of_legible {v : Value} (h : Legible v) : ∃ text, v.write .printed = .ok text := by
  match v with
  | .num n => exact print_of_legible h
  | .sym name => exact ⟨name, rfl⟩
  | .list items =>
    obtain ⟨texts, htexts⟩ := writeList_of_legible fun _ hv => h.item hv
    exact ⟨_, congrArg (Except.map Style.printed.list) htexts⟩
  | .foreign _ => exact absurd h not_legible_foreign

theorem writeList_of_legible {vs : List Value} (h : ∀ v ∈ vs, Legible v) :
    ∃ texts, Value.writeList .printed vs = .ok texts := by
  match vs with
  | [] => exact ⟨[], rfl⟩
  | v :: vs =>
    obtain ⟨text, htext⟩ := write_of_legible (h v List.mem_cons_self)
    obtain ⟨texts, htexts⟩ := writeList_of_legible fun u hu => h u (List.mem_cons_of_mem v hu)
    refine ⟨text :: texts, ?_⟩
    rw [Value.writeList, htext, htexts]
    rfl

end

mutual

theorem writeWithin_exhausted {v : Value} (h : Legible v) {room : Nat} (hroom : room < v.nesting) :
    v.writeWithin .printed room = .error .exhausted := by
  match v, room with
  | .num _, _ | .sym _, _ | .foreign _, _ => simp [Value.nesting] at hroom
  | .list _, 0 => rfl
  | .list items, room + 1 =>
    have hitems : room < Value.nestingList items := by simpa [Value.nesting] using hroom
    rw [Value.writeWithin, writeListWithin_exhausted (fun _ hv => h.item hv) hitems]
    rfl

theorem writeListWithin_exhausted {vs : List Value} (h : ∀ v ∈ vs, Legible v) {room : Nat}
    (hroom : room < Value.nestingList vs) :
    Value.writeListWithin .printed room vs = .error .exhausted := by
  match vs with
  | [] => simp [Value.nestingList] at hroom
  | v :: vs =>
    have hv := h v List.mem_cons_self
    rw [Value.writeListWithin]
    by_cases hfirst : room < v.nesting
    · rw [writeWithin_exhausted hv hfirst]
      rfl
    · obtain ⟨text, htext⟩ := write_of_legible hv
      have hrest : room < Value.nestingList vs := by
        rw [Value.nestingList] at hroom
        omega
      rw [Value.writeWithin_of_nesting_le .printed (Nat.le_of_not_lt hfirst), htext,
        writeListWithin_exhausted (fun u hu => h u (List.mem_cons_of_mem v hu)) hrest]
      rfl

end

end Reader

end PocketLisp
