import PocketLisp.Proofs.Reader.Balance

/-!
Every failure of the reader is found by counting parentheses from left to right: a closing one that
closes nothing, a quotation mark at the end, or the last opening one that is not closed, in this
order. Texts in which none of these is found are read.
-/
namespace PocketLisp.Reader

/-- What a failure of reading says about the tokens. -/
inductive Diagnosis (room : Nat) (ts : List Token) : Failure → Prop
  | stray {us rest : List Token} {t : Token} (hts : ts = us ++ t :: rest) (ht : t.text = ")")
    (hus : Sheltered (us.map Token.text)) (h : ClosesNothing (us.map Token.text)) :
    Diagnosis room ts (faultAt .unexpectedClose t)
  | dangling {t : Token} (h : Sheltered (ts.map Token.text)) (hlast : ts.getLast? = some t)
    (ht : t.text = "'") : Diagnosis room ts (faultAt .quoteWithoutExpression t)
  | missing {us rest : List Token} {t : Token} (hts : ts = us ++ t :: rest) (ht : t.text = "(")
    (h : Sheltered (ts.map Token.text)) (hrest : Settled (rest.map Token.text)) :
    Diagnosis room ts (faultAt .missingClose t)
  | exhausted (h : room < ts.length) : Diagnosis room ts (.escape .exhausted)
  | unreadable {t : Token} {x : Escape} (ht : t ∈ ts) (hx : atomValue t.text = .error x) :
    Diagnosis room ts (.escape x)

theorem Outcome.diagnosis {room : Nat} {ts rest : List Token} {e : Failure} (hts : ts ≠ [])
    (h : Outcome room [] ts (.error e, rest)) : Diagnosis room ts e := by
  cases h with
  | stray hts ht hopened hopens =>
    exact .stray hts ht hopened.sheltered (hopened.closesNothing hopens)
  | ended hopened =>
    have hshelter := hopened.sheltered
    rw [List.nil_append] at hopened hshelter
    cases hopened with
    | nil => exact absurd rfl hts
    | list _ hstart hitems =>
      exact .missing rfl hstart hshelter (settled_of_derivesAll hitems)
    | quote _ hmark => exact .dangling hshelter List.getLast?_concat hmark
  | exhausted hts hopened hroom =>
    have hlength := hopened.length_le_tokens
    refine .exhausted ?_
    simp only [hts, List.nil_append, List.length_append, List.length_cons] at hlength ⊢
    omega
  | unreadable hts hx => exact .unreadable (by simp [hts]) hx

theorem Diagnosis.after {room : Nat} {us ts : List Token} {e : Failure}
    (hus : Settled (us.map Token.text)) (h : Diagnosis room ts e) : Diagnosis room (us ++ ts) e := by
  have sheltered {xs : List Token} (hxs : Sheltered (xs.map Token.text)) :
      Sheltered ((us ++ xs).map Token.text) := by
    rw [List.map_append]
    exact hus.sheltered.append hxs
  cases h with
  | stray hts ht hbefore h =>
    refine .stray (by rw [hts, List.append_assoc]) ht (sheltered hbefore) ?_
    rw [List.map_append]
    exact hus.closesNothing_append h
  | dangling h hlast ht =>
    refine .dangling (sheltered h) ?_ ht
    rw [List.getLast?_append, hlast]
    rfl
  | missing hts ht h hrest =>
    exact .missing (by rw [hts, List.append_assoc]) ht (sheltered h) hrest
  | exhausted h => exact .exhausted (by rw [List.length_append]; omega)
  | unreadable ht hx => exact .unreadable (List.mem_append_right us ht) hx

theorem readAll_cases (room : Nat) (ts : List Token) :
    (∃ vs, readAll room ts = (.ok vs, [])) ∨
    ∃ e rest, readAll room ts = (.error e, rest) ∧ Diagnosis room ts e := by
  induction hn : ts.length using Nat.strongRecOn generalizing ts with
  | ind n ih =>
    by_cases hts : ts = []
    · exact .inl ⟨[], by rw [hts, readAll]⟩
    have houtcome : Outcome room [] ts (readExpr room ts) := outcome_read .nil ts
    rcases hread : readExpr room ts with ⟨e | v, rest⟩
    · rw [hread] at houtcome
      exact .inr ⟨e, rest, readAll_of_error hts hread, houtcome.diagnosis hts⟩
    obtain ⟨us, rfl, hv, -⟩ := readExpr_ok_iff.mp hread
    have hshorter : rest.length < n := by
      have hus : us ≠ [] := fun hnil => hv.ne_nil (by rw [hnil]; rfl)
      have hpos := List.length_pos_iff.mpr hus
      rw [List.length_append] at hn
      omega
    rw [readAll_of_ok hts hread]
    rcases ih rest.length hshorter rest rfl with ⟨vs, hvs⟩ | ⟨e, left, hall, he⟩
    · exact .inl ⟨v :: vs, by rw [hvs]; rfl⟩
    · exact .inr ⟨e, left, by rw [hall]; rfl, he.after (settled_of_derives hv)⟩

def HasValue (w : String) : Prop := ∃ v, atomValue w = .ok v

/-- Only an integer with too many digits has no value. -/
theorem hasValue_iff {w : String} :
    HasValue w ↔ ∀ negative ds, Numeral.ofText? w = some (.integer negative ds) →
      ds.length ≤ digitLimit := by
  unfold HasValue atomValue
  cases hw : Numeral.ofText? w with
  | none => simp
  | some n =>
    cases n with
    | integer negative ds =>
      by_cases hds : ds.length ≤ digitLimit
      · simp [Numeral.value, hds, Except.map]
      · simp [Numeral.value, hds, Except.map]
    | decimal negative whole fraction exponent => simp [Numeral.value, Except.map]

theorem overlong_of_atomValue {w : String} {x : Escape} (h : atomValue w = .error x) :
    ∃ negative ds, Numeral.ofText? w = some (.integer negative ds) ∧ digitLimit < ds.length ∧
      x = .readLimit ds.length := by
  unfold atomValue at h
  split at h
  · rename_i n hw
    cases n with
    | integer negative ds =>
      by_cases hds : ds.length ≤ digitLimit
      · simp [Numeral.value, hds, Except.map] at h
      · exact ⟨negative, ds, hw, Nat.lt_of_not_le hds,
          by simpa [Numeral.value, hds, Except.map] using h.symm⟩
    | decimal negative whole fraction exponent => simp [Numeral.value, Except.map] at h
  · cases h

theorem readLimit_of_atomValue {w : String} {x : Escape} (h : atomValue w = .error x) :
    ∃ digits, x = .readLimit digits := by
  obtain ⟨-, ds, -, -, hx⟩ := overlong_of_atomValue h
  exact ⟨ds.length, hx⟩

theorem hasValue_of_ofText? {w : String} (h : Numeral.ofText? w = none) : HasValue w :=
  hasValue_iff.mpr (by simp [h])

theorem hasValue_open : HasValue "(" := hasValue_of_ofText? (by decide +kernel)

theorem hasValue_close : HasValue ")" := hasValue_of_ofText? (by decide +kernel)

theorem hasValue_mark : HasValue "'" := hasValue_of_ofText? (by decide +kernel)

mutual

theorem hasValue_of_derives {ws : List String} {v : Value} (h : Derives ws v) :
    ∀ w ∈ ws, HasValue w := by
  match h with
  | .atom _ hv => simpa using ⟨_, hv⟩
  | .list items =>
    have hitems := hasValue_of_derivesAll items
    simpa [or_imp, forall_and] using ⟨hasValue_open, hitems, hasValue_close⟩
  | .quote quoted =>
    have hquoted := hasValue_of_derives quoted
    simpa [or_imp, forall_and] using ⟨hasValue_mark, hquoted⟩

theorem hasValue_of_derivesAll {ws : List String} {vs : List Value} (h : DerivesAll ws vs) :
    ∀ w ∈ ws, HasValue w := by
  match h with
  | .nil => simp
  | .cons first others =>
    have hfirst := hasValue_of_derives first
    have hothers := hasValue_of_derivesAll others
    simpa [or_imp, forall_and] using ⟨hfirst, hothers⟩

end

namespace Diagnosis

variable {room : Nat} {ts : List Token}

theorem balance_pos_of_missing {us rest : List Token} {t : Token} (hts : ts = us ++ t :: rest)
    (ht : t.text = "(") (h : Sheltered (ts.map Token.text)) (hrest : Settled (rest.map Token.text)) :
    0 < balance (ts.map Token.text) := by
  rw [hts, List.map_append] at h ⊢
  have hus := h.of_append.nonneg
  rw [List.map_cons, ht, balance_append, balance_cons, balance_open, hrest.balanced]
  omega

theorem escape_of_settled {e : Failure} (h : Diagnosis room ts e)
    (hts : Settled (ts.map Token.text)) : ∃ x, e = .escape x := by
  cases h with
  | @stray us rest t hsplit ht _ hnothing =>
    have htexts : ts.map Token.text = us.map Token.text ++ ")" :: rest.map Token.text := by
      rw [hsplit, List.map_append, List.map_cons, ht]
    exact absurd hnothing (hts.sheltered.not_closesNothing htexts)
  | dangling _ hlast ht =>
    exact absurd (by rw [List.getLast?_map, hlast, ← ht]; rfl) hts.last
  | missing hsplit ht h hrest =>
    have hpos := balance_pos_of_missing hsplit ht h hrest
    rw [hts.balanced] at hpos
    exact absurd hpos (Int.lt_irrefl 0)
  | exhausted => exact ⟨_, rfl⟩
  | unreadable => exact ⟨_, rfl⟩

end Diagnosis

/-- Texts are expressions, one after the other, exactly if they are settled and have values. -/
theorem derivesAll_iff {ws : List String} :
    (∃ vs, DerivesAll ws vs) ↔ Settled ws ∧ ∀ w ∈ ws, HasValue w := by
  constructor
  · rintro ⟨vs, h⟩
    exact ⟨settled_of_derivesAll h, hasValue_of_derivesAll h⟩
  · rintro ⟨hsettled, hvalues⟩
    have htexts := map_text_bare ws
    -- Read the texts as tokens, with a host frame for each of them.
    rcases readAll_cases ws.length (bare ws) with ⟨vs, hread⟩ | ⟨e, rest, -, hfails⟩
    · exact ⟨vs, htexts ▸ (readAll_ok_iff.mp hread).2.1⟩
    obtain ⟨x, rfl⟩ := hfails.escape_of_settled (htexts.symm ▸ hsettled)
    cases hfails with
    | exhausted h => simp [bare] at h
    | @unreadable t _ ht hx =>
      obtain ⟨v, hv⟩ := hvalues t.text (htexts ▸ List.mem_map_of_mem ht)
      rw [hx] at hv
      cases hv

/-- At this place stands a closing parenthesis that closes nothing. -/
def StrayAt (ts : List Token) (i : Nat) : Prop :=
  ∃ t, ts[i]? = some t ∧ t.text = ")" ∧ ClosesNothing ((ts.take i).map Token.text)

/-- At this place stands an opening parenthesis that is not closed: from it on, up to any place, no
more are closed than opened. -/
def UnclosedAt (ts : List Token) (j : Nat) : Prop :=
  ∃ t, ts[j]? = some t ∧ t.text = "(" ∧
    ∀ k, 0 ≤ balance (((ts.drop (j + 1)).take k).map Token.text)

/-- The outcome is a fault of syntax with this text, at the place of a token. -/
def SyntaxFault {α : Type} (r : Except Failure α) (text : String) (t : Token) : Prop :=
  ∃ f, r = .error (.fault f) ∧ f.kind = .malformed ∧ f.text = text ∧ f.line = t.line ∧
    f.column = t.column

section Places

variable {ts us rest : List Token} {t : Token} {i j : Nat}

theorem split_at (h : ts[i]? = some t) : ts = ts.take i ++ t :: ts.drop (i + 1) := by
  obtain ⟨hi, rfl⟩ := List.getElem?_eq_some_iff.mp h
  rw [← List.drop_eq_getElem_cons hi, List.take_append_drop]

theorem not_strayAt (h : Sheltered (ts.map Token.text)) (i : Nat) : ¬StrayAt ts i := by
  rintro ⟨t, hi, ht, hnothing⟩
  have htexts := congrArg (List.map Token.text) (split_at hi)
  rw [List.map_append, List.map_cons, ht] at htexts
  exact h.not_closesNothing htexts hnothing

theorem strayAt_length (ht : t.text = ")") (h : ClosesNothing (us.map Token.text)) :
    StrayAt (us ++ t :: rest) us.length :=
  ⟨t, by simp, ht, by rw [List.take_left]; exact h⟩

theorem not_strayAt_of_lt (h : Sheltered (us.map Token.text)) (hi : i < us.length) :
    ¬StrayAt (us ++ rest) i := by
  rintro ⟨t, hget, ht, hnothing⟩
  rw [List.getElem?_append_left hi] at hget
  rw [List.take_append_of_le_length (by omega)] at hnothing
  exact not_strayAt h i ⟨t, hget, ht, hnothing⟩

theorem unclosedAt_length (ht : t.text = "(") (h : Settled (rest.map Token.text)) :
    UnclosedAt (us ++ t :: rest) us.length := by
  refine ⟨t, by simp, ht, fun k => ?_⟩
  have hrest : (us ++ t :: rest).drop (us.length + 1) = rest := by simp
  have hsplit : (rest.take k).map Token.text ++ (rest.drop k).map Token.text =
      rest.map Token.text := by
    rw [← List.map_append, List.take_append_drop]
  rw [hrest]
  exact (hsplit ▸ h.sheltered).of_append.nonneg

/-- Behind settled texts nothing more is closed than opened, so no parenthesis in them is open. -/
theorem not_unclosedAt_of_gt (h : Settled (rest.map Token.text)) (hj : us.length < j) :
    ¬UnclosedAt (us ++ t :: rest) j := by
  rintro ⟨x, hget, hx, hopen⟩
  obtain ⟨k, rfl⟩ : ∃ k, j = us.length + 1 + k := ⟨j - (us.length + 1), by omega⟩
  have hrest : (us ++ t :: rest).drop (us.length + 1) = rest := by simp
  have hgetrest : rest[k]? = some x := by
    rw [← hrest, List.getElem?_drop]
    exact hget
  have hsplit := congrArg (List.map Token.text) (split_at hgetrest)
  rw [List.map_append, List.map_cons, hx] at hsplit
  have hbefore : 0 ≤ balance ((rest.take k).map Token.text) :=
    (hsplit ▸ h.sheltered).of_append.nonneg
  have hafter := hopen (rest.drop (k + 1)).length
  have hall := h.balanced
  rw [hsplit, balance_append, balance_cons, balance_open] at hall
  have hdrop : (us ++ t :: rest).drop (us.length + 1 + k + 1) = rest.drop (k + 1) := by
    rw [Nat.add_assoc, ← List.drop_drop, hrest]
  rw [hdrop, List.take_length] at hafter
  omega

end Places

theorem syntaxFault_faultAt {α : Type} (c : Cause) (hc : c.kind = .malformed) (t : Token) :
    SyntaxFault (.error (faultAt c t) : Except Failure α) c.text t :=
  ⟨_, rfl, hc, rfl, rfl, rfl⟩

/-- The outcome of reading all expressions is what counting from left to right finds: the first
closing parenthesis that closes nothing; else a quotation mark at the end; else, if more parentheses
are opened than closed, the last one that is not closed; else there is nothing wrong. -/
structure FoundByCounting (ts : List Token) (r : Except Failure (List Value)) : Prop where
  stray : ∀ i t, StrayAt ts i → (∀ j < i, ¬StrayAt ts j) → ts[i]? = some t →
    SyntaxFault r "Unexpected closing delimiter ')'" t
  dangling : (∀ i, ¬StrayAt ts i) → ∀ t, ts.getLast? = some t → t.text = "'" →
    SyntaxFault r "Quote is missing its expression" t
  missing : (∀ i, ¬StrayAt ts i) → (∀ t, ts.getLast? = some t → t.text ≠ "'") →
    (ts.map Token.text).count ")" < (ts.map Token.text).count "(" →
    ∃ j t, UnclosedAt ts j ∧ (∀ k, j < k → ¬UnclosedAt ts k) ∧ ts[j]? = some t ∧
      SyntaxFault r "Missing closing delimiter ')'" t
  accepted : (∀ i, ¬StrayAt ts i) → (∀ t, ts.getLast? = some t → t.text ≠ "'") →
    (ts.map Token.text).count "(" ≤ (ts.map Token.text).count ")" → ∃ vs, r = .ok vs

theorem foundByCounting_of_stray {us rest : List Token} {t : Token} (ht : t.text = ")")
    (hus : Sheltered (us.map Token.text)) (h : ClosesNothing (us.map Token.text)) :
    FoundByCounting (us ++ t :: rest) (.error (faultAt .unexpectedClose t)) := by
  have hstray : StrayAt (us ++ t :: rest) us.length := strayAt_length ht h
  refine ⟨?_, fun hnone => absurd hstray (hnone _), fun hnone => absurd hstray (hnone _),
    fun hnone => absurd hstray (hnone _)⟩
  intro i x hi hfirst hget
  have hplace : i = us.length := by
    rcases Nat.lt_trichotomy i us.length with hlt | heq | hgt
    · exact absurd hi (not_strayAt_of_lt hus hlt)
    · exact heq
    · exact absurd hstray (hfirst _ hgt)
  subst hplace
  have hx : x = t := by simpa using hget.symm
  exact hx ▸ syntaxFault_faultAt .unexpectedClose rfl t

theorem foundByCounting_of_dangling {ts : List Token} {t : Token}
    (h : Sheltered (ts.map Token.text)) (hlast : ts.getLast? = some t) (ht : t.text = "'") :
    FoundByCounting ts (.error (faultAt .quoteWithoutExpression t)) := by
  refine ⟨fun i _ hi => absurd hi (not_strayAt h i), ?_, fun _ hquote => absurd ht (hquote t hlast),
    fun _ hquote => absurd ht (hquote t hlast)⟩
  intro _ x hx _
  have hxt : x = t := Option.some.inj (hx.symm.trans hlast)
  exact hxt ▸ syntaxFault_faultAt .quoteWithoutExpression rfl t

theorem foundByCounting_of_missing {us rest : List Token} {t : Token} (ht : t.text = "(")
    (h : Sheltered ((us ++ t :: rest).map Token.text)) (hrest : Settled (rest.map Token.text)) :
    FoundByCounting (us ++ t :: rest) (.error (faultAt .missingClose t)) := by
  have hpos := Diagnosis.balance_pos_of_missing rfl ht h hrest
  refine ⟨fun i _ hi => absurd hi (not_strayAt h i), ?_, ?_, ?_⟩
  · intro _ x hx hquote
    have hlast : (rest.map Token.text).getLast? ≠ some "'" := hrest.last
    rw [List.getLast?_append_of_ne_nil _ (List.cons_ne_nil t rest), List.getLast?_cons] at hx
    rw [List.getLast?_map] at hlast
    cases hl : rest.getLast? with
    | none =>
      rw [hl] at hx
      rw [← Option.some.inj hx] at hquote
      rw [show t.text = "'" from hquote] at ht
      exact absurd ht (by decide)
    | some y =>
      rw [hl] at hx hlast
      have hxy : y = x := Option.some.inj hx
      exact absurd (by rw [hxy, Option.map_some, hquote]) hlast
  · intro _ _ _
    exact ⟨us.length, t, unclosedAt_length ht hrest, fun k hk => not_unclosedAt_of_gt hrest hk,
      by simp, syntaxFault_faultAt .missingClose rfl t⟩
  · intro _ _ hcount
    simp only [balance] at hpos
    omega

theorem foundByCounting_of_settled {ts : List Token} (h : Settled (ts.map Token.text))
    (vs : List Value) : FoundByCounting ts (.ok vs) := by
  refine ⟨fun i _ hi => absurd hi (not_strayAt h.sheltered i), ?_, ?_, fun _ _ _ => ⟨vs, rfl⟩⟩
  · intro _ t hlast ht
    exact absurd (by rw [List.getLast?_map, hlast, ← ht]; rfl) h.last
  · intro _ _ hcount
    have hbalance := h.balanced
    simp only [balance] at hbalance
    omega

theorem readAll_foundByCounting {room : Nat} {ts : List Token}
    (hvalues : ∀ t ∈ ts, HasValue t.text)
    (hstack : (readAll room ts).1 ≠ .error (.escape .exhausted)) :
    FoundByCounting ts (readAll room ts).1 := by
  rcases readAll_cases room ts with ⟨vs, hread⟩ | ⟨e, rest, hread, hfails⟩
  · rw [hread]
    exact foundByCounting_of_settled (settled_of_derivesAll (readAll_ok_iff.mp hread).2.1) vs
  rw [hread] at hstack ⊢
  cases hfails with
  | stray hts ht hus h => exact hts ▸ foundByCounting_of_stray ht hus h
  | dangling h hlast ht => exact foundByCounting_of_dangling h hlast ht
  | missing hts ht h hrest =>
    subst hts
    exact foundByCounting_of_missing ht h hrest
  | exhausted => exact absurd rfl hstack
  | unreadable ht hx =>
    obtain ⟨v, hv⟩ := hvalues _ ht
    rw [hx] at hv
    cases hv

theorem Diagnosis.place {room : Nat} {ts : List Token} {f : Fault}
    (h : Diagnosis room ts (.fault f)) :
    ∃ t ∈ ts, f.line = t.line ∧ f.column = t.column ∧ f.cause ≠ .endOfInput := by
  cases h with
  | stray hts ht => exact ⟨_, by simp [hts], rfl, rfl, by simp⟩
  | dangling _ hlast => exact ⟨_, List.mem_of_getLast? hlast, rfl, rfl, by simp⟩
  | missing hts => exact ⟨_, by simp [hts], rfl, rfl, by simp⟩

end PocketLisp.Reader

namespace PocketLisp

namespace Token

def IsPlaced (t : Token) : Prop := t.line.isSome ∧ t.column.isSome

theorem isPlaced_placed (text : List Char) (line column : Nat) :
    (placed text line column).IsPlaced :=
  ⟨rfl, rfl⟩

theorem isPlaced_of_mem_flush {line : Nat} {begun : Option Partial} {rest : List Token}
    (h : ∀ t ∈ rest, t.IsPlaced) : ∀ t ∈ flush line begun rest, t.IsPlaced := by
  cases begun with
  | none => exact h
  | some p => simpa [flush, isPlaced_placed] using h

theorem isPlaced_of_mem_scan (line column : Nat) (begun : Option Partial) (cs : List Char) :
    ∀ t ∈ scan line column begun cs, t.IsPlaced := by
  induction cs generalizing line column begun with
  | nil => exact isPlaced_of_mem_flush (by simp)
  | cons c cs ih =>
    rw [scan]
    split
    · exact isPlaced_of_mem_flush (ih _ _ _)
    · split
      · apply isPlaced_of_mem_flush
        simpa [isPlaced_placed] using ih line (column + 1) none
      · split
        · exact isPlaced_of_mem_flush (ih _ _ _)
        · exact ih _ _ _

theorem isPlaced_of_mem_ofText {s : String} {t : Token} (h : t ∈ ofText s) : t.IsPlaced :=
  isPlaced_of_mem_scan 1 1 none s.toList t h

theorem foldl_weight (n : Int) (ts : List Token) :
    ts.foldl (fun n t => n + t.weight) n = n + Reader.balance (ts.map text) := by
  induction ts generalizing n with
  | nil => simp
  | cons t ts ih =>
    have hweight : t.weight = Reader.balance [t.text] := by
      by_cases hopen : t.text = "("
      · simp [weight, hopen]
      · by_cases hclose : t.text = ")"
        · simp [weight, hclose]
        · simp [weight, Reader.balance, hopen, hclose]
    rw [List.foldl_cons, ih, List.map_cons, Reader.balance_cons, hweight, Int.add_assoc]

end Token

theorem parenBalance_eq (s : String) :
    parenBalance s = Reader.balance ((Token.ofText s).map Token.text) := by
  rw [parenBalance, Token.foldl_weight, Int.zero_add]

namespace Reader

theorem place_of_parse_fault {room : Nat} {s : String} {f : Fault}
    (h : parse room s = .error (.fault f)) :
    ∃ t ∈ Token.ofText s, f.line = t.line ∧ f.column = t.column ∧ f.cause ≠ .endOfInput := by
  have houtcome : Outcome room [] (Token.ofText s) (readExpr room (Token.ofText s)) :=
    outcome_read .nil _
  unfold parse at h
  split at h
  · cases h
  · rename_i hne
    split at h
    · rename_i hread
      rw [hread] at houtcome
      cases h
      exact (houtcome.diagnosis hne).place
    · cases h
    · rename_i v extra rest hread
      obtain ⟨us, hts, -⟩ := readExpr_ok_iff.mp hread
      split at h <;> cases h <;> exact ⟨extra, by simp [hts], rfl, rfl, by simp⟩

theorem place_of_parseAll_fault {room : Nat} {s : String} {f : Fault}
    (h : parseAll room s = .error (.fault f)) :
    ∃ t ∈ Token.ofText s, f.line = t.line ∧ f.column = t.column ∧ f.cause ≠ .endOfInput := by
  unfold parseAll at h
  rcases readAll_cases room (Token.ofText s) with ⟨vs, hread⟩ | ⟨e, rest, hread, hfails⟩
  · rw [hread] at h
    cases h
  · rw [hread] at h
    cases h
    exact hfails.place

theorem parenBalance_of_parse {room : Nat} {s : String} {v : Option Value}
    (h : parse room s = .ok v) : parenBalance s = 0 := by
  rw [parenBalance_eq]
  cases v with
  | none =>
    have hblank : Token.ofText s = [] := by
      unfold parse at h
      split at h
      · assumption
      · split at h
        · cases h
        · cases h
        · split at h <;> cases h
    rw [hblank]
    rfl
  | some v => exact (settled_of_derives (parse_ok_iff.mp h).1).balanced

/-- Reading all expressions of a text and counting its parentheses from left to right come to the
same, as long as no integer has too many digits and the host frames suffice, for which one for each
token is enough. Whatever the text and the frames, the fault that input has ended never occurs, every
fault has a line and a column, and a text in which parentheses do not balance is not read. -/
theorem parseAll_agrees_with_counting (room : Nat) (s : String) :
    ((Token.ofText s).length ≤ room → parseAll room s ≠ .error (.escape .exhausted)) ∧
    ((∀ t ∈ Token.ofText s, ∀ negative ds,
        Numeral.ofText? t.text = some (.integer negative ds) → ds.length ≤ digitLimit) →
      parseAll room s ≠ .error (.escape .exhausted) →
      FoundByCounting (Token.ofText s) (parseAll room s)) ∧
    (∀ f, parse room s = .error (.fault f) ∨ parseAll room s = .error (.fault f) →
      f.cause ≠ .endOfInput ∧ f.line.isSome ∧ f.column.isSome) ∧
    (parenBalance s ≠ 0 → (∀ v, parse room s ≠ .ok v) ∧ ∀ vs, parseAll room s ≠ .ok vs) := by
  refine ⟨?_, ?_, ?_, ?_⟩
  · intro hroom h
    unfold parseAll at h
    rcases readAll_cases room (Token.ofText s) with ⟨vs, hread⟩ | ⟨e, rest, hread, hfails⟩
    · rw [hread] at h
      cases h
    · rw [hread] at h
      cases h
      cases hfails with
      | exhausted hlt => omega
      | unreadable _ hx =>
        obtain ⟨n, hn⟩ := readLimit_of_atomValue hx
        cases hn
  · intro hdigits hstack
    exact readAll_foundByCounting (fun t ht => hasValue_iff.mpr (hdigits t ht)) hstack
  · intro f h
    obtain ⟨t, ht, hline, hcolumn, hcause⟩ := h.elim place_of_parse_fault place_of_parseAll_fault
    have hplaced := Token.isPlaced_of_mem_ofText ht
    exact ⟨hcause, hline ▸ hplaced.1, hcolumn ▸ hplaced.2⟩
  · intro hbalance
    refine ⟨fun v h => hbalance (parenBalance_of_parse h), fun vs h => hbalance ?_⟩
    rw [parenBalance_eq]
    exact (settled_of_derivesAll (parseAll_ok_iff.mp h).1).balanced

end Reader

end PocketLisp
