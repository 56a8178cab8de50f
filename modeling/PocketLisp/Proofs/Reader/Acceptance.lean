import PocketLisp.Proofs.Reader.Grammar
import PocketLisp.Reader.Cursor

/-!
The reader accepts the grammar and nothing else. What the tokens read so far have to do with the
constructs that are open is an invariant of reading (`Opened`), and from it every outcome of reading
is known (`Outcome`): a value that the tokens derive, a closing parenthesis that closes nothing, the
end of the tokens inside a construct, or a limit of the surroundings.
-/
namespace PocketLisp

namespace Value

theorem nestingList_append (vs ws : List Value) :
    nestingList (vs ++ ws) = max (nestingList vs) (nestingList ws) := by
  induction vs with
  | nil => simp [nestingList]
  | cons v vs ih => rw [List.cons_append, nestingList, nestingList, ih, Nat.max_assoc]

theorem nestingList_reverse (vs : List Value) : nestingList vs.reverse = nestingList vs := by
  induction vs with
  | nil => rfl
  | cons v vs ih =>
    rw [List.reverse_cons, nestingList_append, ih]
    simp only [nestingList]
    omega

end Value

namespace Reader

theorem nesting_of_atomValue {w : String} {v : Value} (h : atomValue w = .ok v) :
    v.nesting = 0 := by
  unfold atomValue at h
  split at h
  · rename_i n _
    cases hn : n.value <;> rw [hn] at h <;> cases h
    rfl
  · cases h
    rfl

theorem Derives.ne_nil {ws : List String} {v : Value} (h : Derives ws v) : ws ≠ [] := by
  cases h <;> simp

theorem DerivesAll.append {ws us : List String} {vs xs : List Value} (h : DerivesAll ws vs)
    (hs : DerivesAll us xs) : DerivesAll (ws ++ us) (vs ++ xs) := by
  match h with
  | .nil => exact hs
  | .cons first others =>
    rw [List.append_assoc]
    exact .cons first (others.append hs)

theorem DerivesAll.single {ws : List String} {v : Value} (h : Derives ws v) : DerivesAll ws [v] := by
  simpa using DerivesAll.cons h .nil

/-- `Opened room ts opens`: the tokens begin an expression, these constructs are open after them,
and the host frames suffice for what has been read. -/
inductive Opened (room : Nat) : List Token → List Open → Prop
  | nil : Opened room [] []
  | list {ts us : List Token} {opens : List Open} {start : Token} {items : List Value}
    (before : Opened room ts opens) (hstart : start.text = "(")
    (hitems : DerivesAll (us.map Token.text) items.reverse)
    (hroom : opens.length + 1 + Value.nestingList items ≤ room) :
    Opened room (ts ++ start :: us) (.list start items :: opens)
  | quote {ts : List Token} {opens : List Open} {mark : Token} (before : Opened room ts opens)
    (hmark : mark.text = "'") (hroom : opens.length + 1 ≤ room) :
    Opened room (ts ++ [mark]) (.quote mark :: opens)

theorem Opened.length_le {room : Nat} {ts : List Token} {opens : List Open}
    (h : Opened room ts opens) : opens.length ≤ room := by
  cases h with
  | nil => exact Nat.zero_le room
  | list _ _ _ hroom => exact Nat.le_trans (Nat.le_add_right _ _) hroom
  | quote _ _ hroom => exact hroom

/-- What tokens have to do with an expression that has been handed over: they derive the value that
stands alone, or they leave these constructs open. -/
def Delivered (room : Nat) (ts : List Token) : Value ⊕ List Open → Prop
  | .inl v => Derives (ts.map Token.text) v ∧ v.nesting ≤ room
  | .inr opens => Opened room ts opens

theorem Opened.deliver {room : Nat} {ts us : List Token} {opens : List Open} {v : Value}
    (h : Opened room ts opens) (hv : Derives (us.map Token.text) v)
    (hroom : opens.length + v.nesting ≤ room) :
    Delivered room (ts ++ us) (Reader.deliver v opens) := by
  induction h generalizing us v with
  | nil => exact ⟨hv, by simpa using hroom⟩
  | @list ts ws opens start items before hstart hitems hfits _ =>
    have hmore : DerivesAll ((ws ++ us).map Token.text) (v :: items).reverse := by
      rw [List.map_append, List.reverse_cons]
      exact hitems.append (.single hv)
    have hlevels : opens.length + 1 + Value.nestingList (v :: items) ≤ room := by
      rw [List.length_cons] at hroom
      rw [Value.nestingList]
      omega
    rw [List.append_assoc]
    exact .list before hstart hmore hlevels
  | @quote ts opens mark before hmark hfits ih =>
    have hquoted : Derives ((mark :: us).map Token.text) v.quote := by
      rw [List.map_cons, hmark]
      exact .quote hv
    have hlevels : opens.length + v.quote.nesting ≤ room := by
      rw [List.length_cons] at hroom
      simp only [Value.quote, Value.nesting, Value.nestingList]
      omega
    rw [List.append_assoc]
    exact ih hquoted hlevels

theorem Opened.close {room : Nat} {ts : List Token} {start t : Token} {items : List Value}
    {outer : List Open} (h : Opened room ts (.list start items :: outer)) (ht : t.text = ")") :
    Delivered room (ts ++ [t]) (Reader.deliver (.list items.reverse) outer) := by
  cases h with
  | @list ts us _ _ _ before hstart hitems hroom =>
    have hlist : Derives ((start :: (us ++ [t])).map Token.text) (.list items.reverse) := by
      rw [List.map_cons, List.map_append, hstart, List.map_singleton, ht]
      exact .list hitems
    have hlevels : outer.length + (Value.list items.reverse).nesting ≤ room := by
      rw [Value.nesting, Value.nestingList_reverse]
      omega
    rw [List.append_assoc]
    exact before.deliver hlist hlevels

def NoListOpen : List Open → Prop
  | .list .. :: _ => False
  | _ => True

section Failing

variable {t : Token} {room : Nat} {opens : List Open}

theorem read_open_exhausted (ht : t.text = "(") (h : room ≤ opens.length) (ts : List Token) :
    read room opens (t :: ts) = (.error (.escape .exhausted), ts) := by
  rw [read.eq_def]
  dsimp only
  rw [if_pos ht, if_pos h]

theorem read_quote_exhausted (ht : t.text = "'") (h : room ≤ opens.length) (ts : List Token) :
    read room opens (t :: ts) = (.error (.escape .exhausted), ts) := by
  rw [read.eq_def]
  dsimp only
  rw [if_neg (by rw [ht]; decide), if_neg (by rw [ht]; decide), if_pos ht, if_pos h]

theorem read_stray (ht : t.text = ")") (h : NoListOpen opens) (ts : List Token) :
    read room opens (t :: ts) = (.error (faultAt .unexpectedClose t), ts) := by
  rw [read.eq_def]
  dsimp only
  rw [if_neg (by rw [ht]; decide), if_pos ht]
  rcases opens with _ | ⟨_ | _, outer⟩
  · rfl
  · exact h.elim
  · rfl

theorem read_unreadable (ht : isMark t.text = false) {x : Escape}
    (hx : atomValue t.text = .error x) (ts : List Token) :
    read room opens (t :: ts) = (.error (.escape x), ts) := by
  have hne : (t.text ≠ "(" ∧ t.text ≠ ")") ∧ t.text ≠ "'" := by simpa [isMark] using ht
  rw [read.eq_def]
  dsimp only
  rw [if_neg hne.1.1, if_neg hne.1.2, if_neg hne.2, hx]

end Failing

/-- What reading comes to, when the tokens `pre` have been read and `ts` follow. -/
inductive Outcome (room : Nat) (pre ts : List Token) : Except Failure Value × List Token → Prop
  | complete {us rest : List Token} {v : Value} (hts : ts = us ++ rest)
    (h : Derives ((pre ++ us).map Token.text) v) (hroom : v.nesting ≤ room) :
    Outcome room pre ts (.ok v, rest)
  | stray {us rest : List Token} {t : Token} {opens : List Open} (hts : ts = us ++ t :: rest)
    (ht : t.text = ")") (h : Opened room (pre ++ us) opens) (hopens : NoListOpen opens) :
    Outcome room pre ts (.error (faultAt .unexpectedClose t), rest)
  | ended {opens : List Open} (h : Opened room (pre ++ ts) opens) :
    Outcome room pre ts (.error (endFault opens), [])
  | exhausted {us rest : List Token} {t : Token} {opens : List Open} (hts : ts = us ++ t :: rest)
    (h : Opened room (pre ++ us) opens) (hroom : room ≤ opens.length) :
    Outcome room pre ts (.error (.escape .exhausted), rest)
  | unreadable {us rest : List Token} {t : Token} {x : Escape} (hts : ts = us ++ t :: rest)
    (hx : atomValue t.text = .error x) : Outcome room pre ts (.error (.escape x), rest)

namespace Outcome

variable {room : Nat} {pre ts : List Token}

theorem cons {t : Token} {r : Except Failure Value × List Token}
    (h : Outcome room (pre ++ [t]) ts r) : Outcome room pre (t :: ts) r := by
  have shift {us rest : List Token} (hts : ts = us ++ rest) : t :: ts = (t :: us) ++ rest :=
    congrArg (t :: ·) hts
  cases h with
  | complete hts h hroom => exact .complete (shift hts) (by simpa using h) hroom
  | stray hts ht h hopens => exact .stray (shift hts) ht (by simpa using h) hopens
  | ended h => exact .ended (by simpa using h)
  | exhausted hts h hroom => exact .exhausted (shift hts) (by simpa using h) hroom
  | unreadable hts hx => exact .unreadable (shift hts) hx

theorem resume {d : Value ⊕ List Open} (hd : Delivered room pre d)
    (hread : ∀ opens, Opened room pre opens → Outcome room pre ts (read room opens ts)) :
    Outcome room pre ts (Reader.resume room ts d) := by
  cases d with
  | inl v =>
    have hv : Derives ((pre ++ []).map Token.text) v := by
      rw [List.append_nil]
      exact hd.1
    exact .complete rfl hv hd.2
  | inr opens => exact hread opens hd

end Outcome

/-- Reading keeps to the invariant, so it can come to nothing else. -/
theorem outcome_read {room : Nat} {pre : List Token} {opens : List Open}
    (h : Opened room pre opens) (ts : List Token) : Outcome room pre ts (read room opens ts) := by
  induction ts generalizing pre opens with
  | nil => exact .ended (by simpa using h)
  | cons t ts ih =>
    have hfirst : t :: ts = [] ++ t :: ts := rfl
    have hpre : Opened room (pre ++ []) opens := by simpa using h
    by_cases hopen : t.text = "("
    · by_cases hroom : room ≤ opens.length
      · rw [read_open_exhausted hopen hroom]
        exact .exhausted hfirst hpre hroom
      · rw [read_open hopen (Nat.not_le.mp hroom)]
        exact .cons (ih (.list h hopen .nil (Nat.not_le.mp hroom)))
    by_cases hclose : t.text = ")"
    · rcases opens with _ | ⟨⟨start, items⟩ | mark, outer⟩
      · have hnone : NoListOpen [] := trivial
        rw [read_stray hclose hnone]
        exact .stray hfirst hclose hpre hnone
      · rw [read_close hclose]
        exact .cons (.resume (h.close hclose) fun opens hopens => ih hopens)
      · have hnone : NoListOpen (.quote mark :: outer) := trivial
        rw [read_stray hclose hnone]
        exact .stray hfirst hclose hpre hnone
    by_cases hquote : t.text = "'"
    · by_cases hroom : room ≤ opens.length
      · rw [read_quote_exhausted hquote hroom]
        exact .exhausted hfirst hpre hroom
      · rw [read_quote hquote (Nat.not_le.mp hroom)]
        exact .cons (ih (.quote h hquote (Nat.not_le.mp hroom)))
    have hmark : isMark t.text = false := by simp [isMark, hopen, hclose, hquote]
    cases hv : atomValue t.text with
    | error x =>
      rw [read_unreadable hmark hv]
      exact .unreadable hfirst hv
    | ok v =>
      rw [read_atom hmark hv]
      have hatom : Derives ([t].map Token.text) v := .atom hmark hv
      have hroom : opens.length + v.nesting ≤ room := by
        rw [nesting_of_atomValue hv]
        exact h.length_le
      exact .cons (.resume (h.deliver hatom hroom) fun opens hopens => ih hopens)

/-- One expression is read exactly where the tokens begin with one and there are host frames enough
for its levels. -/
theorem readExpr_ok_iff {room : Nat} {ts rest : List Token} {v : Value} :
    readExpr room ts = (.ok v, rest) ↔
      ∃ us, ts = us ++ rest ∧ Derives (us.map Token.text) v ∧ v.nesting ≤ room := by
  constructor
  · intro h
    have houtcome : Outcome room [] ts (readExpr room ts) := outcome_read .nil ts
    rw [h] at houtcome
    cases houtcome with
    | complete hts hv hroom => exact ⟨_, hts, hv, hroom⟩
  · rintro ⟨us, rfl, hv, hroom⟩
    have hlevels : ([] : List Open).length + v.nesting ≤ room := by simpa using hroom
    exact read_of_derives hv hlevels rfl rest

theorem readAll_of_error {room : Nat} {ts rest : List Token} {e : Failure} (hts : ts ≠ [])
    (h : readExpr room ts = (.error e, rest)) : readAll room ts = (.error e, rest) := by
  unfold readAll
  split
  · exact absurd rfl hts
  · split
    · rename_i heq
      rw [h] at heq
      cases heq
      rfl
    · rename_i heq
      rw [h] at heq
      cases heq

theorem readAll_of_ok {room : Nat} {ts rest : List Token} {v : Value} (hts : ts ≠ [])
    (h : readExpr room ts = (.ok v, rest)) :
    readAll room ts = ((readAll room rest).1.map (v :: ·), (readAll room rest).2) := by
  conv => lhs; unfold readAll
  split
  · exact absurd rfl hts
  · split
    · rename_i heq
      rw [h] at heq
      cases heq
    · rename_i heq
      rw [h] at heq
      cases heq
      rfl

theorem readAll_of_derivesAll {ws : List String} {vs : List Value} (h : DerivesAll ws vs)
    {room : Nat} (hroom : Value.nestingList vs ≤ room) {ts : List Token}
    (hts : ts.map Token.text = ws) : readAll room ts = (.ok vs, []) := by
  induction vs generalizing ws ts with
  | nil =>
    cases h
    rw [List.map_eq_nil_iff.mp hts, readAll]
  | cons v vs ih =>
    cases h with
    | cons first others =>
      obtain ⟨us, rest, rfl, hus, hrest⟩ := List.map_eq_append_iff.mp hts
      have hlevels : max v.nesting (Value.nestingList vs) ≤ room := hroom
      have hread : readExpr room (us ++ rest) = (.ok v, rest) :=
        readExpr_ok_iff.mpr ⟨us, rfl, hus ▸ first, by omega⟩
      have hne : us ++ rest ≠ [] := by
        rintro hnil
        exact first.ne_nil (by rw [← hus, (List.append_eq_nil_iff.mp hnil).1]; rfl)
      rw [readAll_of_ok hne hread, ih others (by omega) hrest]
      rfl

theorem readAll_ok_iff {room : Nat} {ts rest : List Token} {vs : List Value} :
    readAll room ts = (.ok vs, rest) ↔
      rest = [] ∧ DerivesAll (ts.map Token.text) vs ∧ Value.nestingList vs ≤ room := by
  constructor
  · intro h
    induction hn : ts.length using Nat.strongRecOn generalizing ts vs with
    | ind n ih =>
      by_cases hts : ts = []
      · subst hts
        rw [readAll] at h
        cases h
        exact ⟨rfl, .nil, Nat.zero_le room⟩
      rcases hread : readExpr room ts with ⟨e | v, more⟩
      · rw [readAll_of_error hts hread] at h
        cases h
      obtain ⟨us, rfl, hv, hroom⟩ := readExpr_ok_iff.mp hread
      have hshorter : more.length < n := by
        have hus : us ≠ [] := fun hnil => hv.ne_nil (by rw [hnil]; rfl)
        have hpos := List.length_pos_iff.mpr hus
        rw [List.length_append] at hn
        omega
      rw [readAll_of_ok hts hread] at h
      rcases hmore : readAll room more with ⟨e | xs, final⟩
      · rw [hmore] at h
        cases h
      · rw [hmore] at h
        cases h
        obtain ⟨hfinal, hxs, hlevels⟩ := ih more.length hshorter hmore rfl
        refine ⟨hfinal, ?_, Nat.max_le.mpr ⟨hroom, hlevels⟩⟩
        rw [List.map_append]
        exact .cons hv hxs
  · rintro ⟨rfl, hvs, hroom⟩
    exact readAll_of_derivesAll hvs hroom rfl

/-- Tokens without positions. -/
def bare (ws : List String) : List Token := ws.map fun w => { text := w }

theorem map_text_bare (ws : List String) : (bare ws).map Token.text = ws := by
  simp [bare, Function.comp_def]

/-- No expression is the beginning of another one, and none has two values. -/
theorem Derives.unique {ws us rest more : List String} {v w : Value} (hv : Derives ws v)
    (hw : Derives us w) (h : ws ++ rest = us ++ more) : ws = us ∧ v = w := by
  have read {ws : List String} {v : Value} (hv : Derives ws v) (rest : List String) {room : Nat}
      (hroom : v.nesting ≤ room) : readExpr room (bare (ws ++ rest)) = (.ok v, bare rest) :=
    readExpr_ok_iff.mpr ⟨bare ws, by simp [bare], (map_text_bare ws).symm ▸ hv, hroom⟩
  have hfirst := read hv rest (Nat.le_max_left v.nesting w.nesting)
  have hsecond := read hw more (Nat.le_max_right v.nesting w.nesting)
  rw [h, hsecond] at hfirst
  injection hfirst with hvalue hrest
  have hmore : more = rest := by rw [← map_text_bare more, hrest, map_text_bare]
  rw [hmore] at h
  exact ⟨List.append_cancel_right h, (Except.ok.inj hvalue).symm⟩

theorem DerivesAll.unique {ws : List String} {vs xs : List Value} (hvs : DerivesAll ws vs)
    (hxs : DerivesAll ws xs) : vs = xs := by
  have hfirst := readAll_of_derivesAll hvs (Nat.le_max_left _ (Value.nestingList xs))
    (map_text_bare ws)
  rw [readAll_of_derivesAll hxs (Nat.le_max_right ..) (map_text_bare ws)] at hfirst
  injection hfirst with hvalues
  exact (Except.ok.inj hvalues).symm

theorem parseAll_ok_iff {room : Nat} {s : String} {vs : List Value} :
    parseAll room s = .ok vs ↔
      DerivesAll ((Token.ofText s).map Token.text) vs ∧ Value.nestingList vs ≤ room := by
  rcases hread : readAll room (Token.ofText s) with ⟨r, rest⟩
  have hparse : parseAll room s = r := congrArg Prod.fst hread
  constructor
  · intro h
    rw [← hparse, h] at hread
    exact (readAll_ok_iff.mp hread).2
  · rintro ⟨hvs, hroom⟩
    rw [readAll_of_derivesAll hvs hroom rfl] at hread
    rw [hparse]
    exact (congrArg Prod.fst hread).symm

theorem parse_ok_iff {room : Nat} {s : String} {v : Value} :
    parse room s = .ok (some v) ↔
      Derives ((Token.ofText s).map Token.text) v ∧ v.nesting ≤ room := by
  constructor
  · intro h
    unfold parse at h
    split at h
    · cases h
    · split at h
      · cases h
      · rename_i w hread
        cases h
        obtain ⟨us, hts, hv, hroom⟩ := readExpr_ok_iff.mp hread
        rw [List.append_nil] at hts
        exact ⟨hts ▸ hv, hroom⟩
      · split at h <;> cases h
  · rintro ⟨hv, hroom⟩
    exact parse_of_derives hv hroom

end Reader

namespace Cursor

open Reader

/-- The cursor when so many tokens of a sequence have been passed. -/
def after (ts : List Token) (p : Nat) : Cursor := ⟨p, ts.drop p⟩

/-- The texts of the tokens from one place of a sequence to another. -/
def between (ts : List Token) (p q : Nat) : List String := ((ts.drop p).take (q - p)).map Token.text

theorem length_between {ts : List Token} {q : Nat} (h : q ≤ ts.length) (p : Nat) :
    (between ts p q).length = q - p := by
  simp only [between, List.length_map, List.length_take, List.length_drop]
  omega

theorem lt_of_derives {ts : List Token} {p q : Nat} {v : Value} (h : Derives (between ts p q) v) :
    p < q := by
  apply Nat.lt_of_not_le
  intro hle
  apply h.ne_nil
  simp [between, Nat.sub_eq_zero_of_le hle]

theorem moveTo_after {ts us rest : List Token} {p : Nat} (h : ts.drop p = us ++ rest) :
    (after ts p).moveTo rest = after ts (p + us.length) := by
  have hrest : ts.drop (p + us.length) = rest := by
    rw [← List.drop_drop, h, List.drop_left]
  rw [after, after, moveTo, hrest, h, List.length_append, Nat.add_sub_cancel]

theorem expr_ok_iff {room : Nat} {ts : List Token} {p : Nat} {v : Value} {c : Cursor} :
    (after ts p).expr room = (.ok v, c) ↔
      ∃ q, c = after ts q ∧ p ≤ q ∧ q ≤ ts.length ∧ Derives (between ts p q) v ∧
        v.nesting ≤ room := by
  constructor
  · intro h
    rcases hread : readExpr room (ts.drop p) with ⟨r, rest⟩
    have hexpr : (after ts p).expr room = (r, (after ts p).moveTo rest) := by
      simp only [expr, after, hread]
    rw [hexpr] at h
    cases h
    obtain ⟨us, hts, hv, hroom⟩ := readExpr_ok_iff.mp hread
    have hlength : us.length ≤ ts.length - p := by
      rw [← List.length_drop, hts, List.length_append]
      omega
    have hpos : 0 < us.length :=
      List.length_pos_iff.mpr fun hnil => hv.ne_nil (by rw [hnil]; rfl)
    have htexts : between ts p (p + us.length) = us.map Token.text := by
      rw [between, Nat.add_sub_cancel_left, hts, List.take_left]
    exact ⟨p + us.length, moveTo_after hts, by omega, by omega, htexts ▸ hv, hroom⟩
  · rintro ⟨q, rfl, hpq, hq, hv, hroom⟩
    have hsplit : ts.drop p = (ts.drop p).take (q - p) ++ (ts.drop p).drop (q - p) :=
      (List.take_append_drop _ _).symm
    have hread : readExpr room (ts.drop p) = (.ok v, (ts.drop p).drop (q - p)) :=
      readExpr_ok_iff.mpr ⟨_, hsplit, hv, hroom⟩
    have hmove := moveTo_after hsplit
    rw [List.length_take_of_le (by rw [List.length_drop]; omega), Nat.add_sub_cancel' hpq] at hmove
    rw [← hmove]
    simp only [expr, after, hread]

theorem exprs_ok_iff {room : Nat} {ts : List Token} {p : Nat} {vs : List Value} {c : Cursor} :
    (after ts p).exprs room = (.ok vs, c) ↔
      c = after ts (max p ts.length) ∧ DerivesAll ((ts.drop p).map Token.text) vs ∧
        Value.nestingList vs ≤ room := by
  have hmove : (after ts p).moveTo [] = after ts (max p ts.length) := by
    rw [moveTo_after (List.append_nil _).symm, List.length_drop]
    congr 1
    omega
  rcases hread : readAll room (ts.drop p) with ⟨r, rest⟩
  have hexprs : (after ts p).exprs room = (r, (after ts p).moveTo rest) := by
    simp only [exprs, after, hread]
  rw [hexprs]
  constructor
  · intro h
    cases h
    obtain ⟨rfl, hvs, hroom⟩ := readAll_ok_iff.mp hread
    exact ⟨hmove, hvs, hroom⟩
  · rintro ⟨rfl, hvs, hroom⟩
    rw [readAll_of_derivesAll hvs hroom rfl] at hread
    cases hread
    rw [hmove]

end Cursor

namespace Reader

open Cursor

/-- Reading is exact. From a place in a sequence of tokens one expression is read, and the cursor
stops behind it, exactly where the grammar derives its value from the tokens passed; there is only
one such place and value; and neither the tokens after it nor any line or column play a part. All
expressions are read exactly where the grammar derives them from all the tokens there are. The only
proviso is a host frame for each level of the values. -/
theorem cursor_reads_grammar (room : Nat) (ts : List Token) (p : Nat) :
    (∀ v c, (after ts p).expr room = (.ok v, c) ↔
      ∃ q, c = after ts q ∧ p ≤ q ∧ q ≤ ts.length ∧ Derives (between ts p q) v ∧
        v.nesting ≤ room) ∧
    (∀ q q' v v', q ≤ ts.length → q' ≤ ts.length → Derives (between ts p q) v →
      Derives (between ts p q') v' → q = q' ∧ v = v') ∧
    (∀ v q ts' p', (after ts p).expr room = (.ok v, after ts q) →
      between ts' p' (p' + (q - p)) = between ts p q →
      (after ts' p').expr room = (.ok v, after ts' (p' + (q - p)))) ∧
    (∀ vs c, (after ts p).exprs room = (.ok vs, c) ↔
      c = after ts (max p ts.length) ∧ DerivesAll ((ts.drop p).map Token.text) vs ∧
        Value.nestingList vs ≤ room) ∧
    ∀ s vs, parseAll room s = .ok vs ↔
      DerivesAll ((Token.ofText s).map Token.text) vs ∧ Value.nestingList vs ≤ room := by
  refine ⟨fun v c => expr_ok_iff, ?_, ?_, fun vs c => exprs_ok_iff, fun s vs => parseAll_ok_iff⟩
  · intro q q' v v' hq hq' hv hv'
    have split (q : Nat) : between ts p q ++ ((ts.drop p).drop (q - p)).map Token.text =
        (ts.drop p).map Token.text := by
      rw [between, ← List.map_append, List.take_append_drop]
    obtain ⟨htexts, hvalue⟩ := hv.unique hv' ((split q).trans (split q').symm)
    have hlength := congrArg List.length htexts
    rw [length_between hq, length_between hq'] at hlength
    have hpq := lt_of_derives hv
    have hpq' := lt_of_derives hv'
    exact ⟨by omega, hvalue⟩
  · intro v q ts' p' h htexts
    obtain ⟨q₀, hq₀, hpq, hlen, hv, hroom⟩ := expr_ok_iff.mp h
    have hq : q = q₀ := congrArg Cursor.position hq₀
    subst hq
    have hlength := congrArg List.length htexts
    have hlt := lt_of_derives hv
    rw [length_between hlen] at hlength
    simp only [between, List.length_map, List.length_take, List.length_drop] at hlength
    exact expr_ok_iff.mpr ⟨_, rfl, by omega, by omega, htexts ▸ hv, hroom⟩

end Reader

end PocketLisp
