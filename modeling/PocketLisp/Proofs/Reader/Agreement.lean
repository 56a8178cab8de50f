import PocketLisp.Proofs.Reader.Diagnosis

/-!
Reading the only expression of a text, and reading all of them. Both begin with the same expression
and part over what comes after it: the one takes any token for a fault, the other reads on. What the
two come to is said once, by how the tokens begin (`Entries`); from the outcome of the one the
outcome of the other follows.
-/
namespace PocketLisp.Reader

open Token

/-- The failure when a token follows the only expression of a text. -/
def leftover (t : Token) : Failure :=
  if t.text = ")" then faultAt .extraClose t else faultAt (.extraToken (Text.quoted t.text)) t

def leftoverText (t : Token) : String :=
  if t.text = ")" then "Extra closing delimiter ')'"
  else "Unexpected token " ++ Text.quoted t.text ++ " after expression"

theorem syntaxFault_leftover {α : Type} (t : Token) :
    SyntaxFault (.error (leftover t) : Except Failure α) (leftoverText t) t := by
  unfold leftover leftoverText
  split
  · exact syntaxFault_faultAt .extraClose rfl t
  · exact syntaxFault_faultAt (.extraToken (Text.quoted t.text)) rfl t

section Text

variable {room : Nat} {s : String} {rest : List Token}

theorem parse_of_blank (h : ofText s = []) : parse room s = .ok none := by
  unfold parse
  rw [h]

theorem parse_of_unread {e : Failure} (hne : ofText s ≠ [])
    (h : readExpr room (ofText s) = (.error e, rest)) : parse room s = .error e := by
  unfold parse
  split
  · exact absurd ‹_› hne
  · rw [h]

theorem parse_of_leftover {v : Value} {t : Token}
    (h : readExpr room (ofText s) = (.ok v, t :: rest)) : parse room s = .error (leftover t) := by
  unfold parse leftover
  split
  · rename_i hnil
    rw [hnil] at h
    cases h
  · rw [h]
    by_cases ht : t.text = ")" <;> simp [ht]

end Text

theorem readAll_fst_ok_iff {room : Nat} {ts : List Token} {vs : List Value} :
    (readAll room ts).1 = .ok vs ↔
      DerivesAll (ts.map Token.text) vs ∧ Value.nestingList vs ≤ room := by
  constructor
  · intro h
    exact (readAll_ok_iff.mp (Prod.ext h rfl)).2
  · rintro ⟨hvs, hroom⟩
    rw [readAll_of_derivesAll hvs hroom rfl]

theorem DerivesAll.eq_nil {ws : List String} (h : DerivesAll ws []) : ws = [] := by
  cases h
  rfl

theorem readAll_cons_ne_nil {room : Nat} {t : Token} {ts : List Token} :
    (readAll room (t :: ts)).1 ≠ .ok [] :=
  fun h => List.cons_ne_nil _ _ (readAll_fst_ok_iff.mp h).1.eq_nil

theorem Derives.head_ne_close {w : String} {ws : List String} {v : Value}
    (h : Derives (w :: ws) v) : w ≠ ")" := by
  cases h with
  | atom hmark =>
    rintro rfl
    cases hmark
  | list => decide
  | quote => decide

theorem DerivesAll.split_tokens {t : Token} {ts : List Token} {v : Value} {vs : List Value}
    (h : DerivesAll ((t :: ts).map Token.text) (v :: vs)) :
    ∃ us rest, ts = us ++ rest ∧ Derives ((t :: us).map Token.text) v ∧
      DerivesAll (rest.map Token.text) vs := by
  generalize hws : (t :: ts).map Token.text = ws at h
  cases h with
  | cons first others =>
    obtain ⟨xs, rest, hts, rfl, rfl⟩ := List.map_eq_append_iff.mp hws
    cases xs with
    | nil => exact absurd rfl first.ne_nil
    | cons x us =>
      obtain ⟨rfl, rfl⟩ := List.cons.inj hts
      exact ⟨us, rest, rfl, first, others⟩

/-- What the two ways of reading a text come to, by how its tokens begin: there are none; they are
one expression; the first expression cannot be read; or a token follows it. -/
inductive Entries (room : Nat) (ts : List Token) :
    Except Failure (Option Value) → Except Failure (List Value) → Prop
  | blank (hts : ts = []) : Entries room ts (.ok none) (.ok [])
  | single {v : Value} : Entries room ts (.ok (some v)) (.ok [v])
  | unread {e : Failure}
      (hnone : ∀ us rest v, ts = us ++ rest → Derives (us.map Token.text) v → room < v.nesting) :
      Entries room ts (.error e) (.error e)
  | further {us rest : List Token} {t : Token} {v : Value} (hts : ts = us ++ t :: rest)
      (hv : Derives (us.map Token.text) v) (hroom : v.nesting ≤ room) :
      Entries room ts (.error (leftover t)) ((readAll room (t :: rest)).1.map (v :: ·))

theorem entries (room : Nat) (s : String) :
    Entries room (ofText s) (parse room s) (parseAll room s) := by
  by_cases hne : ofText s = []
  · have hall : parseAll room s = .ok [] := by rw [parseAll, hne, readAll]
    rw [parse_of_blank hne, hall]
    exact .blank hne
  rcases hread : readExpr room (ofText s) with ⟨e | v, rest⟩
  · rw [parse_of_unread hne hread, parseAll, readAll_of_error hne hread]
    refine .unread fun us rest v hts hv => Nat.lt_of_not_le fun hroom => ?_
    rw [readExpr_ok_iff.mpr ⟨us, hts, hv, hroom⟩] at hread
    cases hread
  obtain ⟨us, hts, hv, hroom⟩ := readExpr_ok_iff.mp hread
  rw [parseAll, readAll_of_ok hne hread]
  cases rest with
  | nil =>
    rw [List.append_nil] at hts
    rw [parse_of_derives (hts ▸ hv) hroom, readAll]
    exact .single
  | cons t rest =>
    rw [parse_of_leftover hread]
    exact .further hts hv hroom

section FirstValue

variable {r : Except Failure (List Value)} {v w : Value} {vs : List Value} {e : Failure}

theorem map_cons_ok_iff : r.map (v :: ·) = .ok (w :: vs) ↔ v = w ∧ r = .ok vs := by
  cases r <;> simp [Except.map]

theorem map_cons_ne_nil : r.map (v :: ·) ≠ .ok [] := by
  cases r <;> simp [Except.map]

theorem map_cons_error_iff : r.map (v :: ·) = .error e ↔ r = .error e := by
  cases r <;> simp [Except.map]

end FirstValue

namespace Entries

variable {room : Nat} {ts : List Token} {one : Except Failure (Option Value)}
  {all : Except Failure (List Value)}

theorem none_iff (h : Entries room ts one all) : one = .ok none ↔ all = .ok [] := by
  cases h with
  | blank => simp
  | single => simp
  | unread => simp
  | further => simp [map_cons_ne_nil]

theorem some_iff (h : Entries room ts one all) (v : Value) :
    one = .ok (some v) ↔ all = .ok [v] := by
  cases h with
  | blank => simp
  | single => simp
  | unread => simp
  | further => simp [map_cons_ok_iff, readAll_cons_ne_nil]

theorem several (h : Entries room ts one all) {v w : Value} {vs : List Value}
    (hall : all = .ok (v :: w :: vs)) :
    ∃ us t xs rest, ts = us ++ t :: (xs ++ rest) ∧ Derives (us.map Token.text) v ∧
      Derives ((t :: xs).map Token.text) w ∧ DerivesAll (rest.map Token.text) vs ∧
      SyntaxFault one ("Unexpected token " ++ Text.quoted t.text ++ " after expression") t := by
  cases h with
  | blank => cases hall
  | single => cases hall
  | unread => cases hall
  | @further us rest t v hts hv hroom =>
    obtain ⟨rfl, hrest⟩ := map_cons_ok_iff.mp hall
    obtain ⟨xs, more, rfl, hw, hvs⟩ := (readAll_fst_ok_iff.mp hrest).1.split_tokens
    have htext :
        leftoverText t = "Unexpected token " ++ Text.quoted t.text ++ " after expression" :=
      if_neg hw.head_ne_close
    exact ⟨us, t, xs, more, hts, hv, hw, hvs, htext ▸ syntaxFault_leftover t⟩

/-- If not everything can be read, either the fault is the same, and there is no expression in front
of it, or there is one, and what is at fault is the token after it. -/
theorem fails (h : Entries room ts one all) {e : Failure} (hall : all = .error e) :
    (one = .error e ∧
      ∀ us rest v, ts = us ++ rest → Derives (us.map Token.text) v → room < v.nesting) ∨
    ∃ us t rest v, ts = us ++ t :: rest ∧ Derives (us.map Token.text) v ∧ v.nesting ≤ room ∧
      (readAll room (t :: rest)).1 = .error e ∧ SyntaxFault one (leftoverText t) t := by
  cases h with
  | blank => cases hall
  | single => cases hall
  | unread hnone =>
    cases hall
    exact .inl ⟨rfl, hnone⟩
  | @further us rest t v hts hv hroom =>
    exact .inr ⟨us, t, rest, v, hts, hv, hroom, map_cons_error_iff.mp hall, syntaxFault_leftover t⟩

end Entries

theorem parseTokens_some_iff {room : Nat} {ts : List Token} {v : Value} :
    parseTokens room ts = .ok (some v) ↔
      ∃ us rest, ts = us ++ rest ∧ Derives (us.map Token.text) v ∧ v.nesting ≤ room := by
  have hread : (readExpr room ts).1 = .ok v ↔
      ∃ us rest, ts = us ++ rest ∧ Derives (us.map Token.text) v ∧ v.nesting ≤ room := by
    constructor
    · intro h
      obtain ⟨us, hus⟩ := readExpr_ok_iff.mp (Prod.ext h rfl)
      exact ⟨us, _, hus⟩
    · rintro ⟨us, rest, hus⟩
      rw [readExpr_ok_iff.mpr ⟨us, hus⟩]
  rw [← hread]
  cases ts with
  | nil => simp [parseTokens, readExpr, read]
  | cons t ts =>
    rw [parseTokens]
    · cases (readExpr room (t :: ts)).1 <;> simp [Except.map]
    · simp

/-- Reading the only expression of a text agrees with reading all of them. The text is blank for
both; the value is the only one for both; of several, the first token of the second is the fault;
and a fault for both is the same one, unless an expression is complete before it: then the fault is
the token after that. Whatever the tokens after it, the first expression of a sequence of tokens is
what is read of it. -/
theorem parse_agrees_with_parseAll (room : Nat) (s : String) :
    (parse room s = .ok none ↔ parseAll room s = .ok []) ∧
    (∀ v, parse room s = .ok (some v) ↔ parseAll room s = .ok [v]) ∧
    (∀ v w vs, parseAll room s = .ok (v :: w :: vs) →
      ∃ us t xs rest, ofText s = us ++ t :: (xs ++ rest) ∧ Derives (us.map Token.text) v ∧
        Derives ((t :: xs).map Token.text) w ∧ DerivesAll (rest.map Token.text) vs ∧
        SyntaxFault (parse room s)
          ("Unexpected token " ++ Text.quoted t.text ++ " after expression") t) ∧
    (∀ e, parseAll room s = .error e →
      (parse room s = .error e ∧
        ∀ us rest v, ofText s = us ++ rest → Derives (us.map Token.text) v → room < v.nesting) ∨
      ∃ us t rest v, ofText s = us ++ t :: rest ∧ Derives (us.map Token.text) v ∧
        v.nesting ≤ room ∧ (readAll room (t :: rest)).1 = .error e ∧
        SyntaxFault (parse room s) (leftoverText t) t) ∧
    ∀ ts v, parseTokens room ts = .ok (some v) ↔
      ∃ us rest, ts = us ++ rest ∧ Derives (us.map Token.text) v ∧ v.nesting ≤ room := by
  have h := entries room s
  exact ⟨h.none_iff, h.some_iff, fun v w vs hall => h.several hall, fun e hall => h.fails hall,
    fun ts v => parseTokens_some_iff⟩

end PocketLisp.Reader
