import PocketLisp.Reader.Parse

/-!
The grammar of expressions, as the texts of their tokens and the values they denote, and the reader
on the tokens of an expression: with a host frame for each level it comes to the value, hands it to
the innermost open construct and goes on with what follows.
-/
namespace PocketLisp.Reader

/-- The three texts that are no atoms. -/
def isMark (w : String) : Bool := w == "(" || w == ")" || w == "'"

mutual

/-- An expression is an atom, a list of expressions in parentheses, or a quotation mark in front of
an expression. -/
inductive Derives : List String → Value → Prop
  | atom {w : String} {v : Value} (mark : isMark w = false) (value : atomValue w = .ok v) :
    Derives [w] v
  | list {ws : List String} {vs : List Value} (items : DerivesAll ws vs) :
    Derives ("(" :: (ws ++ [")"])) (.list vs)
  | quote {ws : List String} {v : Value} (quoted : Derives ws v) : Derives ("'" :: ws) v.quote

inductive DerivesAll : List String → List Value → Prop
  | nil : DerivesAll [] []
  | cons {ws us : List String} {v : Value} {vs : List Value} (first : Derives ws v)
    (others : DerivesAll us vs) : DerivesAll (ws ++ us) (v :: vs)

end

/-- What happens when an expression has been handed over: either it stands alone, or reading goes on
with the constructs that are still open. -/
def resume (room : Nat) (rest : List Token) : Value ⊕ List Open → Except Failure Value × List Token
  | .inl v => (.ok v, rest)
  | .inr opens => read room opens rest

theorem read_open {t : Token} (ht : t.text = "(") {room : Nat} {opens : List Open}
    (h : opens.length < room) (ts : List Token) :
    read room opens (t :: ts) = read room (.list t [] :: opens) ts := by
  rw [read.eq_def]
  dsimp only
  rw [if_pos ht, if_neg (Nat.not_le.mpr h)]

theorem read_close {t : Token} (ht : t.text = ")") (room : Nat) (start : Token)
    (items : List Value) (outer : List Open) (ts : List Token) :
    read room (.list start items :: outer) (t :: ts) =
      resume room ts (deliver (.list items.reverse) outer) := by
  rw [read.eq_def]
  dsimp only
  rw [if_neg (by rw [ht]; decide), if_pos ht]
  cases deliver (.list items.reverse) outer <;> rfl

theorem read_quote {t : Token} (ht : t.text = "'") {room : Nat} {opens : List Open}
    (h : opens.length < room) (ts : List Token) :
    read room opens (t :: ts) = read room (.quote t :: opens) ts := by
  rw [read.eq_def]
  dsimp only
  rw [if_neg (by rw [ht]; decide), if_neg (by rw [ht]; decide), if_pos ht,
    if_neg (Nat.not_le.mpr h)]

theorem read_atom {t : Token} (ht : isMark t.text = false) {v : Value}
    (hv : atomValue t.text = .ok v) (room : Nat) (opens : List Open) (ts : List Token) :
    read room opens (t :: ts) = resume room ts (deliver v opens) := by
  have hne : (t.text ≠ "(" ∧ t.text ≠ ")") ∧ t.text ≠ "'" := by simpa [isMark] using ht
  rw [read.eq_def]
  dsimp only
  rw [if_neg hne.1.1, if_neg hne.1.2, if_neg hne.2, hv]
  dsimp only
  cases deliver v opens <;> rfl

mutual

/-- Reading the tokens of an expression. Each level of the value takes a host frame, and so does
each construct that is open around it. -/
theorem read_of_derives {ws : List String} {v : Value} (h : Derives ws v) {room : Nat}
    {opens : List Open} (hroom : opens.length + v.nesting ≤ room) {ts : List Token}
    (hts : ts.map Token.text = ws) (rest : List Token) :
    read room opens (ts ++ rest) = resume room rest (deliver v opens) := by
  match h with
  | .atom hmark hv =>
    obtain ⟨t, us, rfl, rfl, hus⟩ := List.map_eq_cons_iff.mp hts
    rw [List.map_eq_nil_iff.mp hus]
    exact read_atom hmark hv room opens rest
  | @Derives.list ws vs hitems =>
    obtain ⟨t, us, rfl, ht, hus⟩ := List.map_eq_cons_iff.mp hts
    obtain ⟨inner, close, rfl, hinner, hclose⟩ := List.map_eq_append_iff.mp hus
    obtain ⟨c, cs, rfl, hc, hcs⟩ := List.map_eq_cons_iff.mp hclose
    have hlevel : opens.length + (Value.nestingList vs + 1) ≤ room := hroom
    rw [List.map_eq_nil_iff.mp hcs, List.cons_append, List.append_assoc,
      read_open ht (by omega), read_of_derivesAll hitems (by omega) hinner,
      List.singleton_append, read_close hc, List.append_nil, List.reverse_reverse]
  | @Derives.quote _ v hquoted =>
    obtain ⟨t, us, rfl, ht, hus⟩ := List.map_eq_cons_iff.mp hts
    have hlevel : opens.length + (max 0 (max v.nesting 0) + 1) ≤ room := hroom
    rw [List.cons_append, read_quote ht (by omega),
      read_of_derives hquoted (by rw [List.length_cons]; omega) hus]
    rfl

theorem read_of_derivesAll {ws : List String} {vs : List Value} (h : DerivesAll ws vs) {room : Nat}
    {start : Token} {items : List Value} {outer : List Open}
    (hroom : outer.length + 1 + Value.nestingList vs ≤ room) {ts : List Token}
    (hts : ts.map Token.text = ws) (rest : List Token) :
    read room (.list start items :: outer) (ts ++ rest) =
      read room (.list start (vs.reverse ++ items) :: outer) rest := by
  match h with
  | .nil =>
    rw [List.map_eq_nil_iff.mp hts]
    rfl
  | @DerivesAll.cons _ _ v vs hfirst hothers =>
    obtain ⟨first, others, rfl, hws, hus⟩ := List.map_eq_append_iff.mp hts
    have hlevels : outer.length + 1 + max v.nesting (Value.nestingList vs) ≤ room := hroom
    rw [List.append_assoc, read_of_derives hfirst (by rw [List.length_cons]; omega) hws]
    show read room (.list start (v :: items) :: outer) (others ++ rest) = _
    rw [read_of_derivesAll hothers (by omega) hus]
    simp

end

theorem parse_of_derives {s : String} {v : Value}
    (h : Derives ((Token.ofText s).map Token.text) v) {room : Nat} (hroom : v.nesting ≤ room) :
    parse room s = .ok (some v) := by
  have hlevels : ([] : List Open).length + v.nesting ≤ room := by simpa using hroom
  have hread : readExpr room (Token.ofText s) = (.ok v, []) := by
    simpa only [readExpr, List.append_nil, deliver, resume] using
      read_of_derives h hlevels rfl []
  have hne : Token.ofText s ≠ [] := by
    intro hnil
    rw [hnil] at h
    cases h
  unfold parse
  split
  · rename_i hnil
    exact absurd hnil hne
  · rw [hread]

end PocketLisp.Reader
