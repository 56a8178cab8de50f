import PocketLisp.Proofs.Reader.Diagnosis

/-!
A cursor, whatever is called on it. To go from one cursor to another is to pass tokens (`Passes`),
and no call does anything else, so the cursor never goes back and never leaves the tokens. Reading
an expression passes a token at least, also where it fails, and from the fault it is known where the
cursor stops.
-/
namespace PocketLisp

namespace Reader

theorem outcome_readExpr (room : Nat) (ts : List Token) : Outcome room [] ts (readExpr room ts) :=
  outcome_read .nil ts

theorem Outcome.split {room : Nat} {pre ts : List Token} {r : Except Failure Value × List Token}
    (h : Outcome room pre ts r) : ∃ us, ts = us ++ r.2 := by
  cases h with
  | complete hts => exact ⟨_, hts⟩
  | ended => exact ⟨ts, (List.append_nil ts).symm⟩
  | @stray us _ t _ hts => exact ⟨us ++ [t], by simpa using hts⟩
  | @exhausted us _ t _ hts => exact ⟨us ++ [t], by simpa using hts⟩
  | @unreadable us _ t _ hts => exact ⟨us ++ [t], by simpa using hts⟩

theorem text_endFault {opens : List Open} {f : Fault} (h : endFault opens = .fault f) :
    f.text ≠ Cause.unexpectedClose.text := by
  have hcause : f.cause = .endOfInput ∨ f.cause = .missingClose ∨
      f.cause = .quoteWithoutExpression := by
    rcases opens with _ | ⟨_ | _, _⟩ <;> cases h <;> simp
  rw [Fault.text]
  rcases hcause with hcause | hcause | hcause <;> rw [hcause] <;> decide

/-- A fault of reading is a closing parenthesis that closes nothing, and what follows it is left; or
it is found at the end. -/
theorem Outcome.fault_cases {room : Nat} {ts : List Token} {r : Except Failure Value × List Token}
    (h : Outcome room [] ts r) {f : Fault} (hf : r.1 = .error (.fault f)) :
    (∃ us t, ts = us ++ t :: r.2 ∧ t.text = ")" ∧ Sheltered (us.map Token.text) ∧
      ClosesNothing (us.map Token.text) ∧ Failure.fault f = faultAt .unexpectedClose t) ∨
    r.2 = [] ∧ f.text ≠ Cause.unexpectedClose.text := by
  cases h with
  | complete => cases hf
  | @stray us _ t _ hts ht hopened hopens =>
    exact .inl ⟨us, t, hts, ht, hopened.sheltered, hopened.closesNothing hopens,
      (Except.error.inj hf).symm⟩
  | ended => exact .inr ⟨rfl, text_endFault (Except.error.inj hf)⟩
  | exhausted => cases hf
  | unreadable => cases hf

/-- Counted from a place on, this is the first closing parenthesis that closes nothing. -/
def FirstStray (ts : List Token) (p i : Nat) : Prop :=
  p ≤ i ∧ StrayAt (ts.drop p) (i - p) ∧ ∀ j < i - p, ¬StrayAt (ts.drop p) j

theorem firstStray_add {ts us rest : List Token} {t : Token} {p : Nat}
    (hts : ts.drop p = us ++ t :: rest) (ht : t.text = ")") (hus : Sheltered (us.map Token.text))
    (h : ClosesNothing (us.map Token.text)) : FirstStray ts p (p + us.length) := by
  refine ⟨Nat.le_add_right p us.length, ?_, ?_⟩
  · rw [hts, Nat.add_sub_cancel_left]
    exact strayAt_length ht h
  · intro j hj
    rw [Nat.add_sub_cancel_left] at hj
    rw [hts]
    exact not_strayAt_of_lt hus hj

end Reader

namespace Cursor

open Reader

/-- The next of the expressions that are left, if there is one. -/
def next? (room : Nat) (c : Cursor) : Option (Except Failure Value) × Cursor :=
  if c.atEnd then (none, c) else (some (c.expr room).1, (c.expr room).2)

/-- What can be called on a cursor. Reading has the room that there is at the time; all the
expressions that are left are read at once, or one by one as long as someone asks for the next.

The room counts the constructs that can be opened, beyond the frames in which a call looks at a
token and passes it. A call that has not even those frames is not among these. -/
inductive Call where
  | peek
  | advance
  | atEnd
  | expr (room : Nat)
  | exprs (room : Nat)
  | next (room : Nat)

namespace Call

def perform (c : Cursor) : Call → Cursor
  | .peek | .atEnd => c
  | .advance => c.advance.2
  | .expr room => (c.expr room).2
  | .exprs room => (c.exprs room).2
  | .next room => (c.next? room).2

def isExpr : Call → Bool
  | .expr _ => true
  | _ => false

end Call

/-- The cursor after calls, one after the other; those that fail count as well. -/
def run (c : Cursor) (calls : List Call) : Cursor := calls.foldl Call.perform c

/-- Asked for one expression after the other, the cursor gives these values. -/
inductive Reads (room : Nat) : Cursor → List Value → Cursor → Prop
  | nil {c : Cursor} : Reads room c [] c
  | cons {c d e : Cursor} {v : Value} {vs : List Value} (first : c.next? room = (some (.ok v), d))
    (others : Reads room d vs e) : Reads room c (v :: vs) e

/-- From the one cursor to the other these tokens are passed. -/
structure Passes (us : List Token) (c d : Cursor) : Prop where
  rest : c.rest = us ++ d.rest
  position : d.position = c.position + us.length

namespace Passes

variable {us vs rest : List Token} {c d e : Cursor}

theorem refl (c : Cursor) : Passes [] c c := ⟨rfl, rfl⟩

theorem trans (h : Passes us c d) (hd : Passes vs d e) : Passes (us ++ vs) c e where
  rest := by rw [h.rest, hd.rest, List.append_assoc]
  position := by rw [hd.position, h.position, List.length_append, Nat.add_assoc]

theorem moveTo (h : c.rest = us ++ rest) : Passes us c (c.moveTo rest) where
  rest := h
  position := by simp [Cursor.moveTo, h]

theorem moveTo_eq (h : Passes us c d) : c.moveTo d.rest = d := by
  have hposition : c.position + (c.rest.length - d.rest.length) = d.position := by
    simp [h.rest, h.position]
  rw [Cursor.moveTo, hposition]

theorem position_le (h : Passes us c d) : c.position ≤ d.position := by
  rw [h.position]
  exact Nat.le_add_right c.position us.length

end Passes

section Steps

variable (room : Nat) (c : Cursor)

theorem passes_advance : ∃ us, Passes us c c.advance.2 := by
  rcases c with ⟨p, _ | ⟨t, ts⟩⟩
  · exact ⟨[], .refl _⟩
  · exact ⟨[t], .moveTo rfl⟩

/-- Reading an expression passes a token, if there is one. -/
theorem passes_expr : ∃ us, Passes us c (c.expr room).2 ∧ (c.rest ≠ [] → us ≠ []) := by
  obtain ⟨us, hus⟩ := (outcome_readExpr room c.rest).split
  refine ⟨us, .moveTo hus, ?_⟩
  rintro hne rfl
  have hshorter := length_read_le room [] c.rest
  have hsame : (readExpr room c.rest).2.length = c.rest.length := congrArg List.length hus.symm
  have hpos := List.length_pos_iff.mpr hne
  rw [readExpr] at hsame
  omega

theorem next?_of_end (h : c.rest = []) : c.next? room = (none, c) := by
  simp [next?, atEnd, h]

theorem next?_of_rest (h : c.rest ≠ []) :
    c.next? room = (some (c.expr room).1, (c.expr room).2) := by
  simp [next?, atEnd, h]

theorem passes_next? : ∃ us, Passes us c (c.next? room).2 := by
  by_cases hrest : c.rest = []
  · rw [next?_of_end room c hrest]
    exact ⟨[], .refl c⟩
  · rw [next?_of_rest room c hrest]
    obtain ⟨us, hus, -⟩ := passes_expr room c
    exact ⟨us, hus⟩

end Steps

theorem Reads.passes {room : Nat} {c d : Cursor} {vs : List Value} (h : Reads room c vs d) :
    ∃ us, Passes us c d := by
  induction h with
  | nil => exact ⟨[], .refl _⟩
  | @cons c d e v vs first others ih =>
    obtain ⟨us, hus⟩ := passes_next? room c
    obtain ⟨ws, hws⟩ := ih
    rw [first] at hus
    exact ⟨us ++ ws, hus.trans hws⟩

/-- How reading all expressions ends: no token is left, or the next expression cannot be read. -/
inductive Ends (room : Nat) (vs : List Value) (d : Cursor) :
    Except Failure (List Value) × Cursor → Prop
  | complete (h : d.rest = []) : Ends room vs d (.ok vs, d)
  | failed {e : Failure} {d' : Cursor} (hrest : d.rest ≠ []) (h : d.expr room = (.error e, d')) :
    Ends room vs d (.error e, d')

theorem Ends.passes {room : Nat} {vs : List Value} {d : Cursor}
    {r : Except Failure (List Value) × Cursor} (h : Ends room vs d r) : ∃ us, Passes us d r.2 := by
  cases h with
  | complete => exact ⟨[], .refl d⟩
  | failed _ h =>
    obtain ⟨us, hus, -⟩ := passes_expr room d
    rw [h] at hus
    exact ⟨us, hus⟩

theorem Ends.cons {room : Nat} {v : Value} {vs : List Value} {d : Cursor}
    {r : Except Failure (List Value) × Cursor} (h : Ends room vs d r) :
    Ends room (v :: vs) d (r.1.map (v :: ·), r.2) := by
  cases h with
  | complete h => exact .complete h
  | failed hrest h => exact .failed hrest h

section Exprs

variable {room : Nat} {c d : Cursor}

theorem exprs_of_end (h : c.rest = []) : c.exprs room = (.ok [], c) := by
  have hstays : c.moveTo [] = c := h ▸ (Passes.refl c).moveTo_eq
  rw [exprs, h, readAll, hstays]

theorem exprs_of_error {e : Failure} (hrest : c.rest ≠ []) (h : c.expr room = (.error e, d)) :
    c.exprs room = (.error e, d) := by
  obtain ⟨hvalue, rfl⟩ := Prod.mk.inj h
  have hread : readExpr room c.rest = (.error e, (readExpr room c.rest).2) := Prod.ext hvalue rfl
  rw [exprs, readAll_of_error hrest hread]

theorem exprs_of_ok {v : Value} (hrest : c.rest ≠ []) (h : c.expr room = (.ok v, d))
    {us : List Token} (hus : Passes us c (d.exprs room).2) :
    c.exprs room = ((d.exprs room).1.map (v :: ·), (d.exprs room).2) := by
  obtain ⟨hvalue, rfl⟩ := Prod.mk.inj h
  have hread : readExpr room c.rest = (.ok v, (readExpr room c.rest).2) := Prod.ext hvalue rfl
  rw [exprs, readAll_of_ok hrest hread]
  exact Prod.ext rfl hus.moveTo_eq

end Exprs

/-- All expressions are read by asking for the next one until there is none or it cannot be read. -/
theorem exists_reads_exprs (room : Nat) (c : Cursor) :
    ∃ vs d, Reads room c vs d ∧ Ends room vs d (c.exprs room) := by
  induction hn : c.rest.length using Nat.strongRecOn generalizing c with
  | ind n ih =>
    by_cases hrest : c.rest = []
    · exact ⟨[], c, .nil, exprs_of_end hrest ▸ .complete hrest⟩
    rcases hexpr : c.expr room with ⟨e | v, d⟩
    · exact ⟨[], c, .nil, exprs_of_error hrest hexpr ▸ .failed hrest hexpr⟩
    have hfirst : c.next? room = (some (.ok v), d) := by rw [next?_of_rest room c hrest, hexpr]
    obtain ⟨us, hus, hne⟩ := passes_expr room c
    simp only [hexpr] at hus
    have hshorter : d.rest.length < n := by
      have hpos := List.length_pos_iff.mpr (hne hrest)
      rw [← hn, hus.rest, List.length_append]
      omega
    obtain ⟨vs, f, hothers, hends⟩ := ih d.rest.length hshorter d rfl
    obtain ⟨ws, hws⟩ := hothers.passes
    obtain ⟨xs, hxs⟩ := hends.passes
    have hexprs := exprs_of_ok hrest hexpr (hus.trans (hws.trans hxs))
    exact ⟨v :: vs, f, .cons hfirst hothers, hexprs ▸ hends.cons⟩

theorem passes_exprs (room : Nat) (c : Cursor) : ∃ us, Passes us c (c.exprs room).2 := by
  obtain ⟨vs, d, hreads, hends⟩ := exists_reads_exprs room c
  obtain ⟨us, hus⟩ := hreads.passes
  obtain ⟨ws, hws⟩ := hends.passes
  exact ⟨us ++ ws, hus.trans hws⟩

/-- A call passes tokens and does nothing else. -/
theorem passes_perform (call : Call) (c : Cursor) :
    ∃ us, Passes us c (call.perform c) ∧ (call.isExpr = true → c.rest ≠ [] → us ≠ []) := by
  cases call with
  | peek => exact ⟨[], .refl c, by simp [Call.isExpr]⟩
  | atEnd => exact ⟨[], .refl c, by simp [Call.isExpr]⟩
  | advance =>
    obtain ⟨us, hus⟩ := passes_advance c
    exact ⟨us, hus, by simp [Call.isExpr]⟩
  | expr room =>
    obtain ⟨us, hus, hne⟩ := passes_expr room c
    exact ⟨us, hus, fun _ => hne⟩
  | exprs room =>
    obtain ⟨us, hus⟩ := passes_exprs room c
    exact ⟨us, hus, by simp [Call.isExpr]⟩
  | next room =>
    obtain ⟨us, hus⟩ := passes_next? room c
    exact ⟨us, hus, by simp [Call.isExpr]⟩

/-- So do calls one after the other. Those that read an expression pass as many tokens as they are,
or all there are. -/
theorem passes_run (calls : List Call) (c : Cursor) :
    ∃ us, Passes us c (c.run calls) ∧ min c.rest.length (calls.countP Call.isExpr) ≤ us.length := by
  induction calls generalizing c with
  | nil => exact ⟨[], .refl c, Nat.min_le_right _ _⟩
  | cons call calls ih =>
    obtain ⟨us, hus, hne⟩ := passes_perform call c
    obtain ⟨ws, hws, hmany⟩ := ih (call.perform c)
    refine ⟨us ++ ws, hus.trans hws, ?_⟩
    have hlength := congrArg List.length hus.rest
    rw [List.length_append] at hlength ⊢
    rw [List.countP_cons]
    by_cases hcall : call.isExpr = true
    · by_cases hrest : c.rest = []
      · simp [hrest]
      · have hpos := List.length_pos_iff.mpr (hne hcall hrest)
        rw [if_pos hcall]
        omega
    · rw [if_neg hcall]
      omega

/-- A cursor over these tokens: those from its position on are left. -/
structure Over (ts : List Token) (c : Cursor) : Prop where
  drop : ts.drop c.position = c.rest
  length : c.position + c.rest.length = ts.length

theorem over_start (ts : List Token) : Over ts (start ts) := ⟨rfl, Nat.zero_add ts.length⟩

namespace Over

variable {ts us : List Token} {c d : Cursor}

theorem passes (h : Over ts c) (hus : Passes us c d) : Over ts d where
  drop := by rw [hus.position, ← List.drop_drop, h.drop, hus.rest, List.drop_left]
  length := by
    rw [← h.length, hus.position, hus.rest, List.length_append, Nat.add_assoc]

theorem position_le (h : Over ts c) : c.position ≤ ts.length := by
  rw [← h.length]
  exact Nat.le_add_right c.position c.rest.length

theorem getElem?_add (h : Over ts c) (k : Nat) : ts[c.position + k]? = c.rest[k]? := by
  rw [← h.drop, List.getElem?_drop]

theorem rest_eq_nil_iff (h : Over ts c) : c.rest = [] ↔ c.position = ts.length := by
  rw [← List.length_eq_zero_iff, ← h.length]
  omega

theorem rest_ne_nil_iff (h : Over ts c) : c.rest ≠ [] ↔ c.position < ts.length := by
  have hle := h.position_le
  rw [Ne, h.rest_eq_nil_iff]
  omega

theorem run (h : Over ts c) (calls : List Call) : Over ts (c.run calls) := by
  obtain ⟨us, hus, -⟩ := passes_run calls c
  exact h.passes hus

theorem peek_eq (h : Over ts c) : c.peek = ts[c.position]? := by
  rw [peek, List.head?_eq_getElem?, ← h.getElem?_add 0, Nat.add_zero]

theorem atEnd_iff (h : Over ts c) : c.atEnd = true ↔ c.position = ts.length := by
  rw [atEnd, List.isEmpty_iff, h.rest_eq_nil_iff]

theorem position_advance (h : Over ts c) :
    c.advance.2.position = min (c.position + 1) ts.length := by
  rw [← h.length]
  rcases c with ⟨p, _ | ⟨t, rest⟩⟩
  · simp [advance]
  · simp [advance, moveTo]

theorem stray_of_expr (h : Over ts c) {room : Nat} {f : Fault}
    (hexpr : c.expr room = (.error (.fault f), d))
    (htext : f.text = "Unexpected closing delimiter ')'") :
    ∃ i t, FirstStray ts c.position i ∧ ts[i]? = some t ∧ t.text = ")" ∧ f.line = t.line ∧
      f.column = t.column ∧ d.position = i + 1 := by
  rcases (outcome_readExpr room c.rest).fault_cases (congrArg Prod.fst hexpr) with
    ⟨us, t, hrest, ht, hus, hnothing, hf⟩ | ⟨-, hother⟩
  · have hpasses : Passes (us ++ [t]) c (c.expr room).2 := .moveTo (by simpa using hrest)
    rw [hexpr] at hpasses
    cases hf
    refine ⟨c.position + us.length, t, firstStray_add (h.drop.trans hrest) ht hus hnothing, ?_, ht,
      rfl, rfl, ?_⟩
    · rw [h.getElem?_add, hrest]
      simp
    · rw [hpasses.position, List.length_append, List.length_singleton, Nat.add_assoc]
  · exact absurd htext hother

theorem ended_of_expr (h : Over ts c) {room : Nat} {f : Fault}
    (hexpr : c.expr room = (.error (.fault f), d))
    (htext : f.text = "Missing closing delimiter ')'" ∨
      f.text = "Quote is missing its expression") : d.position = ts.length := by
  have hd : (c.expr room).2 = d := congrArg Prod.snd hexpr
  obtain ⟨us, hus, -⟩ := passes_expr room c
  rw [hd] at hus
  rcases (outcome_readExpr room c.rest).fault_cases (congrArg Prod.fst hexpr) with
    ⟨_, t, -, -, -, -, hf⟩ | ⟨hrest, -⟩
  · have hcause : f.text = Cause.unexpectedClose.text := by
      cases hf
      rfl
    rw [hcause] at htext
    exact absurd htext (by decide)
  · exact (h.passes hus).rest_eq_nil_iff.mp (hd ▸ hrest)

theorem ends (h : Over ts d) {room : Nat} {vs : List Value}
    {r : Except Failure (List Value) × Cursor} (hends : Ends room vs d r) :
    d.position = ts.length ∧ r = (.ok vs, d) ∨
      ∃ e d', d.position < ts.length ∧ d.expr room = (.error e, d') ∧ r = (.error e, d') := by
  cases hends with
  | complete hrest => exact .inl ⟨h.rest_eq_nil_iff.mp hrest, rfl⟩
  | failed hrest hexpr => exact .inr ⟨_, _, h.rest_ne_nil_iff.mp hrest, hexpr, rfl⟩

end Over

theorem advance_fst (c : Cursor) : c.advance.1 = c.peek := by
  rcases c with ⟨p, _ | ⟨t, ts⟩⟩ <;> rfl

/-- A cursor over any tokens, whatever has been called on it. It shows the token at its position, if
there is one, and takes it when it advances. Later calls never bring it back, nor beyond the last
token. Reading an expression brings it forward unless it is at the end, whether there is a value or
not. Where a closing parenthesis is unexpected, it is the first one from the position on that closes
nothing, and the cursor stops behind it; where a closing parenthesis or a quoted expression is
missing, the cursor stops at the end. Reading all expressions stops at the end, or where the first
one stops that cannot be read. So as many attempts to read an expression as there are tokens lead to
the end. -/
theorem calls_make_progress (ts : List Token) (calls : List Call) :
    let c := (start ts).run calls
    (c.peek = ts[c.position]? ∧ (c.atEnd = true ↔ c.position = ts.length) ∧
      c.advance.1 = c.peek ∧ c.advance.2.position = min (c.position + 1) ts.length) ∧
    (∀ more, c.position ≤ (c.run more).position ∧ (c.run more).position ≤ ts.length) ∧
    (∀ room, c.position < ts.length → c.position < (c.expr room).2.position) ∧
    (∀ room f d, c.expr room = (.error (.fault f), d) →
      (f.text = "Unexpected closing delimiter ')'" →
        ∃ i t, FirstStray ts c.position i ∧ ts[i]? = some t ∧ t.text = ")" ∧ f.line = t.line ∧
          f.column = t.column ∧ d.position = i + 1) ∧
      (f.text = "Missing closing delimiter ')'" ∨ f.text = "Quote is missing its expression" →
        d.position = ts.length)) ∧
    (∀ room, ∃ vs d, Reads room c vs d ∧
      (d.position = ts.length ∧ c.exprs room = (.ok vs, d) ∨
        ∃ e d', d.position < ts.length ∧ d.expr room = (.error e, d') ∧
          c.exprs room = (.error e, d'))) ∧
    (ts.length ≤ calls.countP Call.isExpr → c.position = ts.length) := by
  intro c
  have hover : Over ts c := (over_start ts).run calls
  refine ⟨⟨hover.peek_eq, hover.atEnd_iff, advance_fst c, hover.position_advance⟩, ?_, ?_, ?_, ?_,
    ?_⟩
  · intro more
    obtain ⟨us, hus, -⟩ := passes_run more c
    exact ⟨hus.position_le, (hover.passes hus).position_le⟩
  · intro room hlt
    obtain ⟨us, hus, hne⟩ := passes_expr room c
    have hpos := List.length_pos_iff.mpr (hne (hover.rest_ne_nil_iff.mpr hlt))
    rw [hus.position]
    omega
  · intro room f d h
    exact ⟨hover.stray_of_expr h, hover.ended_of_expr h⟩
  · intro room
    obtain ⟨vs, d, hreads, hends⟩ := exists_reads_exprs room c
    obtain ⟨us, hus⟩ := hreads.passes
    exact ⟨vs, d, hreads, (hover.passes hus).ends hends⟩
  · intro hmany
    obtain ⟨us, hus, hlong⟩ := passes_run calls (start ts)
    have hle := hover.position_le
    have hposition : c.position = 0 + us.length := hus.position
    have hall : (start ts).rest.length = ts.length := rfl
    omega

/-- Both closing parentheses close nothing, and the last quotation mark quotes nothing. -/
example :
    let c := start (bare [")", "a", "(", "b", "'", ")", "(", "'"])
    let calls : List Call := [.expr 9, .next 9, .exprs 9, .peek, .expr 9]
    (List.range 6).map (fun k => (c.run (calls.take k)).position) = [0, 1, 2, 6, 6, 8] := by
  decide +kernel

end Cursor

end PocketLisp
