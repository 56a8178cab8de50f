import PocketLisp.Proofs.Session.Invariant

/-!
Evaluating all of a text: it is read to its end first, and then its expressions are evaluated in
order, each in the session that the one before leaves. So two texts one after the other, with a
newline between them, are evaluated as the first and then the second.
-/
namespace PocketLisp

namespace Token

theorem words_newline (a b : String) : words (a ++ "\n" ++ b) = words a ++ words b := by
  have hchars : (a ++ "\n" ++ b).toList = a.toList ++ '\n' :: b.toList := by simp
  rw [words_eq, words_eq, words_eq, hchars, lexemes_append_blank Text.isBlank_newline]

end Token

namespace Reader

open Token

theorem parseAll_newline {room : Nat} {a b : String} {es fs : List Value}
    (ha : parseAll room a = .ok es) (hb : parseAll room b = .ok fs) :
    parseAll room (a ++ "\n" ++ b) = .ok (es ++ fs) := by
  obtain ⟨hes, hesroom⟩ := Chunk.parseAll_ok_iff_words.mp ha
  obtain ⟨hfs, hfsroom⟩ := Chunk.parseAll_ok_iff_words.mp hb
  rw [Chunk.parseAll_ok_iff_words, words_newline, Value.nestingList_append]
  exact ⟨hes.append hfs, Nat.max_le.mpr ⟨hesroom, hfsroom⟩⟩

/-- Expressions that are nested deeper than there are host frames cannot be read for that. -/
theorem parseAll_exhausted {room : Nat} {s : String} {es : List Value}
    (h : DerivesAll (words s) es) (hroom : room < Value.nestingList es) :
    parseAll room s = .error (.escape .exhausted) := by
  rcases readAll_cases room (Token.ofText s) with ⟨vs, hread⟩ | ⟨e, rest, hread, hfails⟩
  · obtain ⟨-, hvs, hlevels⟩ := readAll_ok_iff.mp hread
    rw [← hvs.unique h] at hroom
    exact absurd hlevels (Nat.not_le.mpr hroom)
  · rw [parseAll, hread]
    obtain ⟨x, rfl⟩ := hfails.escape_of_settled (settled_of_derivesAll h)
    cases hfails with
    | exhausted => rfl
    | unreadable ht hx =>
      obtain ⟨v, hv⟩ := hasValue_of_derivesAll h _ (List.mem_map_of_mem ht)
      rw [hx] at hv
      cases hv

end Reader

namespace Session

open Reader

/-- Running out of host frames, told as a fault; any other failure as it is. -/
def told (c : Cause) : Failure → Failure
  | .escape .exhausted => .because c
  | e => e

theorem asFault_error {α : Type} (c : Cause) (e : Failure) :
    (asFault c (.error e) : Except Failure α) = .error (told c e) := by
  cases e with
  | fault f => rfl
  | escape x => cases x <;> rfl

/-- Expressions evaluated one after the other, each in the session that the one before leaves: their
values, and the session in the end. -/
inductive InOrder : List Value → Session → List Value → Session → Prop
  | nil {s : Session} : InOrder [] s [] s
  | cons {e v : Value} {es vs : List Value} {s t : Session} (h : (outcome e s).1 = .ok v)
      (hs : InOrder es (run e s).2 vs t) : InOrder (e :: es) s (v :: vs) t

theorem run_of_outcome_ok {e v : Value} {s : Session} (h : (outcome e s).1 = .ok v) :
    run e s = (.ok v, (run e s).2) := by
  rw [run_eq, h]
  rfl

theorem run_of_outcome_error {e : Value} {s : Session} {err : Failure}
    (h : (outcome e s).1 = .error err) :
    run e s = (.error (told .evaluatorExhausted err), (run e s).2) := by
  rw [run_eq, h, asFault_error]

theorem InOrder.runAll {es vs : List Value} {s t : Session} (h : InOrder es s vs t) :
    runAll es s = (.ok vs, t) := by
  induction h with
  | nil => rfl
  | cons h _ ih => exact runAll_cons_of (run_of_outcome_ok h) ih

/-- Either all expressions have values, or there is a first one that fails. -/
theorem inOrder_or_fails (es : List Value) (s : Session) :
    (∃ vs t, InOrder es s vs t) ∨
    ∃ before e later vs t err, es = before ++ e :: later ∧ InOrder before s vs t ∧
      (outcome e t).1 = .error err := by
  induction es generalizing s with
  | nil => exact .inl ⟨[], s, .nil⟩
  | cons e es ih =>
    cases he : (outcome e s).1 with
    | error err => exact .inr ⟨[], e, es, [], s, err, rfl, .nil, he⟩
    | ok v =>
      rcases ih (run e s).2 with ⟨vs, t, hes⟩ | ⟨before, x, later, vs, t, err, rfl, hbefore, hx⟩
      · exact .inl ⟨v :: vs, t, .cons he hes⟩
      · exact .inr ⟨e :: before, x, later, v :: vs, t, err, rfl, .cons he hbefore, hx⟩

theorem InOrder.append {es fs vs ws : List Value} {s t u : Session} (h : InOrder es s vs t)
    (hs : InOrder fs t ws u) : InOrder (es ++ fs) s (vs ++ ws) u := by
  induction h with
  | nil => exact hs
  | cons he _ ih => exact .cons he (ih hs)

theorem runAll_append (es fs : List Value) (s : Session) :
    runAll (es ++ fs) s =
      (do
        let vs ← runAll es
        let ws ← runAll fs
        pure (vs ++ ws) : Run Session (List Value)) s := by
  rcases inOrder_or_fails es s with ⟨vs, t, hes⟩ | ⟨before, e, later, vs, t, err, rfl, hbefore, he⟩
  · rw [Run.bind_ok hes.runAll]
    rcases inOrder_or_fails fs t with
      ⟨ws, u, hfs⟩ | ⟨before, e, later, ws, u, err, rfl, hbefore, he⟩
    · rw [Run.bind_ok hfs.runAll]
      exact (hes.append hfs).runAll
    · have hfails := run_of_outcome_error he
      rw [Run.bind_error (runAll_append_error hbefore.runAll hfails), ← List.append_assoc]
      exact runAll_append_error (hes.append hbefore).runAll hfails
  · have hfails := run_of_outcome_error he
    rw [Run.bind_error (runAll_append_error hbefore.runAll hfails), List.append_assoc,
      List.cons_append]
    exact runAll_append_error hbefore.runAll hfails

theorem evaluateAll_of_error {code : String} {e : Failure} {s : Session}
    (h : parseAll s.host.frames code = .error e) :
    evaluateAll code s = (.error (told .readerExhausted e), s) := by
  have hread : reading parseAll code s = (.error (told .readerExhausted e), s) := by
    rw [reading, h, asFault_error]
  exact Run.bind_error hread

theorem evaluateAll_newline {a b : String} {es fs : List Value} {s : Session}
    (ha : parseAll s.host.frames a = .ok es) (hb : parseAll s.host.frames b = .ok fs) :
    evaluateAll (a ++ "\n" ++ b) s =
      (do
        let vs ← evaluateAll a
        let ws ← evaluateAll b
        pure (vs ++ ws) : Run Session (List Value)) s := by
  rw [evaluateAll_of_parseAll (parseAll_newline ha hb), runAll_append]
  rcases hes : runAll es s with ⟨err | vs, t⟩
  · have hfirst := (evaluateAll_of_parseAll ha).trans hes
    rw [Run.bind_error hes, Run.bind_error hfirst]
  · have hfirst := (evaluateAll_of_parseAll ha).trans hes
    -- the frames are still the same, so the second text is read as before
    have hsecond := evaluateAll_of_parseAll (s := t) (by rw [frames_runAll hes, hb])
    rw [Run.bind_ok hes, Run.bind_ok hfirst]
    rcases hfs : runAll fs t with ⟨err | ws, u⟩
    · rw [Run.bind_error hfs, Run.bind_error (hsecond.trans hfs)]
    · rw [Run.bind_ok hfs, Run.bind_ok (hsecond.trans hfs)]

/-- A text is read to its end before any of it is evaluated. If it cannot be read, evaluating it
fails for that, and the session is left as it was. Otherwise its expressions are evaluated in order,
each in the session that the one before leaves: if all have values, these are the result; the first
that fails is the failure of the whole, and the session is the one that it leaves. A lack of host
frames is told as a fault, and any other failure as it is. Two texts with a newline between them are
evaluated as the first and then, if that has values, the second. -/
theorem evaluateAll_reads_then_runs (s : Session) :
    (∀ code e, parseAll s.host.frames code = .error e →
      evaluateAll code s = (.error (told .readerExhausted e), s)) ∧
    (∀ code es, parseAll s.host.frames code = .ok es →
      (∃ vs t, InOrder es s vs t ∧ evaluateAll code s = (.ok vs, t)) ∨
      ∃ before e later vs t err, es = before ++ e :: later ∧ InOrder before s vs t ∧
        (outcome e t).1 = .error err ∧
        evaluateAll code s = (.error (told .evaluatorExhausted err), (run e t).2)) ∧
    ∀ a b es fs, parseAll s.host.frames a = .ok es → parseAll s.host.frames b = .ok fs →
      evaluateAll (a ++ "\n" ++ b) s =
        (do
          let vs ← evaluateAll a
          let ws ← evaluateAll b
          pure (vs ++ ws) : Run Session (List Value)) s := by
  refine ⟨fun code e => evaluateAll_of_error, ?_, fun a b es fs => evaluateAll_newline⟩
  intro code es h
  rw [evaluateAll_of_parseAll h]
  rcases inOrder_or_fails es s with ⟨vs, t, hes⟩ | ⟨before, e, later, vs, t, err, rfl, hbefore, he⟩
  · exact .inl ⟨vs, t, hes, hes.runAll⟩
  · have hfails : runAll (before ++ e :: later) s = _ :=
      runAll_append_error hbefore.runAll (run_of_outcome_error he)
    exact .inr ⟨before, e, later, vs, t, err, rfl, hbefore, he, hfails⟩

/-- A text of lists in lists, more of them than there are host frames: that it cannot be read for
the lack of frames is told as a fault. -/
theorem evaluateAll_nestText :
    let s := opened (some 1) (.initial [] .quiet)
    parseAll s.host.frames (nestText 2999) = .error (.escape .exhausted) ∧
    evaluateAll (nestText 2999) s = (.error (.because .readerExhausted), s) ∧
    evaluateAll (nestText 2999) s ≠ (.error (.escape .exhausted), s) := by
  intro s
  have hderives := DerivesAll.single (derives_of_spells (spells_nest 2999))
  have hdeep : s.host.frames < Value.nestingList [nest 2999] := by
    rw [Value.nestingList, Value.nestingList, nesting_nest]
    decide
  have hread := parseAll_exhausted hderives hdeep
  have hevaluate : evaluateAll (nestText 2999) s = (.error (.because .readerExhausted), s) :=
    evaluateAll_of_error hread
  refine ⟨hread, hevaluate, ?_⟩
  rw [hevaluate]
  intro hsame
  cases hsame

end Session

end PocketLisp
