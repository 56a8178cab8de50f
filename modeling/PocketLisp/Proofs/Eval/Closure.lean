import PocketLisp.Proofs.Eval.Answer
import PocketLisp.Proofs.Eval.Origin

/-!
The failures that evaluation is closed under: it comes to a value of the language or to a fault,
unless the host frames run out or an integer with too many digits has to be written. Where that is
so in the course of a run is said as well: an operator has to show it to say why it fails, or a
listener insists on a record of it. In what has been read there is no such integer; in what has
not, it may also stand in a head, or where a special form refuses an operand.
-/
namespace PocketLisp

/-- A listener that asks for the records of debugging and does not do without one. -/
def Listener.Insists (l : Listener) : Prop := l.patient = false ∧ l.rank ≤ Level.debug.rank

theorem Listener.insists_of_copes {l : Listener} {v : Value} (h : l.copes v = false) :
    l.Insists ∧ v.HoldsLong := by
  obtain ⟨⟨hpatient, hrank⟩, hv⟩ :
      (l.patient = false ∧ l.rank ≤ Level.debug.rank) ∧ v.isWritable = false := by
    simpa [copes] using h
  exact ⟨⟨hpatient, hrank⟩, Value.holdsLong_iff.mpr hv⟩

namespace Stage

/-- An operator fails and cannot say why: it would have to show an integer with too many digits. -/
inductive Speechless (c : Conditions) : Stage → Prop
  | operator {room depth name operands s op vs s'} (hop : Operator.ofName? name = some op)
      (h : Runs c room depth (.all operands) s (.ok (.list vs), s'))
      (happly : op.apply room vs = .error (.escape .printLimit)) (hlong : op.Overlong vs) :
      Speechless c ⟨room, depth, .form name operands, s⟩

/-- An integer with too many digits has to be written: an operator cannot say why it fails, or the
listener insists on the record of what is assigned, or of the arguments of a call. -/
inductive Strained (c : Conditions) : Stage → Prop
  | operator {q : Stage} (h : q.Speechless c) : Strained c q
  | assigned {room depth name operands s f x e v s'} (hf : SpecialForm.ofName? name = some f)
      (hq : f.check operands = .ok (.assign x e))
      (h : Runs c (room - 1) depth (.expr e) s (.ok v, s')) (hl : c.listener.Insists)
      (hlong : v.HoldsLong) : Strained c ⟨room, depth, .form name operands, s⟩
  | called {room depth name operands s f vs s'} (hfun : s.env.getFunction name = .ok f)
      (h : Runs c (room - 1) depth (.all operands) s (.ok (.list vs), s'))
      (hl : c.listener.Insists) (hlong : (Value.list vs).HoldsLong) :
      Strained c ⟨room, depth, .form name operands, s⟩

/-- In what is to be evaluated there is an integer with too many digits, where it has to be written:
in a head, or in what a special form refuses. -/
inductive Outsized : Stage → Prop
  | head {room depth head operands s} (h : head.HoldsLong) :
      Outsized ⟨room, depth, .expr (.list (head :: operands)), s⟩
  | refusal {room depth name operands s f cause v} (hf : SpecialForm.ofName? name = some f)
      (hq : f.check operands = .error (.showing cause v)) (h : v.HoldsLong) :
      Outsized ⟨room, depth, .form name operands, s⟩

end Stage

/-- The failures that can be met: the host frames run out, there is a fault other than that
something is no expression, or an integer cannot be written, for which there is a reason. -/
inductive Admissible (reason : Prop) : Failure → Prop
  | exhausted : Admissible reason (.escape .exhausted)
  | fault {f : Fault} (h : ∀ shown, f.cause ≠ .cannotEvaluate shown) : Admissible reason (.fault f)
  | unwritable (h : reason) : Admissible reason (.escape .printLimit)

namespace Admissible

variable {reason : Prop} {err : Failure}

theorem congr {e : Failure} (h : Admissible reason e) (he : e.reason = err.reason) :
    Admissible reason err := by
  cases err with
  | fault f =>
    cases h with
    | exhausted | unwritable => cases he
    | fault hcause => exact .fault (Sum.inl.inj he ▸ hcause)
  | escape x =>
    cases h with
    | exhausted =>
      obtain rfl := Sum.inr.inj he
      exact .exhausted
    | fault => cases he
    | unwritable hreason =>
      obtain rfl := Sum.inr.inj he
      exact .unwritable hreason

theorem mono {reason' : Prop} (h : Admissible reason err) (himp : reason → reason') :
    Admissible reason' err := by
  cases h with
  | exhausted => exact .exhausted
  | fault hcause => exact .fault hcause
  | unwritable hreason => exact .unwritable (himp hreason)

theorem of_answers {a : Verdict} (h : Answers (.error err) a)
    (hreason : err = .escape .printLimit → a = .unwritable → reason) : Admissible reason err := by
  cases h with
  | exhausted => exact .exhausted
  | fault hcause => exact .fault hcause
  | unwritable => exact .unwritable (hreason rfl rfl)

theorem of_hear {l : Listener} {room : Nat} {e : Event} {v : Value} {x : Escape} (he : e.Shows v)
    (hv : v.isProper = true) (h : l.hear room e = .error x)
    (hreason : l.Insists → v.HoldsLong → reason) : Admissible reason (.escape x) := by
  rcases l.hear_cases he hv room with hhear | ⟨-, hhear⟩ | ⟨hcopes, hhear⟩
  · cases h.symm.trans hhear
    exact .exhausted
  · cases h.symm.trans hhear
  · cases h.symm.trans hhear
    obtain ⟨hl, hlong⟩ := Listener.insists_of_copes hcopes
    exact .unwritable (hreason hl hlong)

end Admissible

open Reader

theorem Stage.Fails.admissible {E : Value → Prop} {S : Env → Prop} (upkeep : Upkeep E S)
    {c : Conditions} {q : Stage} {err : Failure} (h : q.Fails c err) (ht : q.task.Only E)
    (hs : S q.state.env) : Admissible (q.Strained c ∨ q.Outsized) err := by
  have part : ∀ {u : Task}, u.Part q.task → u.Only E := fun h => ht.part upkeep.item h
  cases h with
  | exhausted => exact .exhausted
  | foreign => cases upkeep.proper ht
  | @nameless room depth head operands s x hname =>
    have hproper := upkeep.proper (upkeep.item ht List.mem_cons_self)
    rw [operatorName_of_isProper hproper] at hname
    rcases Value.writeWithin_cases Style.plain_printed hproper room with
      hw | ⟨-, _, hw⟩ | ⟨hlong, hw⟩
    · cases hname.symm.trans hw
      exact .exhausted
    · cases hname.symm.trans hw
    · cases hname.symm.trans hw
      exact .unwritable (.inr (.head (Value.holdsLong_iff.mpr hlong)))
  | @malformed room _ _ _ _ _ x hf hq =>
    have hanswers := SpecialForm.answers_check hq (fun v hv => upkeep.proper (ht v hv)) room
    refine .of_answers hanswers fun _ hverdict => .inr ?_
    cases x with
    | plain cause => cases hverdict
    | showing cause v => exact .refusal hf hq (Verdict.holdsLong_of_showing hverdict)
  | assignUnheard hf hq h hhear =>
    have hv := (h.upheld upkeep (part (.assigned hq)) hs).2 _ rfl
    exact .of_hear .assigned hv hhear fun hl hlong => .inl (.assigned hf hq h hl hlong)
  | defineUnheard _ hq hhear =>
    cases hhear.symm.trans (c.listener.hear_defined _ _ (SpecialForm.of_check_define hq).2.2)
  | @operator room depth name operands s op vs s' err _ hop h happly =>
    have hvs := Value.isProperList_iff.mp ((h.upheld upkeep (part .operands) hs).2 _ rfl)
    have hanswers := op.answers_apply room hvs
    rw [happly] at hanswers
    refine .of_answers hanswers fun herr hreply => ?_
    exact .inl (.operator (.operator hop h (herr ▸ happly) (Operator.overlong_of_reply hreply)))
  | undefined _ _ hfun =>
    obtain ⟨-, rfl⟩ := Env.of_getFunction_error hfun
    exact .fault fun _ hcause => nomatch hcause
  | arity => exact .fault fun _ hcause => nomatch hcause
  | tooDeep => exact .fault fun _ hcause => nomatch hcause
  | unbindable _ _ hfun _ _ _ hparams =>
    cases hparams.symm.trans (upkeep.params hs (Env.functionOf?_of_getFunction hfun))
  | callUnheard _ _ hfun h _ _ _ hhear =>
    have hvs := (h.upheld upkeep (part .operands) hs).2 _ rfl
    exact .of_hear .called hvs hhear fun hl hlong => .inl (.called hfun h hl hlong)

section Runs

variable {c : Conditions} {room : Nat} {depth : Int} {t : Task} {s : EvalState}
  {r : Except Failure Value × EvalState} {err : Failure}

/-- Evaluation under conditions that it keeps up ends with a value of the language or with a failure
that can be met. -/
theorem Runs.admissible {E : Value → Prop} {S : Env → Prop} (upkeep : Upkeep E S)
    (h : Runs c room depth t s r) (ht : t.Only E) (hs : S s.env) (herr : r.1 = .error err) :
    Admissible (∃ q, Stage.Reaches c ⟨room, depth, t, s⟩ q ∧ (q.Strained c ∨ q.Outsized)) err := by
  obtain ⟨q, e, hreach, hfails, hreason⟩ := h.origin herr
  obtain ⟨htask, hstate⟩ := (upkeep.lasting c).reaches hreach ⟨ht, hs⟩
  exact ((hfails.admissible upkeep htask hstate).mono fun hq => ⟨q, hreach, hq⟩).congr hreason

theorem Stage.Outsized.not_legible {q : Stage} (h : q.Outsized) : ¬q.task.Only Legible := by
  have written : ∀ {v : Value}, v.HoldsLong → ¬Legible v := by
    intro v hlong hv
    cases (isWritable_of_legible hv).symm.trans (Value.holdsLong_iff.mp hlong)
  intro ht
  cases h with
  | head hlong => exact written hlong (ht.item List.mem_cons_self)
  | @refusal _ _ _ operands _ f _ _ _ hq hlong =>
    have hchecked := f.checked operands
    rw [hq] at hchecked
    cases hchecked with
    | showing _ hv =>
      rcases hv with hv | ⟨items, hitems, hv⟩
      · exact written hlong (ht _ hv)
      · exact written hlong ((ht _ hitems).item hv)

theorem Runs.admissible_of_sound (h : Runs c room depth t s r) (ht : t.Only Legible)
    (hs : s.env.Sound) (herr : r.1 = .error err) :
    Admissible (∃ q, Stage.Reaches c ⟨room, depth, t, s⟩ q ∧ q.Strained c) err := by
  refine (h.admissible upkeep_sound ht hs herr).mono ?_
  rintro ⟨q, hreach, hstrained | houtsized⟩
  · exact ⟨q, hreach, hstrained⟩
  · obtain ⟨htask, -⟩ := (lasting_sound c).reaches hreach ⟨ht, hs⟩
    exact absurd htask houtsized.not_legible

end Runs

end PocketLisp
