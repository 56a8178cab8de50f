import Mathlib.Logic.Relation
import PocketLisp.Proofs.Eval.Course

/-!
Where a failure comes from. A run opens other runs: of the parts of its task, one after the other,
and of the bodies of called functions. A run that fails has opened one that fails, or it fails of
itself; so every failure is that of a run that fails of itself, and only a form to blame may have
been added on the way.
-/
namespace PocketLisp

/-- The start of a run: the host frames left, the call depth, what there is to do, and the state. -/
structure Stage where
  room : Nat
  depth : Int
  task : Task
  state : EvalState

namespace Stage

open SpecialForm

/-- In the course of a run, when all that it has opened before has come to values, another run
starts. -/
inductive Opens (c : Conditions) : Stage → Stage → Prop
  | form {room depth head operands s name} (hname : operatorName room head = .ok name) :
      Opens c ⟨room + 1, depth, .expr (.list (head :: operands)), s⟩
        ⟨room, depth, .form name operands, s⟩
  | assigned {room depth name operands s f x e} (hf : ofName? name = some f)
      (hq : f.check operands = .ok (.assign x e)) :
      Opens c ⟨room, depth, .form name operands, s⟩ ⟨room - 1, depth, .expr e, s⟩
  | selected {room depth name operands s f cs} (hf : ofName? name = some f)
      (hq : f.check operands = .ok (.select cs)) :
      Opens c ⟨room, depth, .form name operands, s⟩ ⟨room - 1, depth, .clauses cs, s⟩
  | operands {room depth name operands s op} (hf : ofName? name = none)
      (hop : Operator.ofName? name = some op) :
      Opens c ⟨room, depth, .form name operands, s⟩ ⟨room, depth, .all operands, s⟩
  | arguments {room depth name operands s f} (hf : ofName? name = none)
      (hop : Operator.ofName? name = none) (hfun : s.env.getFunction name = .ok f) :
      Opens c ⟨room, depth, .form name operands, s⟩ ⟨room - 1, depth, .all operands, s⟩
  | body {room depth name operands s f vs s'} (hf : ofName? name = none)
      (hop : Operator.ofName? name = none) (hfun : s.env.getFunction name = .ok f)
      (h : Runs c (room - 1) depth (.all operands) s (.ok (.list vs), s'))
      (hlen : vs.length = f.arity) (hdepth : depth < c.limit)
      (hparams : f.params.any Value.isList = false)
      (hhear : c.listener.hear room (.called name vs (depth + 1)) = .ok ()) :
      Opens c ⟨room, depth, .form name operands, s⟩
        ⟨room - 1, depth + 1, .expr f.body, s'.enter name f vs (depth + 1)⟩
  | first {room depth e es s} :
      Opens c ⟨room, depth, .all (e :: es), s⟩ ⟨room, depth, .expr e, s⟩
  | rest {room depth e es s v s'} (h : Runs c room depth (.expr e) s (.ok v, s')) :
      Opens c ⟨room, depth, .all (e :: es), s⟩ ⟨room, depth, .all es, s'⟩
  | otherwise {room depth test result cs s} (htest : isOtherwise test = true) :
      Opens c ⟨room, depth, .clauses ((test, result) :: cs), s⟩ ⟨room, depth, .expr result, s⟩
  | test {room depth test result cs s} (htest : isOtherwise test = false) :
      Opens c ⟨room, depth, .clauses ((test, result) :: cs), s⟩ ⟨room, depth, .expr test, s⟩
  | result {room depth test result cs s v s'} (htest : isOtherwise test = false)
      (h : Runs c room depth (.expr test) s (.ok v, s')) (hv : v.isTruthy = true) :
      Opens c ⟨room, depth, .clauses ((test, result) :: cs), s⟩ ⟨room, depth, .expr result, s'⟩
  | later {room depth test result cs s v s'} (htest : isOtherwise test = false)
      (h : Runs c room depth (.expr test) s (.ok v, s')) (hv : v.isTruthy = false) :
      Opens c ⟨room, depth, .clauses ((test, result) :: cs), s⟩ ⟨room, depth, .clauses cs, s'⟩

/-- In the course of a run, be it in one that it has opened, another run starts. -/
abbrev Reaches (c : Conditions) : Stage → Stage → Prop := Relation.ReflTransGen (Opens c)

/-- A run fails of itself: all that it has opened, if anything, has come to values. -/
inductive Fails (c : Conditions) : Stage → Failure → Prop
  | exhausted {depth e s} : Fails c ⟨0, depth, .expr e, s⟩ (.escape .exhausted)
  | foreign {room depth x s} :
      Fails c ⟨room + 1, depth, .expr (.foreign x), s⟩ (.because (.cannotEvaluate x.inspect))
  | nameless {room depth head operands s x} (hname : operatorName room head = .error x) :
      Fails c ⟨room + 1, depth, .expr (.list (head :: operands)), s⟩ (.escape x)
  | malformed {room depth name operands s f x} (hf : ofName? name = some f)
      (hq : f.check operands = .error x) :
      Fails c ⟨room, depth, .form name operands, s⟩ (x.failure room)
  | assignUnheard {room depth name operands s f x e v s' err} (hf : ofName? name = some f)
      (hq : f.check operands = .ok (.assign x e))
      (h : Runs c (room - 1) depth (.expr e) s (.ok v, s'))
      (hhear : c.listener.hear room (.assigned x v) = .error err) :
      Fails c ⟨room, depth, .form name operands, s⟩ (.escape err)
  | defineUnheard {room depth name operands s f x g err} (hf : ofName? name = some f)
      (hq : f.check operands = .ok (.define x g))
      (hhear : c.listener.hear room (.defined x g.params) = .error err) :
      Fails c ⟨room, depth, .form name operands, s⟩ (.escape err)
  | operator {room depth name operands s op vs s' err} (hf : ofName? name = none)
      (hop : Operator.ofName? name = some op)
      (h : Runs c room depth (.all operands) s (.ok (.list vs), s'))
      (happly : op.apply room vs = .error err) :
      Fails c ⟨room, depth, .form name operands, s⟩ err
  | undefined {room depth name operands s x} (hf : ofName? name = none)
      (hop : Operator.ofName? name = none) (hfun : s.env.getFunction name = .error x) :
      Fails c ⟨room, depth, .form name operands, s⟩ (.fault x)
  | arity {room depth name operands s f vs s'} (hf : ofName? name = none)
      (hop : Operator.ofName? name = none) (hfun : s.env.getFunction name = .ok f)
      (h : Runs c (room - 1) depth (.all operands) s (.ok (.list vs), s'))
      (hlen : vs.length ≠ f.arity) :
      Fails c ⟨room, depth, .form name operands, s⟩
        (.because (.arity ("function " ++ name) (.exactly f.arity) vs.length))
  | tooDeep {room depth name operands s f vs s'} (hf : ofName? name = none)
      (hop : Operator.ofName? name = none) (hfun : s.env.getFunction name = .ok f)
      (h : Runs c (room - 1) depth (.all operands) s (.ok (.list vs), s'))
      (hlen : vs.length = f.arity) (hdepth : c.limit ≤ depth) :
      Fails c ⟨room, depth, .form name operands, s⟩ (.because (.callDepth c.limit name))
  | unbindable {room depth name operands s f vs s'} (hf : ofName? name = none)
      (hop : Operator.ofName? name = none) (hfun : s.env.getFunction name = .ok f)
      (h : Runs c (room - 1) depth (.all operands) s (.ok (.list vs), s'))
      (hlen : vs.length = f.arity) (hdepth : depth < c.limit)
      (hparams : f.params.any Value.isList = true) :
      Fails c ⟨room, depth, .form name operands, s⟩ (.escape .listAsName)
  | callUnheard {room depth name operands s f vs s' err} (hf : ofName? name = none)
      (hop : Operator.ofName? name = none) (hfun : s.env.getFunction name = .ok f)
      (h : Runs c (room - 1) depth (.all operands) s (.ok (.list vs), s'))
      (hlen : vs.length = f.arity) (hdepth : depth < c.limit)
      (hparams : f.params.any Value.isList = false)
      (hhear : c.listener.hear room (.called name vs (depth + 1)) = .error err) :
      Fails c ⟨room, depth, .form name operands, s⟩ (.escape err)

end Stage

def Failure.reason : Failure → Cause ⊕ Escape
  | .fault f => .inl f.cause
  | .escape x => .inr x

theorem reason_of_blamed {form : Value} {r : Except Failure Value} {err : Failure}
    (h : blamed form r = .error err) : ∃ e, r = .error e ∧ e.reason = err.reason := by
  rcases r with (f | x) | v
  · cases h
    exact ⟨.fault f, rfl, by simp [Failure.reason]⟩
  · cases h
    exact ⟨.escape x, rfl, rfl⟩
  · cases h

namespace Stage

section Opens

variable {c : Conditions} {room : Nat} {depth : Int} {name : String} {operands : List Value}
  {s : EvalState} {q : Stage}

theorem Opens.of_assign {f : SpecialForm} {x : String} {e : Value}
    (h : Opens c ⟨room, depth, .form name operands, s⟩ q) (hf : SpecialForm.ofName? name = some f)
    (hq : f.check operands = .ok (.assign x e)) : q = ⟨room - 1, depth, .expr e, s⟩ := by
  cases h with
  | assigned hf' hq' =>
    cases hf.symm.trans hf'
    cases hq.symm.trans hq'
    rfl
  | selected hf' hq' =>
    cases hf.symm.trans hf'
    cases hq.symm.trans hq'
  | operands hf' | arguments hf' | body hf' => cases hf.symm.trans hf'

theorem Opens.of_operator {op : Operator} (h : Opens c ⟨room, depth, .form name operands, s⟩ q)
    (hf : SpecialForm.ofName? name = none) (hop : Operator.ofName? name = some op) :
    q = ⟨room, depth, .all operands, s⟩ := by
  cases h with
  | assigned hf' | selected hf' => cases hf.symm.trans hf'
  | operands => rfl
  | arguments _ hop' | body _ hop' => cases hop.symm.trans hop'

end Opens

/-- The failure of a run is that of one that fails of itself. -/
def Origin (c : Conditions) (p : Stage) (err : Failure) : Prop :=
  ∃ q e, Reaches c p q ∧ q.Fails c e ∧ e.reason = err.reason

variable {c : Conditions} {p q : Stage} {err : Failure}

theorem Fails.origin (h : p.Fails c err) : Origin c p err := ⟨p, err, .refl, h, rfl⟩

theorem Origin.opened (h : Origin c q err) (hopens : p.Opens c q) : Origin c p err := by
  obtain ⟨q', e, hreach, hfails, hreason⟩ := h
  exact ⟨q', e, hreach.head hopens, hfails, hreason⟩

theorem Origin.congr {e : Failure} (h : Origin c p e) (hreason : e.reason = err.reason) :
    Origin c p err := by
  obtain ⟨q, e', hreach, hfails, hsame⟩ := h
  exact ⟨q, e', hreach, hfails, hsame.trans hreason⟩

end Stage

/-- Every failure comes from a run that fails of itself. -/
theorem Runs.origin {c : Conditions} {room : Nat} {depth : Int} {t : Task} {s : EvalState}
    {r : Except Failure Value × EvalState} (h : Runs c room depth t s r) {err : Failure}
    (herr : r.1 = .error err) : Stage.Origin c ⟨room, depth, t, s⟩ err := by
  induction h generalizing err with
  | num | sym | empty | quote | assign | define | nil | cons | noClause => cases herr
  | exhausted =>
    cases herr
    exact Stage.Fails.exhausted.origin
  | foreign =>
    cases herr
    exact Stage.Fails.foreign.origin
  | nameless hname =>
    cases herr
    exact (Stage.Fails.nameless hname).origin
  | form hname _ ih =>
    obtain ⟨e, he, hreason⟩ := reason_of_blamed herr
    exact ((ih he).opened (.form hname)).congr hreason
  | malformed hf hq =>
    cases herr
    exact (Stage.Fails.malformed hf hq).origin
  | assignFails hf hq _ ih => exact (ih herr).opened (.assigned hf hq)
  | assignUnheard hf hq h hhear =>
    cases herr
    exact (Stage.Fails.assignUnheard hf hq h hhear).origin
  | defineUnheard hf hq hhear =>
    cases herr
    exact (Stage.Fails.defineUnheard hf hq hhear).origin
  | select hf hq _ ih => exact (ih herr).opened (.selected hf hq)
  | operandsFail hf hop _ ih => exact (ih herr).opened (.operands hf hop)
  | operator hf hop h => exact (Stage.Fails.operator hf hop h herr).origin
  | undefined hf hop hfun =>
    cases herr
    exact (Stage.Fails.undefined hf hop hfun).origin
  | argumentsFail hf hop hfun _ ih => exact (ih herr).opened (.arguments hf hop hfun)
  | arity hf hop hfun h hlen =>
    cases herr
    exact (Stage.Fails.arity hf hop hfun h hlen).origin
  | tooDeep hf hop hfun h hlen hdepth =>
    cases herr
    exact (Stage.Fails.tooDeep hf hop hfun h hlen hdepth).origin
  | unbindable hf hop hfun h hlen hdepth hparams =>
    cases herr
    exact (Stage.Fails.unbindable hf hop hfun h hlen hdepth hparams).origin
  | callUnheard hf hop hfun h hlen hdepth hparams hhear =>
    cases herr
    exact (Stage.Fails.callUnheard hf hop hfun h hlen hdepth hparams hhear).origin
  | call hf hop hfun h hlen hdepth hparams hhear _ _ ihbody =>
    exact (ihbody herr).opened (.body hf hop hfun h hlen hdepth hparams hhear)
  | firstFails _ ih => exact (ih herr).opened .first
  | restFails h _ _ ihs => exact (ihs herr).opened (.rest h)
  | otherwise htest _ ih => exact (ih herr).opened (.otherwise htest)
  | testFails htest _ ih => exact (ih herr).opened (.test htest)
  | testHolds htest h hv _ _ ihr => exact (ihr herr).opened (.result htest h hv)
  | testDoesNot htest h hv _ _ ihr => exact (ihr herr).opened (.later htest h hv)

namespace Lasting

variable {c : Conditions} {T : Task → Prop} {S : Int → EvalState → Prop} {p q : Stage}

theorem opens (lasting : Lasting c T S) (h : p.Opens c q)
    (hp : T p.task ∧ S p.depth p.state) : T q.task ∧ S q.depth q.state := by
  obtain ⟨ht, hs⟩ := hp
  cases h with
  | form hname => exact ⟨lasting.part ht (.form hname), hs⟩
  | assigned _ hq => exact ⟨lasting.part ht (.assigned hq), hs⟩
  | selected _ hq => exact ⟨lasting.part ht (.selected hq), hs⟩
  | operands => exact ⟨lasting.part ht .operands, hs⟩
  | arguments => exact ⟨lasting.part ht .operands, hs⟩
  | body _ _ hfun h _ hdepth => exact lasting.body (lasting.part ht .operands) hs hfun h hdepth
  | first => exact ⟨lasting.part ht .first, hs⟩
  | rest h => exact ⟨lasting.part ht .rest, lasting.run (lasting.part ht .first) hs h⟩
  | otherwise => exact ⟨lasting.part ht .result, hs⟩
  | test => exact ⟨lasting.part ht .test, hs⟩
  | result _ h => exact ⟨lasting.part ht .result, lasting.run (lasting.part ht .test) hs h⟩
  | later _ h => exact ⟨lasting.part ht .later, lasting.run (lasting.part ht .test) hs h⟩

theorem reaches (lasting : Lasting c T S) (h : p.Reaches c q)
    (hp : T p.task ∧ S p.depth p.state) : T q.task ∧ S q.depth q.state := by
  induction h with
  | refl => exact hp
  | tail _ hopens ih => exact lasting.opens hopens ih

end Lasting

end PocketLisp
