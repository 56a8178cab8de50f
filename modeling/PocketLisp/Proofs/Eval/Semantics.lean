import Mathlib.Data.List.Basic
import PocketLisp.Proofs.Eval.Answer

/-!
The rules of the language, without regard to host frames, listeners and the limits of printing: what
an expression comes to in a chain of frames, at a call depth and under a limit, and what the frames
are afterwards. An error counts by its kind. What the rules say is determined.
-/
namespace PocketLisp

def Number.text : Number → String
  | .int n => String.ofList (intChars n)
  | .float x => x.toText

namespace Value

mutual

/-- The text of a value, however many digits the numbers in it have. -/
def text : Value → String
  | .num n => n.text
  | .sym x => x
  | .list items => Style.printed.list (texts items)
  | .foreign x => x.inspect

def texts : List Value → List String
  | [] => []
  | v :: vs => v.text :: texts vs

end

end Value

/-- In the nearest of these frames that binds a name, it is bound to `a`. -/
inductive Nearest {α : Type} (bindings : Frame → Bindings α) (x : String) (a : α) :
    List Frame → Prop
  | here {f : Frame} {fs : List Frame} (h : (bindings f).get? x = some a) :
      Nearest bindings x a (f :: fs)
  | outward {f : Frame} {fs : List Frame} (h : (bindings f).get? x = none)
      (hs : Nearest bindings x a fs) : Nearest bindings x a (f :: fs)

def Unbound {α : Type} (bindings : Frame → Bindings α) (x : String) (fs : List Frame) : Prop :=
  ∀ f ∈ fs, (bindings f).get? x = none

/-- The operands of a special form do not have the right shape. The checks stand in the order in
which they are made. -/
inductive Malformed : SpecialForm → List Value → Prop
  | quoteOperands {operands} (h : operands.length ≠ 1) : Malformed .quote operands
  | setqOperands {operands} (h : operands.length ≠ 2) : Malformed .setq operands
  | setqName {target e} (h : target.isSym = false) : Malformed .setq [target, e]
  | defunOperands {operands} (h : operands.length ≠ 3) : Malformed .defun operands
  | defunName {target params body} (h : target.isSym = false) :
      Malformed .defun [target, params, body]
  | defunReserved {x params body} (h : isReserved x = true) :
      Malformed .defun [.sym x, params, body]
  | defunParameters {x params body} (hx : isReserved x = false) (h : params.isList = false) :
      Malformed .defun [.sym x, params, body]
  | defunParameter {x params p body} (hx : isReserved x = false) (hp : p ∈ params)
      (h : p.isSym = false) : Malformed .defun [.sym x, .list params, body]
  | defunDuplicate {x names body} (hx : isReserved x = false) (h : ¬List.Nodup names) :
      Malformed .defun [.sym x, .list (names.map .sym), body]
  | condClause {operands clause} (hclause : clause ∈ operands)
      (h : ∀ test result, clause ≠ .list [test, result]) : Malformed .cond operands

/-- A value or an error, whether or not a value that is shown can be written. -/
def Reply.result : Reply → Except Fault.Kind Value
  | .value v => .ok v
  | .fault kind => .error kind
  | .showing kind _ => .error kind

/-- The frame of a call: parameters are bound from left to right. -/
def Frame.ofCall (names : List String) (vs : List Value) : Frame :=
  (names.zip vs).foldl (fun f p => f.setVariable p.1 p.2) .empty

open SpecialForm in
/-- `Yields limit depth t env r env'`: at a call depth, with these frames, the task `t` comes to the
value or the error `r` and leaves the frames `env'`. -/
inductive Yields (limit : Int) : Int → Task → Env → Except Fault.Kind Value → Env → Prop
  | num {depth n env} : Yields limit depth (.expr (.num n)) env (.ok (.num n)) env
  | bound {depth x v env} (h : Nearest Frame.values x v env.frames) :
      Yields limit depth (.expr (.sym x)) env (.ok v) env
  | free {depth x env} (h : Unbound Frame.values x env.frames) :
      Yields limit depth (.expr (.sym x)) env (.ok (.sym x)) env
  | empty {depth env} : Yields limit depth (.expr (.list [])) env (.ok (.list [])) env
  -- a list is dispatched on the text of its head
  | form {depth head operands env r env'}
      (h : Yields limit depth (.form head.text operands) env r env') :
      Yields limit depth (.expr (.list (head :: operands))) env r env'
  -- special forms
  | malformed {depth name operands f env} (hf : ofName? name = some f)
      (h : Malformed f operands) :
      Yields limit depth (.form name operands) env (.error .malformed) env
  | quote {depth name v env} (hf : ofName? name = some .quote) :
      Yields limit depth (.form name [v]) env (.ok v) env
  | assign {depth name x e env v env'} (hf : ofName? name = some .setq)
      (h : Yields limit depth (.expr e) env (.ok v) env') :
      Yields limit depth (.form name [.sym x, e]) env (.ok v) (env'.setVariable x v)
  | assignFails {depth name x e env kind env'} (hf : ofName? name = some .setq)
      (h : Yields limit depth (.expr e) env (.error kind) env') :
      Yields limit depth (.form name [.sym x, e]) env (.error kind) env'
  | define {depth name x} {names : List String} {body env} (hf : ofName? name = some .defun)
      (hx : isReserved x = false) (hnames : names.Nodup) :
      Yields limit depth (.form name [.sym x, .list (names.map .sym), body]) env (.ok (.sym x))
        (env.setFunction x ⟨names.map .sym, body⟩)
  | select {depth name cs env r env'} (hf : ofName? name = some .cond)
      (h : Yields limit depth (.clauses cs) env r env') :
      Yields limit depth (.form name (cs.map fun clause => .list [clause.1, clause.2])) env r env'
  -- operators
  | operandsFail {depth name operands op env kind env'} (hf : ofName? name = none)
      (hop : Operator.ofName? name = some op)
      (h : Yields limit depth (.all operands) env (.error kind) env') :
      Yields limit depth (.form name operands) env (.error kind) env'
  | operator {depth name operands op env vs env'} (hf : ofName? name = none)
      (hop : Operator.ofName? name = some op)
      (h : Yields limit depth (.all operands) env (.ok (.list vs)) env') :
      Yields limit depth (.form name operands) env (op.reply vs).result env'
  -- calls
  | undefined {depth name operands env} (hf : ofName? name = none)
      (hop : Operator.ofName? name = none) (hfun : Unbound Frame.functions name env.frames) :
      Yields limit depth (.form name operands) env (.error .undefinedFunction) env
  | argumentsFail {depth name operands f env kind env'} (hf : ofName? name = none)
      (hop : Operator.ofName? name = none) (hfun : Nearest Frame.functions name f env.frames)
      (h : Yields limit depth (.all operands) env (.error kind) env') :
      Yields limit depth (.form name operands) env (.error kind) env'
  | arity {depth name operands f env vs env'} (hf : ofName? name = none)
      (hop : Operator.ofName? name = none) (hfun : Nearest Frame.functions name f env.frames)
      (h : Yields limit depth (.all operands) env (.ok (.list vs)) env')
      (hlen : vs.length ≠ f.params.length) :
      Yields limit depth (.form name operands) env (.error .arity) env'
  | tooDeep {depth name operands f env vs env'} (hf : ofName? name = none)
      (hop : Operator.ofName? name = none) (hfun : Nearest Frame.functions name f env.frames)
      (h : Yields limit depth (.all operands) env (.ok (.list vs)) env')
      (hlen : vs.length = f.params.length) (hdepth : limit ≤ depth) :
      Yields limit depth (.form name operands) env (.error .recursion) env'
  | call {depth name operands} {names : List String} {body env vs env' r env''}
      (hf : ofName? name = none)
      (hop : Operator.ofName? name = none)
      (hfun : Nearest Frame.functions name ⟨names.map .sym, body⟩ env.frames)
      (h : Yields limit depth (.all operands) env (.ok (.list vs)) env')
      (hlen : vs.length = names.length) (hdepth : depth < limit)
      (hbody : Yields limit (depth + 1) (.expr body) (env'.push (.ofCall names vs)) r env'') :
      Yields limit depth (.form name operands) env r env''.pop
  -- expressions from left to right
  | nil {depth env} : Yields limit depth (.all []) env (.ok (.list [])) env
  | firstFails {depth e es env kind env'} (h : Yields limit depth (.expr e) env (.error kind) env') :
      Yields limit depth (.all (e :: es)) env (.error kind) env'
  | restFails {depth e es env v env' kind env''}
      (h : Yields limit depth (.expr e) env (.ok v) env')
      (hs : Yields limit depth (.all es) env' (.error kind) env'') :
      Yields limit depth (.all (e :: es)) env (.error kind) env''
  | cons {depth e es env v env' vs env''} (h : Yields limit depth (.expr e) env (.ok v) env')
      (hs : Yields limit depth (.all es) env' (.ok (.list vs)) env'') :
      Yields limit depth (.all (e :: es)) env (.ok (.list (v :: vs))) env''
  -- clauses in order; the test `t` is not evaluated
  | noClause {depth env} : Yields limit depth (.clauses []) env (.ok (.sym "nil")) env
  | otherwise {depth result cs env r env'} (h : Yields limit depth (.expr result) env r env') :
      Yields limit depth (.clauses ((.sym "t", result) :: cs)) env r env'
  | testFails {depth test result cs env kind env'} (htest : test ≠ .sym "t")
      (h : Yields limit depth (.expr test) env (.error kind) env') :
      Yields limit depth (.clauses ((test, result) :: cs)) env (.error kind) env'
  | testHolds {depth test result cs env v env' r env''} (htest : test ≠ .sym "t")
      (h : Yields limit depth (.expr test) env (.ok v) env') (hv : v ≠ .sym "nil")
      (hr : Yields limit depth (.expr result) env' r env'') :
      Yields limit depth (.clauses ((test, result) :: cs)) env r env''
  | testDoesNot {depth test result cs env env' r env''} (htest : test ≠ .sym "t")
      (h : Yields limit depth (.expr test) env (.ok (.sym "nil")) env')
      (hr : Yields limit depth (.clauses cs) env' r env'') :
      Yields limit depth (.clauses ((test, result) :: cs)) env r env''

section Lookup

variable {α : Type} {bindings : Frame → Bindings α} {x : String}

theorem nearest_iff {a : α} {fs : List Frame} :
    Nearest bindings x a fs ↔ (fs.findSome? fun f => (bindings f).get? x) = some a := by
  induction fs with
  | nil => exact ⟨fun h => (nomatch h), fun h => nomatch h⟩
  | cons f fs ih =>
    rw [List.findSome?_cons]
    cases hget : (bindings f).get? x with
    | none =>
      refine ⟨fun h => ?_, fun h => .outward hget (ih.mpr h)⟩
      cases h with
      | here h => cases hget.symm.trans h
      | outward _ hs => exact ih.mp hs
    | some b =>
      refine ⟨fun h => ?_, fun h => .here (hget.trans h)⟩
      cases h with
      | here h => exact hget.symm.trans h
      | outward h => cases hget.symm.trans h

theorem unbound_iff {fs : List Frame} :
    Unbound bindings x fs ↔ (fs.findSome? fun f => (bindings f).get? x) = none := by
  rw [List.findSome?_eq_none_iff]
  rfl

theorem Nearest.unique {a b : α} {fs : List Frame} (h : Nearest bindings x a fs)
    (h' : Nearest bindings x b fs) : a = b :=
  Option.some.inj ((nearest_iff.mp h).symm.trans (nearest_iff.mp h'))

theorem Nearest.not_unbound {a : α} {fs : List Frame} (h : Nearest bindings x a fs) :
    ¬Unbound bindings x fs := by
  intro hfree
  cases (nearest_iff.mp h).symm.trans (unbound_iff.mp hfree)

end Lookup

/-! The operands of a special form have one shape at most, and malformed ones have none. -/

section Shapes

variable {x : String} {e v body : Value}

theorem not_malformed_quote : ¬Malformed .quote [v] := by
  rintro ⟨h⟩
  exact h rfl

theorem not_malformed_setq : ¬Malformed .setq [.sym x, e] := by
  rintro (_ | h | h)
  · exact h rfl
  · cases h

theorem sym_injective : Function.Injective Value.sym := fun _ _ h => Value.sym.inj h

theorem not_malformed_defun {names : List String} (hx : isReserved x = false)
    (hnames : names.Nodup) : ¬Malformed .defun [.sym x, .list (names.map .sym), body] := by
  intro h
  generalize hoperands : [.sym x, .list (names.map .sym), body] = operands at h
  cases h with
  | defunOperands h => exact h (hoperands ▸ rfl)
  | defunName h =>
    cases hoperands
    cases h
  | defunReserved h =>
    cases hoperands
    cases hx.symm.trans h
  | defunParameters _ h =>
    cases hoperands
    cases h
  | defunParameter _ hp h =>
    cases hoperands
    obtain ⟨y, -, rfl⟩ := List.mem_map.mp hp
    cases h
  | defunDuplicate _ h =>
    injection hoperands with hname hrest
    injection hrest with hparams
    obtain rfl := List.map_injective_iff.mpr sym_injective (Value.list.inj hparams)
    exact h hnames

theorem not_malformed_cond {cs : List (Value × Value)} :
    ¬Malformed .cond (cs.map fun clause => .list [clause.1, clause.2]) := by
  rintro (_ | _ | _ | _ | _ | _ | _ | _ | _ | ⟨hclause, h⟩)
  obtain ⟨clause, -, rfl⟩ := List.mem_map.mp hclause
  exact h _ _ rfl

end Shapes

namespace Yields

section Inversion

open SpecialForm

variable {limit depth : Int} {name : String} {operands : List Value} {env env' : Env}
  {r : Except Fault.Kind Value}

theorem of_quote (hf : ofName? name = some .quote)
    (h : Yields limit depth (.form name operands) env r env') :
    Malformed .quote operands ∨ ∃ v, operands = [v] ∧ r = .ok v ∧ env' = env := by
  cases h with
  | malformed hf' hm =>
    cases hf.symm.trans hf'
    exact .inl hm
  | quote => exact .inr ⟨_, rfl, rfl, rfl⟩
  | _ => simp_all

theorem of_setq (hf : ofName? name = some .setq)
    (h : Yields limit depth (.form name operands) env r env') :
    Malformed .setq operands ∨ ∃ x e, operands = [.sym x, e] ∧
      ((∃ v mid, Yields limit depth (.expr e) env (.ok v) mid ∧ r = .ok v ∧
        env' = mid.setVariable x v) ∨
      ∃ kind, Yields limit depth (.expr e) env (.error kind) env' ∧ r = .error kind) := by
  cases h with
  | malformed hf' hm =>
    cases hf.symm.trans hf'
    exact .inl hm
  | assign _ h => exact .inr ⟨_, _, rfl, .inl ⟨_, _, h, rfl, rfl⟩⟩
  | assignFails _ h => exact .inr ⟨_, _, rfl, .inr ⟨_, h, rfl⟩⟩
  | _ => simp_all

theorem of_defun (hf : ofName? name = some .defun)
    (h : Yields limit depth (.form name operands) env r env') :
    Malformed .defun operands ∨ ∃ x params body, operands = [.sym x, .list params, body] ∧
      r = .ok (.sym x) ∧ env' = env.setFunction x ⟨params, body⟩ := by
  cases h with
  | malformed hf' hm =>
    cases hf.symm.trans hf'
    exact .inl hm
  | define => exact .inr ⟨_, _, _, rfl, rfl, rfl⟩
  | _ => simp_all

theorem of_cond (hf : ofName? name = some .cond)
    (h : Yields limit depth (.form name operands) env r env') :
    Malformed .cond operands ∨ ∃ cs : List (Value × Value),
      operands = cs.map (fun clause => .list [clause.1, clause.2]) ∧
      Yields limit depth (.clauses cs) env r env' := by
  cases h with
  | malformed hf' hm =>
    cases hf.symm.trans hf'
    exact .inl hm
  | select _ h => exact .inr ⟨_, rfl, h⟩
  | _ => simp_all

end Inversion

/-- What an expression comes to, and the frames it leaves, are determined. -/
theorem unique {limit depth : Int} {t : Task} {env env' env'' : Env}
    {r r' : Except Fault.Kind Value} (h : Yields limit depth t env r env')
    (h' : Yields limit depth t env r' env'') : r = r' ∧ env' = env'' := by
  induction h generalizing r' env'' with
  | num =>
    cases h'
    exact ⟨rfl, rfl⟩
  | bound h =>
    cases h' with
    | bound h' => exact ⟨by rw [h.unique h'], rfl⟩
    | free h' => exact absurd h' h.not_unbound
  | free h =>
    cases h' with
    | bound h' => exact absurd h h'.not_unbound
    | free => exact ⟨rfl, rfl⟩
  | empty =>
    cases h'
    exact ⟨rfl, rfl⟩
  | form _ ih =>
    cases h' with
    | form h' => exact ih h'
  | malformed hf hm =>
    cases h' with
    | malformed => exact ⟨rfl, rfl⟩
    | quote hf' =>
      cases hf.symm.trans hf'
      exact absurd hm not_malformed_quote
    | assign hf' | assignFails hf' =>
      cases hf.symm.trans hf'
      exact absurd hm not_malformed_setq
    | define hf' hx hnames =>
      cases hf.symm.trans hf'
      exact absurd hm (not_malformed_defun hx hnames)
    | select hf' =>
      cases hf.symm.trans hf'
      exact absurd hm not_malformed_cond
    | _ => simp_all
  | quote hf =>
    rcases h'.of_quote hf with hm | ⟨v, hv, rfl, rfl⟩
    · exact absurd hm not_malformed_quote
    · cases hv
      exact ⟨rfl, rfl⟩
  | assign hf _ ih =>
    rcases h'.of_setq hf with hm | ⟨x, e, he, ⟨v, mid, h', rfl, rfl⟩ | ⟨kind, h', rfl⟩⟩
    · exact absurd hm not_malformed_setq
    · cases he
      obtain ⟨hv, rfl⟩ := ih h'
      cases hv
      exact ⟨rfl, rfl⟩
    · cases he
      cases (ih h').1
  | assignFails hf _ ih =>
    rcases h'.of_setq hf with hm | ⟨x, e, he, ⟨v, mid, h', rfl, rfl⟩ | ⟨kind, h', rfl⟩⟩
    · exact absurd hm not_malformed_setq
    · cases he
      cases (ih h').1
    · cases he
      exact ih h'
  | define hf hx hnames =>
    rcases h'.of_defun hf with hm | ⟨x, params, body, he, rfl, rfl⟩
    · exact absurd hm (not_malformed_defun hx hnames)
    · cases he
      exact ⟨rfl, rfl⟩
  | select hf _ ih =>
    rcases h'.of_cond hf with hm | ⟨cs, hcs, h'⟩
    · exact absurd hm not_malformed_cond
    · have hinjective : Function.Injective fun clause : Value × Value =>
          Value.list [clause.1, clause.2] := by
        rintro ⟨test, result⟩ ⟨test', result'⟩ h
        cases h
        rfl
      obtain rfl := List.map_injective_iff.mpr hinjective hcs
      exact ih h'
  | operandsFail hf hop _ ih =>
    cases h' with
    | operandsFail _ _ h' => exact ih h'
    | operator _ _ h' => cases (ih h').1
    | _ => simp_all
  | operator hf hop _ ih =>
    cases h' with
    | operandsFail _ _ h' => cases (ih h').1
    | operator _ hop' h' =>
      cases hop.symm.trans hop'
      obtain ⟨hvs, rfl⟩ := ih h'
      cases hvs
      exact ⟨rfl, rfl⟩
    | _ => simp_all
  | undefined hf hop hfun =>
    cases h' with
    | undefined => exact ⟨rfl, rfl⟩
    | argumentsFail _ _ hfun' | arity _ _ hfun' | tooDeep _ _ hfun' | call _ _ hfun' =>
      exact absurd hfun hfun'.not_unbound
    | _ => simp_all
  | argumentsFail hf hop hfun _ ih =>
    cases h' with
    | undefined _ _ hfun' => exact absurd hfun' hfun.not_unbound
    | argumentsFail _ _ _ h' => exact ih h'
    | arity _ _ _ h' | tooDeep _ _ _ h' | call _ _ _ h' => cases (ih h').1
    | _ => simp_all
  | arity hf hop hfun _ hlen ih =>
    cases h' with
    | undefined _ _ hfun' => exact absurd hfun' hfun.not_unbound
    | argumentsFail _ _ _ h' => cases (ih h').1
    | arity _ _ _ h' => exact ⟨rfl, (ih h').2⟩
    | tooDeep _ _ hfun' h' hlen' | call _ _ hfun' h' hlen' =>
      cases hfun.unique hfun'
      cases (ih h').1
      simp_all
    | _ => simp_all
  | tooDeep hf hop hfun _ hlen hdepth ih =>
    cases h' with
    | undefined _ _ hfun' => exact absurd hfun' hfun.not_unbound
    | argumentsFail _ _ _ h' => cases (ih h').1
    | arity _ _ hfun' h' hlen' =>
      cases hfun.unique hfun'
      cases (ih h').1
      exact absurd hlen hlen'
    | tooDeep _ _ _ h' => exact ⟨rfl, (ih h').2⟩
    | call _ _ _ _ _ hdepth' => omega
    | _ => simp_all
  | call hf hop hfun _ hlen hdepth _ ih ihbody =>
    cases h' with
    | undefined _ _ hfun' => exact absurd hfun' hfun.not_unbound
    | argumentsFail _ _ _ h' => cases (ih h').1
    | arity _ _ hfun' h' hlen' =>
      cases hfun.unique hfun'
      cases (ih h').1
      simp_all
    | tooDeep _ _ _ _ _ hdepth' => omega
    | call _ _ hfun' h' _ _ hbody' =>
      have hsame := hfun.unique hfun'
      injection hsame with hparams hbody
      obtain rfl := List.map_injective_iff.mpr sym_injective hparams
      subst hbody
      obtain ⟨hvs, rfl⟩ := ih h'
      cases hvs
      obtain ⟨rfl, rfl⟩ := ihbody hbody'
      exact ⟨rfl, rfl⟩
    | _ => simp_all
  | nil =>
    cases h'
    exact ⟨rfl, rfl⟩
  | firstFails _ ih =>
    cases h' with
    | firstFails h' => exact ih h'
    | restFails h' | cons h' => cases (ih h').1
  | restFails _ _ ih ihs =>
    cases h' with
    | firstFails h' => cases (ih h').1
    | restFails h' hs' =>
      obtain ⟨-, rfl⟩ := ih h'
      exact ihs hs'
    | cons h' hs' =>
      obtain ⟨-, rfl⟩ := ih h'
      cases (ihs hs').1
  | cons _ _ ih ihs =>
    cases h' with
    | firstFails h' => cases (ih h').1
    | restFails h' hs' =>
      obtain ⟨-, rfl⟩ := ih h'
      cases (ihs hs').1
    | cons h' hs' =>
      obtain ⟨hv, rfl⟩ := ih h'
      obtain ⟨hvs, rfl⟩ := ihs hs'
      cases hv
      cases hvs
      exact ⟨rfl, rfl⟩
  | noClause =>
    cases h'
    exact ⟨rfl, rfl⟩
  | otherwise _ ih =>
    cases h' with
    | otherwise h' => exact ih h'
    | testFails htest | testHolds htest | testDoesNot htest => exact absurd rfl htest
  | testFails htest _ ih =>
    cases h' with
    | otherwise => exact absurd rfl htest
    | testFails _ h' => exact ih h'
    | testHolds _ h' | testDoesNot _ h' => cases (ih h').1
  | testHolds htest _ hv _ ih ihr =>
    cases h' with
    | otherwise => exact absurd rfl htest
    | testFails _ h' => cases (ih h').1
    | testHolds _ h' _ hr' =>
      obtain ⟨-, rfl⟩ := ih h'
      exact ihr hr'
    | testDoesNot _ h' =>
      cases (ih h').1
      exact absurd rfl hv
  | testDoesNot htest _ _ ih ihr =>
    cases h' with
    | otherwise => exact absurd rfl htest
    | testFails _ h' => cases (ih h').1
    | testHolds _ h' hv' =>
      cases (ih h').1
      exact absurd rfl hv'
    | testDoesNot _ h' hr' =>
      obtain ⟨-, rfl⟩ := ih h'
      exact ihr hr'

end Yields

end PocketLisp
