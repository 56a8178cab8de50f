import PocketLisp.Proofs.Eval.Closure
import PocketLisp.Proofs.Eval.Semantics

/-!
Evaluation follows the rules of the language: in an environment of the language, an expression comes
to what the rules say, unless the host frames run out or an integer has too many digits to be
written.
-/
namespace PocketLisp

namespace SpecialForm

theorem map_of_clauses {operands : List Value} {cs : List (Value × Value)}
    (h : clauses operands = .ok cs) :
    operands = cs.map fun clause => .list [clause.1, clause.2] := by
  fun_induction clauses operands generalizing cs with
  | case1 =>
    cases h
    rfl
  | case2 test result rest ih =>
    cases hrest : clauses rest with
    | error other =>
      rw [hrest] at h
      cases h
    | ok ds =>
      rw [hrest] at h
      cases h
      rw [ih hrest]
      rfl
  | case3 => cases h

theorem check_of_malformed {f : SpecialForm} {operands : List Value} (h : Malformed f operands) :
    ∃ x, f.check operands = .error x := by
  have hchecked := f.checked operands
  cases hq : f.check operands with
  | error x => exact ⟨x, rfl⟩
  | ok request =>
    rw [hq] at hchecked
    cases hchecked with
    | quote => exact absurd h not_malformed_quote
    | assign => exact absurd h not_malformed_setq
    | define hname hbad hdistinct =>
      rw [eq_map_paramNames hbad] at h
      exact absurd h (not_malformed_defun hname (distinct_iff.mp hdistinct))
    | select hcs =>
      rw [map_of_clauses hcs] at h
      exact absurd h not_malformed_cond

end SpecialForm

theorem Number.text_of_print {n : Number} {s : String} (h : n.print = .ok s) : n.text = s := by
  cases n with
  | int n =>
    rw [print, intText_eq] at h
    split at h
    · exact Except.ok.inj h
    · cases h
  | float x => exact Except.ok.inj h

namespace Value

mutual

theorem text_of_write {v : Value} (h : v.isProper = true) {s : String}
    (hs : v.write .printed = .ok s) : v.text = s := by
  match v with
  | .num n =>
    rw [write] at hs
    exact Number.text_of_print hs
  | .sym x => exact Except.ok.inj hs
  | .foreign x => cases h
  | .list items =>
    rw [write] at hs
    cases hitems : writeList .printed items with
    | error x =>
      rw [hitems] at hs
      cases hs
    | ok parts =>
      rw [hitems] at hs
      cases hs
      rw [text, texts_of_writeList h hitems]

theorem texts_of_writeList {vs : List Value} (h : isProperList vs = true) {parts : List String}
    (hs : writeList .printed vs = .ok parts) : texts vs = parts := by
  match vs with
  | [] => exact Except.ok.inj hs
  | v :: vs =>
    obtain ⟨hv, hvs⟩ : v.isProper = true ∧ isProperList vs = true := by simpa [isProperList] using h
    rw [writeList] at hs
    cases hfirst : v.write .printed with
    | error x =>
      rw [hfirst] at hs
      cases hs
    | ok s =>
      cases hrest : writeList .printed vs with
      | error x =>
        rw [hfirst, hrest] at hs
        cases hs
      | ok parts =>
        rw [hfirst, hrest] at hs
        cases hs
        rw [texts, text_of_write hv hfirst, texts_of_writeList hvs hrest]

end

end Value

section Function

variable {env : Env} {name : String}

theorem Env.unbound_of_getFunction {x : Fault} (h : env.getFunction name = .error x) :
    x.kind = .undefinedFunction ∧ Unbound Frame.functions name env.frames := by
  obtain ⟨hnone, rfl⟩ := of_getFunction_error h
  exact ⟨rfl, unbound_iff.mpr hnone⟩

end Function

end PocketLisp
