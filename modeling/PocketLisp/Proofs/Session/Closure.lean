import PocketLisp.Proofs.Eval.Closure
import PocketLisp.Proofs.Session.Invariant

/-!
How the calls of an interpreter can end, whatever it has been asked before: with values of the
language or with a fault, and otherwise only because of the digits of an integer, in the text or
where a value has to be written. The other limits of the surroundings are not met.
-/
namespace PocketLisp

namespace Reader

/-- An integer literal of the text has so many digits, too many to be read. -/
def LongLiteral (code : String) (digits : Nat) : Prop :=
  digitLimit < digits ∧ ∃ t ∈ Token.ofText code, ∃ negative ds,
    Numeral.ofText? t.text = some (.integer negative ds) ∧ ds.length = digits

inductive Unread (code : String) : Failure → Prop
  | exhausted : Unread code (.escape .exhausted)
  | malformed {f : Fault} (h : f.kind = .malformed) : Unread code (.fault f)
  | literal {digits : Nat} (h : LongLiteral code digits) :
      Unread code (.escape (.readLimit digits))

theorem Diagnosis.unread {room : Nat} {code : String} {e : Failure}
    (h : Diagnosis room (Token.ofText code) e) : Unread code e := by
  cases h with
  | stray | dangling | missing => exact .malformed rfl
  | exhausted => exact .exhausted
  | unreadable ht hx =>
    obtain ⟨negative, ds, hds, hlong, rfl⟩ := overlong_of_atomValue hx
    exact .literal ⟨hlong, _, ht, negative, ds, hds, rfl⟩

theorem unread_of_parseAll {room : Nat} {code : String} {e : Failure}
    (h : parseAll room code = .error e) : Unread code e := by
  unfold parseAll at h
  rcases readAll_cases room (Token.ofText code) with ⟨vs, hread⟩ | ⟨e', rest, hread, hfails⟩
  · rw [hread] at h
    cases h
  · rw [hread] at h
    cases h
    exact hfails.unread

end Reader

namespace Session

open Reader

/-- How a call can end: with what it should, with a fault other than that something is no
expression, because a literal has too many digits to be read, or because an integer has too many
digits to be written. -/
inductive Closed {α : Type} (literal : Nat → Prop) (strained : Prop) (good : α → Prop) :
    Except Failure α → Prop
  | value {a : α} (h : good a) : Closed literal strained good (.ok a)
  | fault {f : Fault} (h : ∀ shown, f.cause ≠ .cannotEvaluate shown) :
      Closed literal strained good (.error (.fault f))
  | unreadable {digits : Nat} (h : literal digits) :
      Closed literal strained good (.error (.escape (.readLimit digits)))
  | unwritable (h : strained) : Closed literal strained good (.error (.escape .printLimit))

namespace Closed

variable {α β : Type} {literal : Nat → Prop} {strained : Prop} {good : α → Prop}

theorem bind {good' : β → Prop} {x : Run Session α} {f : α → Run Session β} {s : Session}
    (hx : Closed literal strained good (x s).1)
    (hf : ∀ a t, x s = (.ok a, t) → good a → Closed literal strained good' (f a t).1) :
    Closed literal strained good' ((x >>= f) s).1 := by
  rcases hr : x s with ⟨err | a, t⟩
  · rw [hr] at hx
    rw [Run.bind_error hr]
    cases hx with
    | fault hcause => exact .fault hcause
    | unreadable hliteral => exact .unreadable hliteral
    | unwritable hstrained => exact .unwritable hstrained
  · rw [hr] at hx
    rw [Run.bind_ok hr]
    cases hx with
    | value ha => exact hf a t hr ha

theorem of_unread {code : String} {e : Failure} (h : Unread code e) :
    Closed (LongLiteral code) strained good (asFault .readerExhausted (.error e)) := by
  cases h with
  | exhausted => exact .fault fun _ hcause => nomatch hcause
  | @malformed f hkind =>
    refine .fault ?_
    rintro shown hcause
    rw [Fault.kind, hcause] at hkind
    cases hkind
  | literal hliteral => exact .unreadable hliteral

theorem of_admissible {e : Failure} (h : Admissible strained e) :
    Closed literal strained good (asFault .evaluatorExhausted (.error e)) := by
  cases h with
  | exhausted => exact .fault fun _ hcause => nomatch hcause
  | fault hcause => exact .fault hcause
  | unwritable hstrained => exact .unwritable hstrained

end Closed

/-- Where an integer with too many digits has to be written when an expression is evaluated in this
session. -/
def StrainedBy (e : Value) (s : Session) (q : Stage) : Prop :=
  Stage.Reaches s.conditions ⟨s.host.frames, 0, .expr e, s.state⟩ q ∧ q.Strained s.conditions

def Strained (call : Call) (s : Session) : Prop :=
  ∃ e t q, Evaluates call s e t ∧ StrainedBy e t q

/-! Reading a text, evaluating an expression, then evaluating all expressions of a text. -/

theorem of_reading {α : Type} {reader : Nat → String → Except Failure α} {code : String}
    {s t : Session} {a : α} (h : reading reader code s = (.ok a, t)) :
    reader s.host.frames code = .ok a ∧ t = s := by
  cases hread : reader s.host.frames code with
  | error e =>
    obtain ⟨e', he⟩ := reading_error hread
    cases h.symm.trans he
  | ok b =>
    cases h.symm.trans (reading_ok hread)
    exact ⟨rfl, rfl⟩

theorem closed_reading {α : Type} {reader : Nat → String → Except Failure α} {code : String}
    (strained : Prop) (s : Session)
    (h : ∀ e, reader s.host.frames code = .error e → Unread code e) :
    Closed (LongLiteral code) strained (fun _ => True) (reading reader code s).1 := by
  cases hread : reader s.host.frames code with
  | ok a =>
    rw [reading_ok hread]
    exact .value trivial
  | error e =>
    have hclosed : Closed (LongLiteral code) strained (fun _ : α => True)
        (asFault .readerExhausted (.error e)) := .of_unread (h e hread)
    rw [reading, hread]
    exact hclosed

theorem closed_run {literal : Nat → Prop} {strained : Prop} {s : Session}
    (hs : s.interpreter.env.Sound) {e : Value} (he : Legible e)
    (hstrained : ∀ q, StrainedBy e s q → strained) :
    Closed literal strained (fun v => v.isProper = true) (run e s).1 := by
  have hruns := runs_evaluate s.conditions s.host.frames 0 e s.state
  rw [run_eq, outcome_eq]
  cases hr : (PocketLisp.evaluate s.conditions s.host.frames 0 e s.state).1 with
  | ok v => exact .value ((hruns.sound he hs).2 v hr)
  | error err =>
    refine .of_admissible ((hruns.admissible_of_sound he hs hr).mono ?_)
    rintro ⟨q, hq⟩
    exact hstrained q hq

theorem closed_runAll {literal : Nat → Prop} {strained : Prop} {s : Session}
    (hs : s.interpreter.env.Sound) {es : List Value} (hes : ∀ e ∈ es, Legible e)
    (hstrained : ∀ before e later vs t q, es = before ++ e :: later →
      runAll before s = (.ok vs, t) → StrainedBy e t q → strained) :
    Closed literal strained (fun vs => ∀ v ∈ vs, v.isProper = true) (runAll es s).1 := by
  induction es generalizing s with
  | nil => exact .value (by simp)
  | cons e es ih =>
    have he := hes e List.mem_cons_self
    have hfirst : Closed literal strained _ (run e s).1 :=
      closed_run hs he fun q => hstrained [] e es [] s q rfl rfl
    refine hfirst.bind fun v t hv hproper => ?_
    have hsound := sound_run hs he
    rw [hv] at hsound
    have hrest := ih hsound (fun x hx => hes x (List.mem_cons_of_mem e hx))
      fun before x later vs u q hsplit hbefore =>
        hstrained (e :: before) x later (v :: vs) u q (by rw [hsplit]; rfl)
          (runAll_cons_of hv hbefore)
    exact hrest.bind fun vs u _ hvs => .value (by simpa [hproper] using hvs)

theorem closed_evaluateAll {s : Session} (hs : s.interpreter.env.Sound) (code : String) :
    Closed (LongLiteral code) (Strained (.all code) s) (fun vs => ∀ v ∈ vs, v.isProper = true)
      (evaluateAll code s).1 := by
  refine (closed_reading _ s fun e => unread_of_parseAll).bind fun es t hread _ => ?_
  obtain ⟨hparse, rfl⟩ := of_reading hread
  refine closed_runAll hs (fun e he => legible_of_mem_parseAll hparse he) ?_
  rintro before e later vs t q rfl hbefore hq
  exact ⟨e, t, q, .all hparse hbefore, hq⟩

def OnlyNumbers (q : Stage) : Prop :=
  (∃ n, q.task = .expr (.num n)) ∨ ∃ ns : List Number, q.task = .all (ns.map .num)

theorem OnlyNumbers.reaches {c : Conditions} {p q : Stage} (h : Stage.Reaches c p q)
    (hp : OnlyNumbers p) : OnlyNumbers q := by
  induction h with
  | refl => exact hp
  | tail _ hopens ih =>
    rcases ih with ⟨n, hn⟩ | ⟨ns, hns⟩
    · cases hopens <;> cases hn
    · cases hopens with
      | first =>
        obtain ⟨m, ms, -, hm, -⟩ := List.map_eq_cons_iff.mp (Task.all.inj hns).symm
        exact .inl ⟨m, congrArg Task.expr hm.symm⟩
      | rest =>
        obtain ⟨m, ms, -, -, hms⟩ := List.map_eq_cons_iff.mp (Task.all.inj hns).symm
        exact .inr ⟨ms, congrArg Task.all hms.symm⟩
      | _ => cases hns

end Session

end PocketLisp
