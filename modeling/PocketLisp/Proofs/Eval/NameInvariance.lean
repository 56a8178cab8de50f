import PocketLisp.Proofs.Eval.Renaming

/-!
Evaluation does not depend on how things are named. If names are exchanged for others, in the
expression and in all that is bound, the value and the frames afterwards are the same but for the
exchange, or the error is of the same kind.
-/
namespace PocketLisp

open Reader

/-! Events are put into words or not, whatever the names. -/

section Hear

variable {l : Listener} {room : Nat}

theorem Listener.hear_congr {e e' : Event} (hlevel : e'.level = e.level)
    (h : (e'.messageWithin room).map (fun _ => ()) = (e.messageWithin room).map fun _ => ()) :
    l.hear room e' = l.hear room e := by
  rw [hear, hear, hlevel]
  cases hm : e.messageWithin room <;> cases hm' : e'.messageWithin room <;>
    simp_all [Except.map]

theorem Listener.hear_assigned (f : String → String) (x : String) (v : Value) :
    l.hear room (.assigned (f x) (v.rename f)) = l.hear room (.assigned x v) := by
  refine hear_congr rfl ?_
  have hv := v.writeWithin_rename f .inspected room
  simp only [Event.messageWithin, Event.messageBy, Value.inspectWithin]
  cases h : v.writeWithin .inspected room <;>
    cases h' : (v.rename f).writeWithin .inspected room <;>
      simp_all [Except.map, bind, Except.bind]

theorem Listener.hear_called (f : String → String) (x y : String) (vs : List Value) (depth : Int) :
    l.hear room (.called y (vs.map (Value.rename f)) depth) = l.hear room (.called x vs depth) := by
  refine hear_congr rfl ?_
  have hv := (Value.list vs).writeWithin_rename f .inspected room
  simp only [Value.rename, Value.renameList_eq_map] at hv
  simp only [Event.messageWithin, Event.messageBy, Value.inspectWithin]
  cases h : (Value.list vs).writeWithin .inspected room <;>
    cases h' : (Value.list (vs.map (Value.rename f))).writeWithin .inspected room <;>
      simp_all [Except.map, bind, Except.bind]

end Hear

namespace Renaming

section Follows

variable {m : Renaming} {r : Except Failure Value}

theorem Follows.ok {v : Value} (h : m.Follows (.ok v) r) : r = .ok (v.rename m.map) := by
  cases h with
  | value hw => rw [hw]

theorem Follows.error {err : Failure} (h : m.Follows (.error err) r) : ∃ err', r = .error err' := by
  cases h with
  | fault => exact ⟨_, rfl⟩
  | escape => exact ⟨_, rfl⟩

theorem Follows.blamed {r r' : Except Failure Value} (h : m.Follows r r') (form form' : Value) :
    m.Follows (blamed form r) (blamed form' r') := by
  cases h with
  | value hw => exact .value hw
  | fault hgist => exact .fault (by simpa using hgist)
  | escape => exact .escape

end Follows

/-- What there is to do, and the same after renaming. -/
inductive Carries (m : Renaming) : Task → Task → Prop
  | expr {e : Value} : Carries m (.expr e) (.expr (e.rename m.map))
  | form {x y : String} {operands : List Value} (h : m.Dispatches x y) :
      Carries m (.form x operands) (.form y (operands.map (Value.rename m.map)))
  | all {es : List Value} : Carries m (.all es) (.all (es.map (Value.rename m.map)))
  | clauses {cs : List (Value × Value)} :
      Carries m (.clauses cs)
        (.clauses (cs.map fun clause => (clause.1.rename m.map, clause.2.rename m.map)))

/-- From a state with renamed frames, a run of the task comes to the renamed outcome and frames. -/
def Mirrors (m : Renaming) (c : Conditions) (room : Nat) (depth : Int) (t : Task) (s : EvalState)
    (r : Except Failure Value × EvalState) : Prop :=
  ∀ s' : EvalState, s'.env = s.env.rename m.map → ∃ r' : Except Failure Value × EvalState,
    Runs c room depth t s' r' ∧ m.Follows r.1 r'.1 ∧ r'.2.env = r.2.env.rename m.map

namespace Mirrors

variable {m : Renaming} {c : Conditions} {room : Nat} {depth : Int} {t : Task}
  {s s' mid : EvalState}

theorem ok {v : Value} (h : m.Mirrors c room depth t s (.ok v, mid))
    (hs' : s'.env = s.env.rename m.map) : ∃ mid',
    Runs c room depth t s' (.ok (v.rename m.map), mid') ∧ mid'.env = mid.env.rename m.map := by
  obtain ⟨⟨r', mid'⟩, hruns, hfollows, henv⟩ := h s' hs'
  obtain rfl : r' = .ok _ := hfollows.ok
  exact ⟨mid', hruns, henv⟩

theorem list {vs : List Value} (h : m.Mirrors c room depth t s (.ok (.list vs), mid))
    (hs' : s'.env = s.env.rename m.map) : ∃ mid',
    Runs c room depth t s' (.ok (.list (vs.map (Value.rename m.map))), mid') ∧
      mid'.env = mid.env.rename m.map := by
  have hlist := h.ok hs'
  rwa [Value.rename, Value.renameList_eq_map] at hlist

theorem error {err : Failure} (h : m.Mirrors c room depth t s (.error err, mid))
    (hs' : s'.env = s.env.rename m.map) : ∃ err' mid',
    Runs c room depth t s' (.error err', mid') ∧ m.Follows (.error err) (.error err') ∧
      mid'.env = mid.env.rename m.map := by
  obtain ⟨⟨r', mid'⟩, hruns, hfollows, henv⟩ := h s' hs'
  obtain ⟨err', rfl⟩ : ∃ err', r' = .error err' := hfollows.error
  exact ⟨err', mid', hruns, hfollows, henv⟩

end Mirrors

end Renaming

@[simp] theorem Function.arity_rename (f : String → String) (g : Function) :
    (g.rename f).arity = g.arity :=
  List.length_map _

theorem Function.isList_params_rename (f : String → String) (g : Function) :
    (g.rename f).params.any Value.isList = g.params.any Value.isList := by
  simp [Function.rename, List.any_map, Function.comp_def]

namespace Renaming

variable {m : Renaming} {x y : String} {env : Env}

theorem Dispatches.getFunction_ok (h : m.Dispatches x y) (henv : env.Sound) {f : Function}
    (hf : env.getFunction x = .ok f) :
    (env.rename m.map).getFunction y = .ok (f.rename m.map) := by
  rw [Env.getFunction, h.functionOf? henv, Env.functionOf?_of_getFunction hf]
  rfl

theorem Dispatches.getFunction_error (h : m.Dispatches x y) (henv : env.Sound) {e : Fault}
    (he : env.getFunction x = .error e) :
    ∃ e', (env.rename m.map).getFunction y = .error e' ∧ e'.cause.gist = e.cause.gist := by
  obtain ⟨hnone, rfl⟩ := Env.of_getFunction_error he
  rw [Env.getFunction, h.functionOf? henv, hnone]
  exact ⟨_, rfl, rfl⟩

theorem env_enter {s s' : EvalState} (h : s'.env = s.env.rename m.map) (f : Function)
    (vs : List Value) (depth : Int) :
    (s'.enter y (f.rename m.map) (vs.map (Value.rename m.map)) depth).env =
      (s.enter x f vs depth).env.rename m.map := by
  have hframe := m.bindParams_rename f.params vs .empty
  simp only [EvalState.enter, Env.push, Env.rename, hframe]
  rw [h]
  rfl

end Renaming

open SpecialForm in
/-- Every run has a run of the renamed task beside it. -/
theorem Runs.mirrors (m : Renaming) {c : Conditions} {room : Nat} {depth : Int} {t u : Task}
    {s : EvalState} {r : Except Failure Value × EvalState} (h : Runs c room depth t s r)
    (ht : t.Only Legible) (hs : s.env.Sound) (hu : m.Carries t u) :
    m.Mirrors c room depth u s r := by
  have part : ∀ {t u : Task}, t.Only Legible → u.Part t → u.Only Legible :=
    fun ht h => ht.part upkeep_sound.item h
  induction h generalizing u with
  | exhausted =>
    cases hu
    exact fun s' hs' => ⟨_, .exhausted, .escape, hs'⟩
  | num =>
    cases hu
    exact fun s' hs' => ⟨_, .num, .value rfl, hs'⟩
  | @sym _ _ x s =>
    cases hu
    intro s' hs'
    refine ⟨_, .sym, .value ?_, hs'⟩
    rw [hs', m.valueOf?_rename]
    cases s.env.valueOf? x <;> rfl
  | empty =>
    cases hu
    exact fun s' hs' => ⟨_, .empty, .value rfl, hs'⟩
  | foreign => exact absurd ht not_legible_foreign
  | @nameless room _ head _ _ _ hname =>
    cases hu
    intro s' hs'
    -- Either both heads can be printed or none of them.
    have hhead : Legible head := upkeep_sound.item ht List.mem_cons_self
    rcases m.operatorName_rename hhead room with ⟨x, hx, hx'⟩ | ⟨x, y, hx, -⟩
    · cases hname.symm.trans hx
      exact ⟨_, .nameless hx', .escape, hs'⟩
    · cases hname.symm.trans hx
  | @form room _ head operands _ _ _ _ hname _ ih =>
    cases hu
    intro s' hs'
    have hhead : Legible head := upkeep_sound.item ht List.mem_cons_self
    rcases m.operatorName_rename hhead room with ⟨x, hx, -⟩ | ⟨x, y, hx, hy, hxy⟩
    · cases hname.symm.trans hx
    · cases hname.symm.trans hx
      obtain ⟨⟨r', t'⟩, hruns, hfollows, henv⟩ := ih (part ht (.form hname)) hs (.form hxy) s' hs'
      have hlist : (Value.list (head :: operands)).rename m.map =
          .list (head.rename m.map :: operands.map (Value.rename m.map)) := by
        simp [Value.rename]
      rw [hlist]
      exact ⟨_, .form hy hruns, hfollows.blamed _ _, henv⟩
  | @malformed room _ _ _ _ _ _ hf hq =>
    cases hu with
    | form hxy =>
      intro s' hs'
      obtain ⟨y, hy, hfollows⟩ := Renaming.check_error (m := m) hq
      exact ⟨_, .malformed (hxy.ofName?.1.trans hf) hy, hfollows room, hs'⟩
  | quote hf hq =>
    cases hu with
    | form hxy =>
      exact fun s' hs' =>
        ⟨_, .quote (hxy.ofName?.1.trans hf) (Renaming.check_ok hq), .value rfl, hs'⟩
  | assignFails hf hq _ ih =>
    cases hu with
    | form hxy =>
      intro s' hs'
      obtain ⟨err', t', hruns, hfollows, henv⟩ := (ih (part ht (.assigned hq)) hs .expr).error hs'
      exact ⟨_, .assignFails (hxy.ofName?.1.trans hf) (Renaming.check_ok hq) hruns, hfollows, henv⟩
  | assignUnheard hf hq _ hhear ih =>
    cases hu with
    | form hxy =>
      intro s' hs'
      obtain ⟨t', hruns, henv⟩ := (ih (part ht (.assigned hq)) hs .expr).ok hs'
      exact ⟨_, .assignUnheard (hxy.ofName?.1.trans hf) (Renaming.check_ok hq) hruns
        ((Listener.hear_assigned m.map _ _).trans hhear), .escape, henv⟩
  | assign hf hq _ hhear ih =>
    cases hu with
    | form hxy =>
      intro s' hs'
      obtain ⟨t', hruns, henv⟩ := (ih (part ht (.assigned hq)) hs .expr).ok hs'
      refine ⟨_, .assign (hxy.ofName?.1.trans hf) (Renaming.check_ok hq) hruns
        ((Listener.hear_assigned m.map _ _).trans hhear), .value rfl, ?_⟩
      exact (congrArg (Env.setVariable _ _) henv).trans (m.setVariable_rename _ _ _).symm
  | defineUnheard _ hq hhear =>
    cases hhear.symm.trans (c.listener.hear_defined _ _ (of_check_define hq).2.2)
  | @define room _ _ _ _ _ x g hf hq _ =>
    cases hu with
    | form hxy =>
      intro s' hs'
      have hbad : badParam? (g.rename m.map).params = none := by
        rw [Function.rename, badParam?_rename, (of_check_define hq).2.2]
        rfl
      refine ⟨_, .define (hxy.ofName?.1.trans hf) (Renaming.check_ok hq)
        (c.listener.hear_defined room _ hbad), .value rfl, ?_⟩
      exact (congrArg (Env.setFunction _ _) hs').trans (m.setFunction_rename _ _ _).symm
  | select hf hq _ ih =>
    cases hu with
    | form hxy =>
      intro s' hs'
      obtain ⟨r', hruns, hrest⟩ := ih (part ht (.selected hq)) hs .clauses s' hs'
      exact ⟨r', .select (hxy.ofName?.1.trans hf) (Renaming.check_ok hq) hruns, hrest⟩
  | operandsFail hf hop _ ih =>
    cases hu with
    | form hxy =>
      intro s' hs'
      obtain ⟨err', t', hruns, hfollows, henv⟩ := (ih (part ht .operands) hs .all).error hs'
      exact ⟨_, .operandsFail (hxy.ofName?.1.trans hf) (hxy.ofName?.2.trans hop) hruns,
        hfollows, henv⟩
  | @operator room _ _ _ _ op vs _ hf hop _ ih =>
    cases hu with
    | form hxy =>
      intro s' hs'
      obtain ⟨t', hruns, henv⟩ := (ih (part ht .operands) hs .all).list hs'
      exact ⟨_, .operator (hxy.ofName?.1.trans hf) (hxy.ofName?.2.trans hop) hruns,
        m.follows_apply op room vs, henv⟩
  | undefined hf hop hfun =>
    cases hu with
    | form hxy =>
      intro s' hs'
      obtain ⟨e', he', hgist⟩ := hxy.getFunction_error hs hfun
      rw [← hs'] at he'
      exact ⟨_, .undefined (hxy.ofName?.1.trans hf) (hxy.ofName?.2.trans hop) he',
        .fault hgist, hs'⟩
  | argumentsFail hf hop hfun _ ih =>
    cases hu with
    | form hxy =>
      intro s' hs'
      have hfun' := hs' ▸ hxy.getFunction_ok hs hfun
      obtain ⟨err', t', hruns, hfollows, henv⟩ := (ih (part ht .operands) hs .all).error hs'
      exact ⟨_, .argumentsFail (hxy.ofName?.1.trans hf) (hxy.ofName?.2.trans hop) hfun' hruns,
        hfollows, henv⟩
  | arity hf hop hfun _ hlen ih =>
    cases hu with
    | form hxy =>
      intro s' hs'
      have hfun' := hs' ▸ hxy.getFunction_ok hs hfun
      obtain ⟨t', hruns, henv⟩ := (ih (part ht .operands) hs .all).list hs'
      refine ⟨_, .arity (hxy.ofName?.1.trans hf) (hxy.ofName?.2.trans hop) hfun' hruns
        (by simpa using hlen), .fault ?_, henv⟩
      simp [Cause.gist]
  | tooDeep hf hop hfun _ hlen hdepth ih =>
    cases hu with
    | form hxy =>
      intro s' hs'
      have hfun' := hs' ▸ hxy.getFunction_ok hs hfun
      obtain ⟨t', hruns, henv⟩ := (ih (part ht .operands) hs .all).list hs'
      exact ⟨_, .tooDeep (hxy.ofName?.1.trans hf) (hxy.ofName?.2.trans hop) hfun' hruns
        (by simpa using hlen) hdepth, .fault rfl, henv⟩
  | unbindable _ _ hfun _ _ _ hparams =>
    cases hparams.symm.trans (upkeep_sound.params hs (Env.functionOf?_of_getFunction hfun))
  | @callUnheard _ depth name _ _ f vs _ _ hf hop hfun _ hlen hdepth hparams hhear ih =>
    cases hu with
    | @form _ y _ hxy =>
      intro s' hs'
      have hfun' := hs' ▸ hxy.getFunction_ok hs hfun
      obtain ⟨t', hruns, henv⟩ := (ih (part ht .operands) hs .all).list hs'
      exact ⟨_, .callUnheard (hxy.ofName?.1.trans hf) (hxy.ofName?.2.trans hop) hfun' hruns
        (by simpa using hlen) hdepth ((f.isList_params_rename m.map).trans hparams)
        ((Listener.hear_called m.map name y vs (depth + 1)).trans hhear), .escape, henv⟩
  | @call _ depth name _ _ f vs _ _ _ hf hop hfun h hlen hdepth hparams hhear _ ih ihbody =>
    cases hu with
    | @form _ y _ hxy =>
      intro s' hs'
      have hfun' := hs' ▸ hxy.getFunction_ok hs hfun
      obtain ⟨t', hruns, henv⟩ := (ih (part ht .operands) hs .all).list hs'
      -- The body is run from the frames that the arguments leave, with the renamed one inside.
      obtain ⟨hbody, hentered⟩ := (upkeep_sound.lasting c).body (part ht .operands) hs hfun h hdepth
      obtain ⟨⟨r'', t''⟩, hrunsBody, hfollowsBody, henvBody⟩ :=
        ihbody hbody hentered .expr _ (Renaming.env_enter henv f vs (depth + 1))
      refine ⟨_, .call (hxy.ofName?.1.trans hf) (hxy.ofName?.2.trans hop) hfun' hruns
        (by simpa using hlen) hdepth ((f.isList_params_rename m.map).trans hparams)
        ((Listener.hear_called m.map name y vs (depth + 1)).trans hhear) hrunsBody,
        hfollowsBody, ?_⟩
      exact (congrArg Env.pop henvBody).trans (m.pop_rename _).symm
  | nil =>
    cases hu
    exact fun s' hs' => ⟨_, .nil, .value rfl, hs'⟩
  | firstFails _ ih =>
    cases hu
    intro s' hs'
    obtain ⟨err', t', hruns, hfollows, henv⟩ := (ih (part ht .first) hs .expr).error hs'
    exact ⟨_, .firstFails hruns, hfollows, henv⟩
  | restFails h _ ih ihs =>
    cases hu
    intro s' hs'
    have hmid := (h.upheld upkeep_sound (part ht .first) hs).1
    obtain ⟨t', hruns, henv⟩ := (ih (part ht .first) hs .expr).ok hs'
    obtain ⟨err', t'', hruns', hfollows', henv'⟩ := (ihs (part ht .rest) hmid .all).error henv
    exact ⟨_, .restFails hruns hruns', hfollows', henv'⟩
  | cons h _ ih ihs =>
    cases hu
    intro s' hs'
    have hmid := (h.upheld upkeep_sound (part ht .first) hs).1
    obtain ⟨t', hruns, henv⟩ := (ih (part ht .first) hs .expr).ok hs'
    obtain ⟨t'', hruns', henv'⟩ := (ihs (part ht .rest) hmid .all).list henv
    exact ⟨_, .cons hruns hruns', .value (by simp [Value.rename]), henv'⟩
  | noClause =>
    cases hu
    exact fun s' hs' => ⟨_, .noClause, .value (congrArg Value.sym m.nil).symm, hs'⟩
  | otherwise htest _ ih =>
    cases hu
    intro s' hs'
    obtain ⟨r', hruns, hrest⟩ := ih (part ht .result) hs .expr s' hs'
    exact ⟨r', .otherwise (by simpa using htest) hruns, hrest⟩
  | testFails htest _ ih =>
    cases hu
    intro s' hs'
    obtain ⟨err', t', hruns, hfollows, henv⟩ := (ih (part ht .test) hs .expr).error hs'
    exact ⟨_, .testFails (by simpa using htest) hruns, hfollows, henv⟩
  | testHolds htest h hv _ ih ihr =>
    cases hu
    intro s' hs'
    have hmid := (h.upheld upkeep_sound (part ht .test) hs).1
    obtain ⟨t', hruns, henv⟩ := (ih (part ht .test) hs .expr).ok hs'
    obtain ⟨r'', hruns', hrest⟩ := ihr (part ht .result) hmid .expr t' henv
    exact ⟨r'', .testHolds (by simpa using htest) hruns (by simpa using hv) hruns', hrest⟩
  | testDoesNot htest h hv _ ih ihr =>
    cases hu
    intro s' hs'
    have hmid := (h.upheld upkeep_sound (part ht .test) hs).1
    obtain ⟨t', hruns, henv⟩ := (ih (part ht .test) hs .expr).ok hs'
    obtain ⟨r'', hruns', hrest⟩ := ihr (part ht .later) hmid .clauses t' henv
    exact ⟨r'', .testDoesNot (by simpa using htest) hruns (by simpa using hv) hruns', hrest⟩

/-- Evaluation commutes with renaming: what can be read comes, after renaming and with all frames
renamed, to the renamed value, or to a fault of the same kind and with the same numbers of arguments,
or to the same limit of the surroundings; and the frames afterwards are the renamed ones. What has
been logged before makes no difference. -/
theorem evaluate_rename (m : Renaming) (c : Conditions) (room : Nat) (depth : Int) {e : Value}
    (he : Legible e) {env : Env} (henv : env.Sound) (log log' : List Event) :
    let r := evaluate c room depth e ⟨env, log⟩
    let r' := evaluate c room depth (e.rename m.map) ⟨env.rename m.map, log'⟩
    m.Follows r.1 r'.1 ∧ r'.2.env = r.2.env.rename m.map := by
  intro r r'
  have hmirrors := (runs_evaluate c room depth e ⟨env, log⟩).mirrors m he henv .expr
  obtain ⟨r'', hruns, hfollows, hframes⟩ := hmirrors ⟨env.rename m.map, log'⟩ rfl
  have hr' : r' = r'' := hruns.evaluate_eq
  rw [hr']
  exact ⟨hfollows, hframes⟩

def Renaming.swap : Renaming where
  map z := if z = "x" then "y" else if z = "y" then "x" else z
  injective := by
    intro z w h
    grind
  isName := by
    intro z hz
    split
    · decide +kernel
    · split
      · decide +kernel
      · exact hz
  reserved := by
    intro z hz
    have hx : z ≠ "x" := by
      rintro rfl
      revert hz
      decide
    have hy : z ≠ "y" := by
      rintro rfl
      revert hz
      decide
    rw [if_neg hx, if_neg hy]
  t := rfl
  nil := rfl
  inf := rfl
  negInf := rfl

/-- A function that reads a variable of its caller, in a global frame where it is bound. -/
def pairing : Env :=
  (((Env.empty.setVariable "t" .t).setVariable "nil" .nil).setVariable "y" (.int 1)).setFunction "f"
    ⟨[.sym "x"], .list [.sym "list", .sym "x", .sym "y"]⟩

theorem sound_pairing : pairing.Sound := by
  have hx : IsName "x" := by decide +kernel
  have hy : IsName "y" := by decide +kernel
  have hlist : IsName "list" := by decide +kernel
  have hbody : Legible (.list [.sym "list", .sym "x", .sym "y"]) :=
    legible_of_spells (spells_list (spellsAll_cons (spells_name hlist)
      (spellsAll_cons (spells_name hx) (spellsAll_cons (spells_name hy) spellsAll_nil rfl) rfl) rfl))
  refine .of_every
    (((Env.every_empty.setVariable ?_).setVariable ?_).setVariable ?_ |>.setFunction ?_)
    (by decide) (by decide)
  · exact ⟨by decide +kernel, rfl⟩
  · exact ⟨by decide +kernel, rfl⟩
  · exact ⟨hy, rfl⟩
  · exact ⟨by decide +kernel, by decide, ⟨["x"], rfl, by simp, by simpa using hx⟩, hbody⟩

/-- With the two variables exchanged everywhere, the value is the same and is bound to the other. -/
theorem evaluate_rename_pairing :
    let e : Value := .list [.sym "setq", .sym "x", .list [.sym "f", .int 2]]
    let r := evaluate ⟨1, .quiet⟩ 9 0 (e.rename Renaming.swap.map)
      ⟨pairing.rename Renaming.swap.map, []⟩
    Legible e ∧ pairing.Sound ∧ r.1 = .ok (.list [.int 2, .int 1]) ∧
      r.2.env.valueOf? "y" = some (.list [.int 2, .int 1]) := by
  intro e r
  have hnumeral : Spells "2" (.int 2) :=
    spells_numeral (show Numeral.ofText? "2" = some (.integer false ['2']) by decide +kernel) rfl
  have hsetq : Spells "setq" (.sym "setq") := spells_name (by decide +kernel)
  have hx : Spells "x" (.sym "x") := spells_name (by decide +kernel)
  have hf : Spells "f" (.sym "f") := spells_name (by decide +kernel)
  have hcall := spells_list (spellsAll_cons hf (spellsAll_cons hnumeral spellsAll_nil rfl) rfl)
  have he : Legible e := legible_of_spells (spells_list (spellsAll_cons hsetq
    (spellsAll_cons hx (spellsAll_cons hcall spellsAll_nil rfl) rfl) rfl))
  obtain ⟨hfollows, hframes⟩ :=
    evaluate_rename .swap ⟨1, .quiet⟩ 9 0 he sound_pairing [] []
  refine ⟨he, sound_pairing, hfollows.ok, ?_⟩
  have hy : "y" = Renaming.swap.map "x" := rfl
  rw [hframes, hy, Renaming.valueOf?_rename]
  rfl

end PocketLisp
