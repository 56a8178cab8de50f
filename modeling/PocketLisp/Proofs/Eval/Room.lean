import PocketLisp.Eval.Evaluate

/-!
Computations within the host frames that are left. Each of them gives up when there are too few;
from some number of frames on it does not, and then more frames make no difference.
-/
namespace PocketLisp

/-- Something that depends on the host frames left: with enough of them it is not `x`, and from
then on it stays as it is. -/
structure Settling {β : Type} (x : β) (f : Nat → β) : Prop where
  steady : ∀ {room room' : Nat}, room ≤ room' → f room ≠ x → f room' = f room
  reached : ∃ room, f room ≠ x

namespace Settling

variable {α β ε : Type}

theorem const {x y : β} (h : y ≠ x) : Settling x fun _ => y :=
  ⟨fun _ _ => rfl, 0, h⟩

/-- More frames make no difference unless there were too few. -/
theorem keep {x : β} {f : Nat → β} (h : Settling x f) {room room' : Nat} (hle : room ≤ room')
    (hx : f room = x → room' = room) : f room' = f room := by
  by_cases he : f room = x
  · rw [hx he]
  · exact h.steady hle he

theorem delay {x : β} {f : Nat → β} (h : Settling x f) (k : Nat) :
    Settling x fun room => if room < k then x else f (room - k) := by
  constructor
  · intro room room' hle hne
    by_cases hlt : room < k
    · exact absurd (if_pos hlt) hne
    · have hlt' : ¬room' < k := by omega
      simp only [hlt, hlt', if_false] at hne ⊢
      exact h.steady (by omega) hne
  · obtain ⟨room, hroom⟩ := h.reached
    refine ⟨room + k, ?_⟩
    rw [if_neg (by omega), Nat.add_sub_cancel]
    exact hroom

theorem follow {γ : Type} {x : β} {y : γ} {f : Nat → β} {k : β → Nat → γ} (hf : Settling x f)
    (hx : ∀ room, k x room = y) (hk : ∀ b, b ≠ x → Settling y (k b)) :
    Settling y fun room => k (f room) room := by
  constructor
  · intro room room' hle hne
    have hfirst : f room ≠ x := fun he => hne (by rw [he, hx])
    simp only [hf.steady hle hfirst]
    exact (hk _ hfirst).steady hle hne
  · obtain ⟨room, hroom⟩ := hf.reached
    obtain ⟨more, hmore⟩ := (hk _ hroom).reached
    refine ⟨max room more, ?_⟩
    simp only [hf.steady (Nat.le_max_left room more) hroom,
      (hk _ hroom).steady (Nat.le_max_right room more) hmore]
    exact hmore

theorem bind {x : ε} {f : Nat → Except ε α} {g : α → Nat → Except ε β} (hf : Settling (.error x) f)
    (hg : ∀ a, Settling (.error x) (g a)) :
    Settling (.error x) fun room => f room >>= fun a => g a room := by
  refine hf.follow (k := fun b room => b >>= fun a => g a room) (fun _ => rfl) ?_
  intro b hb
  cases b with
  | error e => exact .const fun he => hb (congrArg Except.error (Except.error.inj he))
  | ok a => exact hg a

theorem map {x : ε} {f : Nat → Except ε α} (hf : Settling (.error x) f) (g : α → β) :
    Settling (.error x) fun room => (f room).map g := by
  refine hf.follow (k := fun b _ => b.map g) (fun _ => rfl) ?_
  intro b hb
  cases b with
  | error e => exact .const fun he => hb (congrArg Except.error (Except.error.inj he))
  | ok a => exact .const fun he => nomatch he

end Settling

theorem Number.print_ne_exhausted (n : Number) : n.print ≠ .error .exhausted := by
  cases n with
  | int n =>
    rw [Number.print, intText]
    split <;> exact fun he => nomatch he
  | float x => exact fun he => nomatch he

/-- A style that writes foreign objects, or refuses them, with no frames at all. -/
def Style.Plain (st : Style) : Prop := ∀ x, st.foreign x ≠ .error .exhausted

theorem Style.plain_printed : Style.printed.Plain := fun _ he => nomatch he

theorem Style.plain_inspected : Style.inspected.Plain := fun _ he => nomatch he

namespace Value

mutual

theorem settling_writeWithin {st : Style} (hst : st.Plain) (v : Value) :
    Settling (.error .exhausted) fun room => v.writeWithin st room := by
  match v with
  | .num n => exact .const n.print_ne_exhausted
  | .sym name => exact .const fun he => nomatch he
  | .foreign x => exact .const (hst x)
  | .list items =>
    have hlevel : (fun room => (Value.list items).writeWithin st room) = fun room =>
        if room < 1 then .error .exhausted
        else (writeListWithin st (room - 1) items).map st.list := by
      funext room
      cases room <;> rfl
    rw [hlevel]
    exact ((settling_writeListWithin hst items).map st.list).delay 1

theorem settling_writeListWithin {st : Style} (hst : st.Plain) (vs : List Value) :
    Settling (.error .exhausted) fun room => writeListWithin st room vs := by
  match vs with
  | [] => exact .const fun he => nomatch he
  | v :: vs =>
    exact (settling_writeWithin hst v).bind fun s =>
      (settling_writeListWithin hst vs).bind fun ss => .const fun he => nomatch he

end

theorem settling_inspectWithin (v : Value) :
    Settling (.error .exhausted) fun room => v.inspectWithin room :=
  settling_writeWithin Style.plain_inspected v

theorem settling_renderWithin (v : Value) :
    Settling (.error .exhausted) fun room => v.renderWithin room := by
  unfold renderWithin
  split
  · exact .const fun he => nomatch he
  · exact settling_writeWithin Style.plain_printed v

theorem write_ne_exhausted {st : Style} (hst : st.Plain) (v : Value) :
    v.write st ≠ .error .exhausted := by
  obtain ⟨room, hroom⟩ := (settling_writeWithin hst v).reached
  have hmore := (settling_writeWithin hst v).steady (Nat.le_max_left room v.nesting) hroom
  rw [writeWithin_of_nesting_le st (Nat.le_max_right room v.nesting)] at hmore
  rw [hmore]
  exact hroom

mutual

theorem settling_sameWithin? (a b : Value) : Settling none fun room => sameWithin? room a b := by
  match a, b with
  | .list as, .list bs =>
    by_cases hlen : as.length = bs.length
    · have hlevel : (fun room => sameWithin? room (.list as) (.list bs)) = fun room =>
          if room < framesPerLevel then none
          else sameListWithin? (room - framesPerLevel) as bs := by
        funext room
        simp [sameWithin?, hlen]
      rw [hlevel]
      exact (settling_sameListWithin? as bs).delay framesPerLevel
    · simp only [sameWithin?, ne_eq, hlen, not_false_eq_true, if_true]
      exact .const (by simp)
  | .num m, .num n => exact .const (by simp)
  | .sym a, .sym b => exact .const (by simp)
  | .foreign x, .foreign y => exact .const (by simp)
  | .num _, .sym _ | .num _, .list _ | .num _, .foreign _ | .sym _, .num _ | .sym _, .list _
  | .sym _, .foreign _ | .list _, .num _ | .list _, .sym _ | .list _, .foreign _
  | .foreign _, .num _ | .foreign _, .sym _ | .foreign _, .list _ =>
    exact .const (by simp)

theorem settling_sameListWithin? (as bs : List Value) :
    Settling none fun room => sameListWithin? room as bs := by
  match as, bs with
  | [], [] => exact .const (by simp)
  | [], _ :: _ => exact .const (by simp)
  | _ :: _, [] => exact .const (by simp)
  | a :: as, b :: bs =>
    have hcons : (fun room => sameListWithin? room (a :: as) (b :: bs)) = fun room =>
        if sameWithin? room a b = some true then sameListWithin? room as bs
        else sameWithin? room a b := by
      funext room
      rw [sameListWithin?]
      split
      · rename_i h
        simp only [h, if_true]
      · rename_i h
        exact (if_neg h).symm
    rw [hcons]
    refine (settling_sameWithin? a b).follow
      (k := fun r room => if r = some true then sameListWithin? room as bs else r) (fun _ => rfl) ?_
    intro r hr
    by_cases htrue : r = some true
    · simpa only [htrue, if_true] using settling_sameListWithin? as bs
    · simpa only [htrue, if_false] using Settling.const hr

end

end Value

theorem settling_shown {α : Type} (cause : String → Cause) (v : Value) :
    Settling (.error (.escape .exhausted) : Except Failure α) fun room =>
      match v.renderWithin room with
      | .ok shown => .error (.because (cause shown))
      | .error e => .error (.escape e) := by
  let fault : Except Escape String → Except Failure α
    | .ok shown => .error (.because (cause shown))
    | .error e => .error (.escape e)
  refine v.settling_renderWithin.follow (k := fun b _ => fault b) (fun _ => rfl) ?_
  intro b hb
  refine .const ?_
  cases b with
  | ok shown => exact fun he => nomatch he
  | error e =>
    intro he
    injection he with he
    injection he with he
    exact hb (congrArg Except.error he)

theorem settling_operatorName (head : Value) :
    Settling (.error .exhausted) fun room => operatorName room head := by
  unfold operatorName
  split
  · exact .const fun he => nomatch he
  · exact head.settling_renderWithin

theorem settling_messageWithin (e : Event) :
    Settling (.error .exhausted) fun room => e.messageWithin room := by
  unfold Event.messageWithin Event.messageBy
  cases e with
  | assigned name v => exact v.settling_inspectWithin.bind fun s => .const fun he => nomatch he
  | called name args depth =>
    exact (Value.list args).settling_inspectWithin.bind fun s => .const fun he => nomatch he
  | defined name params =>
    have hprint : Settling (.error .exhausted) fun _ => (Value.list params).print :=
      .const ((Value.list params).write_ne_exhausted Style.plain_printed)
    exact hprint.bind fun s => .const fun he => nomatch he
  | settingIgnored name raw fault => exact .const fun he => nomatch he
  | frameLimitRaised old new => exact .const fun he => nomatch he
  | reading code => exact .const fun he => nomatch he
  | chunkFailed chunk => exact .const fun he => nomatch he

/-- What a listener makes of the words of an event, or of the lack of them. -/
def Listener.react (l : Listener) : Except Escape String → Except Escape Unit
  | .ok _ => .ok ()
  | .error .exhausted => .error .exhausted
  | .error x => if l.patient then .ok () else .error x

theorem settling_hear (l : Listener) (e : Event) :
    Settling (.error .exhausted) fun room => l.hear room e := by
  unfold Listener.hear
  by_cases hrank : e.level.rank < l.rank
  · simp only [hrank, if_true]
    exact .const fun he => nomatch he
  · simp only [hrank, if_false]
    refine (settling_messageWithin e).follow (k := fun b _ => l.react b) (fun _ => rfl) ?_
    intro b hb
    refine .const ?_
    unfold Listener.react
    split
    · exact fun he => nomatch he
    · exact absurd rfl hb
    · split
      · exact fun he => nomatch he
      · exact fun he => hb (congrArg Except.error (Except.error.inj he))

namespace Operator

theorem settling_number (op : Operator) (v : Value) :
    Settling (.error (.escape .exhausted)) fun room => op.number room v := by
  unfold number
  cases v.asNumber? with
  | some n => exact .const fun he => nomatch he
  | none => exact settling_shown (.notNumeric op.name) v

theorem settling_numbers (op : Operator) (vs : List Value) :
    Settling (.error (.escape .exhausted)) fun room => op.numbers room vs := by
  induction vs with
  | nil => exact .const fun he => nomatch he
  | cons v vs ih =>
    exact (op.settling_number v).bind fun n => ih.bind fun ns => .const fun he => nomatch he

theorem error_of_inRange {op : Operator} {n : Option Number} {e : Failure}
    (h : op.inRange n = .error e) : e = .because (.outOfRange op.name) := by
  cases n with
  | none => exact (Except.error.inj h).symm
  | some n => cases h

theorem error_of_floatQuotient {x : Binary64} {ns : List Number} {e : Failure}
    (h : floatQuotient x ns = .error e) :
    e = .because (.outOfRange Operator.div.name) ∨ e = .escape .noQuotient := by
  induction ns generalizing x with
  | nil => cases h
  | cons n ns ih =>
    rw [floatQuotient] at h
    split at h
    · exact .inl (Except.error.inj h).symm
    · split at h
      · exact .inr (Except.error.inj h).symm
      · exact ih h

theorem error_of_quotient {n : Number} {ns : List Number} {e : Failure}
    (h : quotient n ns = .error e) :
    e = .because (.outOfRange Operator.div.name) ∨ e = .escape .noQuotient := by
  unfold quotient at h
  split at h
  · exact error_of_floatQuotient h
  · split at h
    · unfold exactQuotient at h
      dsimp only at h
      split at h
      · cases h
      · exact .inl (error_of_inRange h)
    · split at h
      · exact .inl (Except.error.inj h).symm
      · exact error_of_floatQuotient h

theorem inRange_ne_exhausted (op : Operator) (n : Option Number) :
    op.inRange n ≠ .error (.escape .exhausted) := by
  intro h
  cases error_of_inRange h

theorem quotient_ne_exhausted (n : Number) (ns : List Number) :
    quotient n ns ≠ .error (.escape .exhausted) := by
  intro h
  rcases error_of_quotient h with h | h <;> cases h

theorem settling_divide (n : Number) (ns : List Number) :
    Settling (.error (.escape .exhausted)) fun room => divide room n ns := by
  unfold divide
  split
  · exact settling_shown .divisionByZero _
  · exact .const (quotient_ne_exhausted n ns)

/-- The answer to a comparison that came to an end, if it did. -/
def answer (same : Option Bool) : Except Failure Value :=
  same.elim (.error (.escape .exhausted)) fun same => .ok (Value.ofBool same)

theorem compare_eq_answer (room : Nat) (a b : Value) :
    compare room a b = answer (a.sameWithin? room b) := by
  unfold compare
  cases a.sameWithin? room b <;> rfl

theorem settling_compare (a b : Value) :
    Settling (.error (.escape .exhausted)) fun room => compare room a b := by
  simp only [compare_eq_answer]
  refine (Value.settling_sameWithin? a b).follow (k := fun same _ => answer same) (fun _ => rfl) ?_
  intro same hsame
  cases same with
  | none => exact absurd rfl hsame
  | some same => exact .const fun he => nomatch he

theorem settling_apply (op : Operator) (args : List Value) :
    Settling (.error (.escape .exhausted)) fun room => op.apply room args := by
  unfold apply
  split
  · exact (settling_numbers .add _).bind fun ns => .const (inRange_ne_exhausted _ _)
  · exact (settling_numbers .mul _).bind fun ns => .const (inRange_ne_exhausted _ _)
  · exact (settling_number .sub _).bind fun n =>
      (settling_numbers .sub _).bind fun ns => .const (inRange_ne_exhausted _ _)
  · exact (settling_number .div _).bind fun n =>
      (settling_numbers .div _).bind fun ns => settling_divide n ns
  · exact (settling_number .less _).bind fun m =>
      (settling_number .less _).bind fun n => .const fun he => nomatch he
  · exact (settling_number .greater _).bind fun m =>
      (settling_number .greater _).bind fun n => .const fun he => nomatch he
  · exact settling_compare _ _
  · exact .const fun he => nomatch he
  · exact .const fun he => nomatch he
  · exact .const fun he => nomatch he

end Operator

end PocketLisp
