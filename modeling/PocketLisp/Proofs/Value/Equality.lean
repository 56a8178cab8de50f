import PocketLisp.Proofs.Eval.Precedence
import PocketLisp.Proofs.Number.Order
import PocketLisp.Proofs.Session.Invariant

/-!
Comparing two values finds whether they are the same tree: whether at each place of the one there is
the same symbol, the same integer, a floating-point number of the same value or a list of the same
length as at that place of the other (`SameTree`). So comparison is symmetric and transitive, and a
value equals itself unless something in it is not a number. Values that can be printed and read back
are the same exactly if they are printed the same, except for the sign of a zero.

Comparison takes host frames for each level of lists, and with too few of them it gives up.
-/
namespace PocketLisp

namespace Binary64

theorem eq_iff_place? (x y : Binary64) :
    x.eq y = true ↔ ∃ p, (Number.float x).place? = some p ∧ (Number.float y).place? = some p := by
  cases x with
  | finite a c =>
    cases y with
    | finite b d =>
      rw [eq, beq_iff_eq]
      constructor
      · intro h
        exact ⟨.point (signed a (units c)), rfl, congrArg (some ∘ Number.Place.point) h.symm⟩
      · rintro ⟨p, hx, hy⟩
        exact Number.Place.point.inj (Option.some.inj (hx.trans hy.symm))
    | infinite b =>
      refine iff_of_false Bool.false_ne_true ?_
      rintro ⟨p, ⟨⟩, hy⟩
      cases b <;> cases hy
    | nan =>
      refine iff_of_false Bool.false_ne_true ?_
      rintro ⟨p, -, ⟨⟩⟩
  | infinite a =>
    cases y with
    | finite b d =>
      refine iff_of_false Bool.false_ne_true ?_
      rintro ⟨p, hx, ⟨⟩⟩
      cases a <;> cases hx
    | infinite b =>
      rw [eq, beq_iff_eq]
      constructor
      · rintro rfl
        exact ⟨_, rfl, rfl⟩
      · rintro ⟨p, hx, hy⟩
        have hplace := hx.trans hy.symm
        cases a with
        | false =>
          cases b with
          | false => rfl
          | true => cases hplace
        | true =>
          cases b with
          | false => cases hplace
          | true => rfl
    | nan =>
      refine iff_of_false Bool.false_ne_true ?_
      rintro ⟨p, -, ⟨⟩⟩
  | nan =>
    refine iff_of_false (by cases y <;> exact Bool.false_ne_true) ?_
    rintro ⟨p, ⟨⟩, -⟩

theorem eq_iff (x y : Binary64) :
    x.eq y = true ↔ ∃ q, (Number.float x).amount? = some q ∧ (Number.float y).amount? = some q := by
  rw [eq_iff_place?, Number.amount?_eq, Number.amount?_eq]
  constructor
  · rintro ⟨p, hx, hy⟩
    exact ⟨p.amount, by rw [hx]; rfl, by rw [hy]; rfl⟩
  · rintro ⟨q, hx, hy⟩
    obtain ⟨p, hp, rfl⟩ := Option.map_eq_some_iff.mp hx
    obtain ⟨p', hp', hsame⟩ := Option.map_eq_some_iff.mp hy
    exact ⟨p, hp, Number.Place.amount_injective hsame ▸ hp'⟩

theorem signed_inj_of_pos {a b : Bool} {m n : Nat} (hm : 0 < m) (h : signed a m = signed b n) :
    a = b ∧ m = n := by
  cases a <;> cases b <;> simp [signed] at h ⊢ <;> omega

/-- Numbers that are equal are the same, zeros apart. -/
theorem eq_of_eq {x y : Binary64} (h : x.eq y = true) (hx : x.isZero = false) : x = y := by
  cases x with
  | finite a c =>
    cases y with
    | finite b d =>
      have hc : 0 < units c := by
        have hne : (0 : Nat) < c := Nat.pos_of_ne_zero (by simpa [isZero] using hx)
        exact Nat.zero_lt_of_lt (units_strictMono hne)
      obtain ⟨rfl, hcode⟩ := signed_inj_of_pos hc (by simpa [eq] using h)
      rw [Fin.ext (units_strictMono.injective hcode)]
    | infinite b => cases h
    | nan => cases h
  | infinite a =>
    cases y with
    | finite b d => cases h
    | infinite b => rw [show a = b by simpa [eq] using h]
    | nan => cases h
  | nan => cases h

end Binary64

namespace Value

/-- What stands at a place of a value: a list of so many items, or a value that is no list. -/
inductive Node where
  | list (length : Nat)
  | num (n : Number)
  | sym (name : String)
  | foreign (x : Foreign)

def node : Value → Node
  | .list items => .list items.length
  | .num n => .num n
  | .sym name => .sym name
  | .foreign x => .foreign x

/-- The value at a place, which is given by the numbers of the items on the way to it. -/
def part? : Value → List Nat → Option Value
  | v, [] => some v
  | .list items, i :: place => items[i]?.bind (part? · place)
  | _, _ :: _ => none

def node? (v : Value) (place : List Nat) : Option Node := (v.part? place).map node

/-- Lists of the same length, the same symbol or integer, or floating-point numbers of the same
mathematical value. -/
inductive Node.Agrees : Node → Node → Prop
  | list (length : Nat) : Agrees (.list length) (.list length)
  | int (n : Int) : Agrees (.num (.int n)) (.num (.int n))
  | float {x y : Binary64} {q : WithBot (WithTop ℚ)} (hx : (Number.float x).amount? = some q)
      (hy : (Number.float y).amount? = some q) : Agrees (.num (.float x)) (.num (.float y))
  | sym (name : String) : Agrees (.sym name) (.sym name)
  | foreign (x : Foreign) : Agrees (.foreign x) (.foreign x)

/-- Both values have the same places, and what stands at a place of the one agrees with what stands
there in the other. -/
def SameTree (v w : Value) : Prop := ∀ place, Option.Rel Node.Agrees (v.node? place) (w.node? place)

namespace Node.Agrees

variable {m n k : Node}

theorem symm (h : Agrees m n) : Agrees n m := by
  cases h with
  | list => exact .list _
  | int => exact .int _
  | float hx hy => exact .float hy hx
  | sym => exact .sym _
  | foreign => exact .foreign _

theorem trans (h : Agrees m n) (h' : Agrees n k) : Agrees m k := by
  cases h with
  | list => exact h'
  | int => exact h'
  | float hx hy =>
    cases h' with
    | float hy' hz => exact .float hx (Option.some.inj (hy.symm.trans hy') ▸ hz)
  | sym => exact h'
  | foreign => exact h'

theorem self_iff : Agrees n n ↔ n ≠ .num (.float .nan) := by
  constructor
  · rintro h rfl
    cases h with
    | float hx => cases hx
  · intro h
    cases n with
    | list length => exact .list length
    | sym name => exact .sym name
    | foreign x => exact .foreign x
    | num n =>
      cases n with
      | int n => exact .int n
      | float x =>
        have hx : Number.float x ≠ .float .nan := fun hx => h (congrArg Node.num hx)
        obtain ⟨q, hq⟩ := Number.Comparable.exists_amount ⟨_, hx⟩
        exact .float hq hq

end Node.Agrees

theorem agrees_num_iff (m n : Number) : Node.Agrees (.num m) (.num n) ↔ m.same n = true := by
  constructor
  · intro h
    cases h with
    | int n => simp [Number.same]
    | float hx hy => exact (Binary64.eq_iff _ _).mpr ⟨_, hx, hy⟩
  · intro h
    cases m with
    | int m =>
      cases n with
      | int n =>
        obtain rfl : m = n := by simpa [Number.same] using h
        exact .int m
      | float y => cases h
    | float x =>
      cases n with
      | int n => cases h
      | float y =>
        obtain ⟨q, hx, hy⟩ := (Binary64.eq_iff x y).mp h
        exact .float hx hy

theorem agrees_list_iff {m n : Nat} : Node.Agrees (.list m) (.list n) ↔ m = n := by
  constructor
  · intro h
    cases h
    rfl
  · rintro rfl
    exact .list m

namespace SameTree

variable {u v w : Value}

theorem agrees (h : SameTree v w) : Node.Agrees v.node w.node := by
  cases h [] with
  | some h => exact h

theorem trans (h : SameTree u v) (h' : SameTree v w) : SameTree u w := by
  intro place
  have hplace := h place
  have hplace' := h' place
  generalize u.node? place = l at hplace ⊢
  generalize v.node? place = m at hplace hplace'
  generalize w.node? place = n at hplace' ⊢
  cases hplace with
  | some h =>
    cases hplace' with
    | some h' => exact .some (h.trans h')
  | none =>
    cases hplace'
    exact .none

end SameTree

theorem sameTree_nil : SameTree (.list []) (.list []) := by
  intro place
  cases place with
  | nil => exact .some (.list 0)
  | cons i place => exact .none

theorem sameTree_cons_iff {a b : Value} {as bs : List Value} :
    SameTree (.list (a :: as)) (.list (b :: bs)) ↔
      SameTree a b ∧ SameTree (.list as) (.list bs) := by
  constructor
  · intro h
    refine ⟨fun place => h (0 :: place), fun place => ?_⟩
    cases place with
    | nil => exact .some (agrees_list_iff.mpr (Nat.succ.inj (agrees_list_iff.mp h.agrees)))
    | cons i place => exact h ((i + 1) :: place)
  · rintro ⟨hfirst, hrest⟩ place
    cases place with
    | nil => exact .some (agrees_list_iff.mpr (congrArg Nat.succ (agrees_list_iff.mp hrest.agrees)))
    | cons i place =>
      cases i with
      | zero => exact hfirst place
      | succ i => exact hrest (i :: place)

theorem node?_cons_of_isList {v : Value} (h : v.isList = false) (i : Nat) (place : List Nat) :
    v.node? (i :: place) = none := by
  cases v with
  | list => cases h
  | num | sym | foreign => rfl

theorem isList_of_agrees {v w : Value} (h : Node.Agrees v.node w.node) : v.isList = w.isList := by
  cases v <;> cases w <;> first | rfl | cases h

theorem sameTree_leaf_iff {v w : Value} (h : v.isList = false) :
    SameTree v w ↔ Node.Agrees v.node w.node := by
  refine ⟨SameTree.agrees, fun hagrees place => ?_⟩
  cases place with
  | nil => exact .some hagrees
  | cons i place =>
    rw [node?_cons_of_isList h, node?_cons_of_isList ((isList_of_agrees hagrees).symm.trans h)]
    exact .none

theorem same_leaf_iff {v w : Value} (h : v.isList = false) :
    v.same w = true ↔ Node.Agrees v.node w.node := by
  cases v with
  | list => cases h
  | num m =>
    cases w with
    | num n => exact (agrees_num_iff m n).symm
    | list | sym | foreign =>
      refine iff_of_false (by simp [same]) ?_
      rintro ⟨⟩
  | sym x =>
    cases w with
    | sym y =>
      rw [same, beq_iff_eq]
      constructor
      · rintro rfl
        exact .sym x
      · rintro ⟨⟩
        rfl
    | list | num | foreign =>
      refine iff_of_false (by simp [same]) ?_
      rintro ⟨⟩
  | foreign x =>
    cases w with
    | foreign y =>
      rw [same, beq_iff_eq]
      constructor
      · rintro rfl
        exact .foreign x
      · rintro ⟨⟩
        rfl
    | list | num | sym =>
      refine iff_of_false (by simp [same]) ?_
      rintro ⟨⟩

mutual

/-- Comparison decides whether two values are the same tree. -/
theorem same_iff_sameTree (v w : Value) : v.same w = true ↔ SameTree v w := by
  match v with
  | .num _ | .sym _ | .foreign _ => rw [same_leaf_iff rfl, sameTree_leaf_iff rfl]
  | .list as =>
    match w with
    | .list bs =>
      rw [same]
      exact sameList_iff_sameTree as bs
    | .num _ | .sym _ | .foreign _ =>
      refine iff_of_false (by simp [same]) fun h => ?_
      cases h.agrees

theorem sameList_iff_sameTree (as bs : List Value) :
    sameList as bs = true ↔ SameTree (.list as) (.list bs) := by
  match as, bs with
  | [], [] => exact iff_of_true rfl sameTree_nil
  | [], _ :: _ | _ :: _, [] =>
    refine iff_of_false (by simp [sameList]) fun h => ?_
    cases agrees_list_iff.mp h.agrees
  | a :: as, b :: bs =>
    rw [sameList, Bool.and_eq_true, sameTree_cons_iff, same_iff_sameTree a b,
      sameList_iff_sameTree as bs]

end

theorem within_iff_part? {v w : Value} : Within v w ↔ ∃ place, w.part? place = some v := by
  constructor
  · intro h
    induction h with
    | refl => exact ⟨[], rfl⟩
    | item hmem _ ih =>
      obtain ⟨i, hi⟩ := List.mem_iff_getElem?.mp hmem
      obtain ⟨place, hplace⟩ := ih
      exact ⟨i :: place, by rw [part?, hi]; exact hplace⟩
  · rintro ⟨place, h⟩
    induction place generalizing w with
    | nil =>
      cases h
      exact .refl v
    | cons i place ih =>
      cases w with
      | list items =>
        obtain ⟨x, hx, hpart⟩ := Option.bind_eq_some_iff.mp h
        exact .item (List.mem_iff_getElem?.mpr ⟨i, hx⟩) (ih hpart)
      | num | sym | foreign => cases h

/-- A value is the same tree as itself unless something in it is not a number. -/
theorem sameTree_self_iff {v : Value} : SameTree v v ↔ ¬Within (.float .nan) v := by
  rw [within_iff_part?]
  constructor
  · rintro h ⟨place, hnan⟩
    have hplace := h place
    rw [node?, hnan] at hplace
    cases hplace with
    | some hself => exact Node.Agrees.self_iff.mp hself rfl
  · intro h place
    cases hpart : v.part? place with
    | none =>
      rw [node?, hpart]
      exact .none
    | some w =>
      rw [node?, hpart]
      refine .some (Node.Agrees.self_iff.mpr fun hnan => h ⟨place, hpart.trans ?_⟩)
      cases w with
      | num n => rw [Node.num.inj hnan]
      | list | sym | foreign => cases hnan

mutual

/-- To find that two values are the same, every level of them is compared. -/
theorem nesting_le_of_sameWithin? {room : Nat} {v w : Value}
    (h : v.sameWithin? room w = some true) : framesPerLevel * v.nesting ≤ room := by
  match v, w with
  | .num _, _ | .sym _, _ | .foreign _, _ => exact Nat.zero_le room
  | .list _, .num _ | .list _, .sym _ | .list _, .foreign _ => simp [sameWithin?] at h
  | .list as, .list bs =>
    rw [sameWithin?] at h
    split at h
    · cases h
    · split at h
      · cases h
      · have hitems := nestingList_le_of_sameListWithin? h
        rw [nesting, Nat.mul_add]
        omega

theorem nestingList_le_of_sameListWithin? {room : Nat} {vs ws : List Value}
    (h : sameListWithin? room vs ws = some true) : framesPerLevel * nestingList vs ≤ room := by
  match vs, ws with
  | [], _ => exact Nat.zero_le room
  | _ :: _, [] => simp [sameListWithin?] at h
  | v :: vs, w :: ws =>
    rw [sameListWithin?] at h
    split at h
    · rename_i hfirst
      have hv := nesting_le_of_sameWithin? hfirst
      have hvs := nestingList_le_of_sameListWithin? h
      rw [nestingList, ← Nat.mul_max_mul_left]
      exact Nat.max_le.mpr ⟨hv, hvs⟩
    · rename_i hfirst
      exact absurd h hfirst

end

theorem sameWithin?_iff {room : Nat} {v w : Value} : v.sameWithin? room w = some true ↔
    SameTree v w ∧ framesPerLevel * v.nesting ≤ room := by
  rw [← same_iff_sameTree]
  constructor
  · intro h
    exact ⟨(eq_same_of_sameWithin? h).symm, nesting_le_of_sameWithin? h⟩
  · rintro ⟨hsame, hroom⟩
    rw [sameWithin?_of_nesting_le hroom, hsame]

theorem same_number_comm (m n : Number) : m.same n = n.same m := by
  rw [Bool.eq_iff_iff, ← agrees_num_iff, ← agrees_num_iff]
  exact ⟨Node.Agrees.symm, Node.Agrees.symm⟩

mutual

/-- It makes no difference which value comes first, also when the frames run out. -/
theorem sameWithin?_comm (room : Nat) (v w : Value) :
    v.sameWithin? room w = w.sameWithin? room v := by
  match v, w with
  | .num m, .num n => rw [sameWithin?, sameWithin?, same_number_comm]
  | .sym x, .sym y => rw [sameWithin?, sameWithin?, BEq.comm]
  | .foreign x, .foreign y => rw [sameWithin?, sameWithin?, BEq.comm]
  | .list as, .list bs =>
    rw [sameWithin?, sameWithin?, sameListWithin?_comm _ as bs]
    simp only [ne_comm]
  | .num _, .sym _ | .num _, .list _ | .num _, .foreign _ | .sym _, .num _ | .sym _, .list _
  | .sym _, .foreign _ | .list _, .num _ | .list _, .sym _ | .list _, .foreign _
  | .foreign _, .num _ | .foreign _, .sym _ | .foreign _, .list _ => simp [sameWithin?]

theorem sameListWithin?_comm (room : Nat) (vs ws : List Value) :
    sameListWithin? room vs ws = sameListWithin? room ws vs := by
  match vs, ws with
  | [], [] => rfl
  | [], _ :: _ | _ :: _, [] => simp [sameListWithin?]
  | v :: vs, w :: ws =>
    rw [sameListWithin?, sameListWithin?, sameWithin?_comm room v w,
      sameListWithin?_comm room vs ws]

end

/-- Comparison gives up only if there are too few frames for both values. -/
theorem lt_of_sameWithin?_none {room : Nat} {v w : Value} (h : v.sameWithin? room w = none) :
    room < framesPerLevel * v.nesting ∧ room < framesPerLevel * w.nesting := by
  have lacking {v w : Value} (h : v.sameWithin? room w = none) :
      room < framesPerLevel * v.nesting := by
    apply Nat.lt_of_not_le
    intro hroom
    rw [sameWithin?_of_nesting_le hroom] at h
    cases h
  exact ⟨lacking h, lacking (sameWithin?_comm room v w ▸ h)⟩

/-- With too few frames, it is not found that two values are the same tree. -/
theorem sameWithin?_eq_none {room : Nat} {v w : Value} (h : SameTree v w)
    (hroom : room < framesPerLevel * v.nesting) : v.sameWithin? room w = none := by
  cases hsame : v.sameWithin? room w with
  | none => rfl
  | some r =>
    have hr : r = true := (eq_same_of_sameWithin? hsame).trans ((same_iff_sameTree v w).mpr h)
    rw [hr] at hsame
    exact absurd (nesting_le_of_sameWithin? hsame) (Nat.not_le.mpr hroom)

def HoldsZero (v : Value) : Prop := ∃ negative, Within (.float (.zero negative)) v

mutual

/-- Zeros apart, values that are the same tree are the same value. -/
theorem eq_of_same {v w : Value} (hzero : ¬v.HoldsZero) (h : v.same w = true) : v = w := by
  match v, w with
  | .num (.int m), .num (.int n) => rw [show m = n by simpa [same, Number.same] using h]
  | .num (.float x), .num (.float y) =>
    have hx : x.isZero = false := by
      apply Bool.eq_false_iff.mpr
      intro hx
      have hnumber : (Number.float x).isZero = true := hx
      rcases Number.isZero_iff.mp hnumber with hx | ⟨negative, hx⟩
      · cases hx
      · exact hzero ⟨negative, hx ▸ .refl _⟩
    rw [Binary64.eq_of_eq h hx]
  | .sym x, .sym y => rw [show x = y by simpa [same] using h]
  | .foreign x, .foreign y => rw [show x = y by simpa [same] using h]
  | .list as, .list bs =>
    have hitems : ∀ v ∈ as, ¬v.HoldsZero :=
      fun v hv ⟨negative, hz⟩ => hzero ⟨negative, .item hv hz⟩
    rw [eq_of_sameList hitems (by simpa [same] using h)]
  | .num (.int _), .num (.float _) | .num (.float _), .num (.int _)
  | .num _, .sym _ | .num _, .list _ | .num _, .foreign _ | .sym _, .num _ | .sym _, .list _
  | .sym _, .foreign _ | .list _, .num _ | .list _, .sym _ | .list _, .foreign _
  | .foreign _, .num _ | .foreign _, .sym _ | .foreign _, .list _ =>
    simp [same, Number.same] at h

theorem eq_of_sameList {vs ws : List Value} (hzero : ∀ v ∈ vs, ¬v.HoldsZero)
    (h : sameList vs ws = true) : vs = ws := by
  match vs, ws with
  | [], [] => rfl
  | [], _ :: _ | _ :: _, [] => simp [sameList] at h
  | v :: vs, w :: ws =>
    obtain ⟨hfirst, hrest⟩ : v.same w = true ∧ sameList vs ws = true := by simpa [sameList] using h
    rw [eq_of_same (hzero v List.mem_cons_self) hfirst,
      eq_of_sameList (fun u hu => hzero u (List.mem_cons_of_mem v hu)) hrest]

end

end Value

namespace Reader

open Value

theorem Legible.part {u v : Value} (hpart : Within u v) (h : Legible v) : Legible u := by
  induction hpart with
  | refl => exact h
  | item hmem _ ih => exact ih (h.item hmem)

theorem Legible.sameTree_self {v : Value} (h : Legible v) : SameTree v v :=
  sameTree_self_iff.mpr fun hnan => not_legible_nan (h.part hnan)

theorem Spells.unique {s : String} {v w : Value} (hv : Spells s v) (hw : Spells s w) : v = w := by
  have hread := parse_of_spells hv (Nat.le_max_left _ w.nesting)
  rw [parse_of_spells hw (Nat.le_max_right ..)] at hread
  exact (Option.some.inj (Except.ok.inj hread)).symm

end Reader

namespace Value

open Reader

/-- Without zeros, values that can be printed and read back are the same tree exactly if they are
printed the same. -/
theorem sameTree_iff_text {v w : Value} {s t : String} (hv : Spells s v) (hw : Spells t w)
    (hsv : v.write .printed = .ok s) (htw : w.write .printed = .ok t) (hzero : ¬v.HoldsZero) :
    SameTree v w ↔ s = t := by
  constructor
  · intro h
    obtain rfl := eq_of_same hzero ((same_iff_sameTree v w).mpr h)
    exact Except.ok.inj (hsv.symm.trans htw)
  · rintro rfl
    obtain rfl := hv.unique hw
    exact (legible_of_spells hv).sameTree_self

/-- Comparison is a sound equality of values, as far as there are host frames. It is symmetric, also
where it gives up, and transitive. Provided there are frames for every level, it finds a value equal
to itself exactly if no NaN stands in it, and two values equal exactly if they are the same tree. It
gives up only if there are too few frames for both, and then always if they are the same tree. Values
that can be printed and read back, without zeros of floating point, are equal exactly if they have
the same text. -/
theorem comparison_is_structural (room : Nat) :
    (∀ v w : Value, v.sameWithin? room w = w.sameWithin? room v) ∧
    (∀ u v w : Value, u.sameWithin? room v = some true → v.sameWithin? room w = some true →
      u.sameWithin? room w = some true) ∧
    (∀ v : Value, v.sameWithin? room v = some true ↔
      ¬Within (.float .nan) v ∧ framesPerLevel * v.nesting ≤ room) ∧
    (∀ v w : Value, v.sameWithin? room w = some true ↔
      SameTree v w ∧ framesPerLevel * v.nesting ≤ room) ∧
    (∀ v w : Value, v.sameWithin? room w = none →
      room < framesPerLevel * v.nesting ∧ room < framesPerLevel * w.nesting) ∧
    (∀ v w : Value, SameTree v w → room < framesPerLevel * v.nesting →
      v.sameWithin? room w = none) ∧
    ∀ v w : Value, v.Readable → w.Readable → ¬v.HoldsZero →
      ∃ s t, (∀ frames, v.nesting ≤ frames → v.renderWithin frames = .ok s) ∧
        (∀ frames, w.nesting ≤ frames → w.renderWithin frames = .ok t) ∧
        (v.sameWithin? room w = some true ↔ s = t ∧ framesPerLevel * v.nesting ≤ room) := by
  refine ⟨sameWithin?_comm room, ?_, ?_, fun v w => sameWithin?_iff,
    fun v w => lt_of_sameWithin?_none, fun v w => sameWithin?_eq_none, ?_⟩
  · intro u v w huv hvw
    obtain ⟨huv, hroom⟩ := sameWithin?_iff.mp huv
    exact sameWithin?_iff.mpr ⟨huv.trans (sameWithin?_iff.mp hvw).1, hroom⟩
  · intro v
    rw [sameWithin?_iff, sameTree_self_iff]
  · intro v w hv hw hzero
    obtain ⟨s, hs, hsv⟩ := write_spells hv
    obtain ⟨t, ht, htw⟩ := write_spells hw
    refine ⟨s, t, fun frames => renderWithin_of_write (legible_of_spells hsv) hs,
      fun frames => renderWithin_of_write (legible_of_spells htw) ht, ?_⟩
    rw [sameWithin?_iff, sameTree_iff_text hsv htw hs ht hzero]

end Value

namespace Session

open Value Reader

theorem readable_nest (n : Nat) : (nest n).Readable := by
  induction n with
  | zero => exact .list (by simp)
  | succ n ih => exact .list (by simpa using ih)

theorem not_within_nest (x : Number) (n : Nat) : ¬Within (.num x) (nest n) := by
  induction n with
  | zero => rintro (_ | ⟨⟨⟩, _⟩)
  | succ n ih =>
    rintro (_ | ⟨hmem, h⟩)
    rw [List.mem_singleton.mp hmem] at h
    exact ih h

theorem write_nest (n : Nat) : (nest n).write .printed = .ok (nestText n) := by
  induction n with
  | zero => rfl
  | succ n ih =>
    rw [nest, write, writeList, ih]
    rfl

/-- Six hundred lists in one another can be read and printed with the frames there are at first, and
what is printed can be read again. But the frames are too few to find that they equal themselves. -/
theorem nest_not_found_equal :
    let v := nest 599
    parse Host.initialFrames (nestText 599) = .ok (some v) ∧
    v.renderWithin Host.initialFrames = .ok (nestText 599) ∧
    v.Readable ∧ ¬v.HoldsZero ∧ ¬Within (.float .nan) v ∧ SameTree v v ∧
    v.sameWithin? Host.initialFrames v = none := by
  intro v
  have hspells : Spells (nestText 599) v := spells_nest 599
  have hlegible : Legible v := legible_of_spells hspells
  have hnesting : v.nesting = 600 := nesting_nest 599
  have hroom : v.nesting ≤ Host.initialFrames := by rw [hnesting]; decide
  have hself : SameTree v v := hlegible.sameTree_self
  refine ⟨parse_of_spells hspells hroom, renderWithin_of_write hlegible (write_nest 599) hroom,
    readable_nest 599, fun ⟨_, hzero⟩ => not_within_nest _ 599 hzero, not_within_nest _ 599, hself,
    sameWithin?_eq_none hself ?_⟩
  rw [hnesting]
  decide

end Session

end PocketLisp
