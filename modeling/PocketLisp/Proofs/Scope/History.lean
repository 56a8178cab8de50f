import PocketLisp.Scope.Store

/-!
Lookup in a store of scopes, told by what has been done to the store. A history says which scopes
were made and around which, and what was written to them; it knows nothing of frames. Lookup finds
the first scope on the way outward that was written to, and a write is seen exactly where no nearer
one hides it.
-/
namespace PocketLisp

/-- What has been done to a store that holds so many scopes by now. Only a scope that has been made
is written to or stands around another one. -/
inductive History : Nat → Type
  | start : History 0
  | new {n : Nat} (before : History n) (parent : Option (Fin n)) : History (n + 1)
  | setVariable {n : Nat} (before : History n) (scope : Fin n) (name : String) (v : Value) :
      History n
  | setFunction {n : Nat} (before : History n) (scope : Fin n) (name : String) (g : Function) :
      History n

namespace History

def store : {n : Nat} → History n → Store
  | _, .start => .empty
  | _, .new h parent => h.store.new (parent.map Fin.val)
  | _, .setVariable h i x v => h.store.setVariable i x v
  | _, .setFunction h i x g => h.store.setFunction i x g

def parent? : {n : Nat} → History n → Nat → Option Nat
  | _, .start, _ => none
  | _, @History.new n h parent, i => if i = n then parent.map Fin.val else h.parent? i
  | _, .setVariable h .., i => h.parent? i
  | _, .setFunction h .., i => h.parent? i

def lastValue? (x : String) : {n : Nat} → History n → Nat → Option Value
  | _, .start, _ => none
  | _, .new h _, i => h.lastValue? x i
  | _, .setVariable h j y v, i => if i = j ∧ y = x then some v else h.lastValue? x i
  | _, .setFunction h .., i => h.lastValue? x i

def lastFunction? (x : String) : {n : Nat} → History n → Nat → Option Function
  | _, .start, _ => none
  | _, .new h _, i => h.lastFunction? x i
  | _, .setVariable h .., i => h.lastFunction? x i
  | _, .setFunction h j y g, i => if i = j ∧ y = x then some g else h.lastFunction? x i

/-- The scopes from one outward, each made inside of the next, up to one that is in no other. -/
inductive Outward {n : Nat} (h : History n) : Nat → List Nat → Prop
  | root {i : Nat} (hi : h.parent? i = none) : Outward h i [i]
  | inside {i p : Nat} {path : List Nat} (hi : h.parent? i = some p) (hp : Outward h p path) :
      Outward h i (i :: path)

end History

/-! Lookup along a path of scopes, when it is known what each of them was given for a name. -/

/-- The way leads to a scope before any other one that was written to. -/
def Reached {α : Type} (written : Nat → Option α) (path : List Nat) (j : Nat) : Prop :=
  ∃ nearer farther, path = nearer ++ j :: farther ∧ ∀ i ∈ nearer, written i = none

/-- The first scope that was written to, with what was written. -/
def first? {α : Type} (written : Nat → Option α) (path : List Nat) : Option (Nat × α) :=
  path.findSome? fun i => (written i).map (Prod.mk i)

section First

variable {α : Type} {written after : Nat → Option α} {path : List Nat} {j : Nat} {a : α}

theorem first?_eq_some_iff :
    first? written path = some (j, a) ↔ Reached written path j ∧ written j = some a := by
  simp only [first?, List.findSome?_eq_some_iff, Reached, Option.map_eq_some_iff, Prod.mk.injEq,
    Option.map_eq_none_iff]
  constructor
  · rintro ⟨nearer, i, farther, hpath, ⟨b, hb, rfl, rfl⟩, hnearer⟩
    exact ⟨⟨nearer, farther, hpath, hnearer⟩, hb⟩
  · rintro ⟨⟨nearer, farther, hpath, hnearer⟩, ha⟩
    exact ⟨nearer, j, farther, hpath, ⟨a, ha, rfl, rfl⟩, hnearer⟩

theorem first?_eq_none_iff : first? written path = none ↔ ∀ i ∈ path, written i = none := by
  simp [first?]

theorem first?_congr (h : ∀ i ∈ path, after i = written i) : first? after path = first? written path := by
  induction path with
  | nil => rfl
  | cons i path ih =>
    simp only [List.forall_mem_cons] at h
    simp only [first?, List.findSome?_cons, h.1]
    rw [← first?, ← first?, ih h.2]

theorem first?_append (path more : List Nat) :
    first? written (path ++ more) = (first? written path).or (first? written more) := by
  simp [first?, List.findSome?_append]

theorem first?_of_reached (hreached : Reached written path j)
    (h : ∀ i, after i = if i = j then some a else written i) : first? after path = some (j, a) := by
  obtain ⟨nearer, farther, rfl, hnearer⟩ := hreached
  by_cases hj : j ∈ nearer
  · obtain ⟨front, back, rfl, hfront⟩ := List.eq_append_cons_of_mem hj
    refine first?_eq_some_iff.mpr ⟨⟨front, back ++ j :: farther, by simp, ?_⟩, by simp [h]⟩
    intro i hi
    have hne : i ≠ j := fun he => hfront (he ▸ hi)
    simpa [h, hne] using hnearer i (by simp [hi])
  · refine first?_eq_some_iff.mpr ⟨⟨nearer, farther, rfl, ?_⟩, by simp [h]⟩
    intro i hi
    have hne : i ≠ j := fun he => hj (he ▸ hi)
    simpa [h, hne] using hnearer i hi

/-- A write to a scope that is not reached makes no difference: either the way does not lead there, or
it ends before. -/
theorem first?_of_not_reached (hreached : ¬Reached written path j)
    (h : ∀ i, i ≠ j → after i = written i) : first? after path = first? written path := by
  by_cases hj : j ∈ path
  · obtain ⟨nearer, farther, rfl, hnearer⟩ := List.eq_append_cons_of_mem hj
    have hsame : first? after nearer = first? written nearer :=
      first?_congr fun i hi => h i fun he => hnearer (he ▸ hi)
    have hsome : first? written nearer ≠ none := by
      intro hnone
      exact hreached ⟨nearer, farther, rfl, first?_eq_none_iff.mp hnone⟩
    obtain ⟨found, hfound⟩ := Option.ne_none_iff_exists'.mp hsome
    simp [first?_append, hsame, hfound]
  · exact first?_congr fun i hi => h i fun he => hj (he ▸ hi)

theorem find?_eq_first? :
    path.find? (fun i => (written i).isSome) = (first? written path).map Prod.fst := by
  induction path with
  | nil => rfl
  | cons i path ih =>
    cases hi : written i with
    | none => simpa [first?, List.findSome?_cons, hi] using ih
    | some b => simp [first?, hi]

theorem findSome?_eq_first? : path.findSome? written = (first? written path).map Prod.snd := by
  induction path with
  | nil => rfl
  | cons i path ih =>
    cases hi : written i with
    | none => simpa [first?, List.findSome?_cons, hi] using ih
    | some b => simp [first?, hi]

end First

/-- What can be asked about a name: the scope that binds it, what it is bound to, and whether it is
bound at all. -/
structure Lookup (α : Type) where
  scope? : Option Nat
  result : Except Fault α
  found : Bool

namespace Lookup

variable {α : Type}

/-- The answers that the first scope written to gives; without one, the name is missing. -/
def ofFirst (missing : Fault) (r : Option (Nat × α)) : Lookup α :=
  ⟨r.map Prod.fst, r.elim (.error missing) (fun p => .ok p.2), r.isSome⟩

/-- The answers are right: on the path, the first scope that was written to binds the name, to what
was written there last. The name is missing exactly if there is none. -/
structure Finds (l : Lookup α) (written : Nat → Option α) (path : List Nat) (missing : Fault) :
    Prop where
  scope_iff : ∀ j, l.scope? = some j ↔ Reached written path j ∧ written j ≠ none
  ok_iff : ∀ a, l.result = .ok a ↔ ∃ j, Reached written path j ∧ written j = some a
  error_iff : ∀ f, l.result = .error f ↔ f = missing ∧ ∀ j ∈ path, written j = none
  found_iff : l.found = true ↔ ∃ j ∈ path, written j ≠ none

theorem result_ofFirst_ok {missing : Fault} {r : Option (Nat × α)} {a : α} :
    (ofFirst missing r).result = .ok a ↔ ∃ j, r = some (j, a) := by
  rcases r with _ | ⟨i, b⟩ <;> simp [ofFirst]

theorem result_ofFirst_error {missing f : Fault} {r : Option (Nat × α)} :
    (ofFirst missing r).result = .error f ↔ f = missing ∧ r = none := by
  rcases r with _ | ⟨i, b⟩ <;> simp [ofFirst, eq_comm]

theorem finds_ofFirst (written : Nat → Option α) (path : List Nat) (missing : Fault) :
    (ofFirst missing (first? written path)).Finds written path missing where
  scope_iff j := by
    simp [ofFirst, first?_eq_some_iff, Option.ne_none_iff_exists']
  ok_iff a := by
    simp only [result_ofFirst_ok, first?_eq_some_iff]
  error_iff f := by
    rw [result_ofFirst_error, first?_eq_none_iff]
  found_iff := by
    simp [ofFirst, Option.isSome_iff_ne_none, first?_eq_none_iff]

/-- What comes of a write of `a` to the name `x` in a scope: where the scope is reached, the name is
bound to `a` there. Elsewhere, and for every other name, all is as before. -/
def SeesWrite (before after : String → Lookup α) (written : String → Nat → Option α)
    (path : List Nat) (j : Nat) (x : String) (a : α) : Prop :=
  (Reached (written x) path j → after x = ⟨some j, .ok a, true⟩) ∧
  ∀ y, y ≠ x ∨ ¬Reached (written x) path j → after y = before y

theorem seesWrite_ofFirst {written after : String → Nat → Option α} {j : Nat} {x : String} {a : α}
    (h : ∀ y i, after y i = if i = j ∧ x = y then some a else written y i) (path : List Nat)
    (missing : String → Fault) :
    SeesWrite (fun y => ofFirst (missing y) (first? (written y) path))
      (fun y => ofFirst (missing y) (first? (after y) path)) written path j x a := by
  refine ⟨fun hreached => ?_, fun y hy => ?_⟩
  · have hfirst : first? (after x) path = some (j, a) :=
      first?_of_reached hreached fun i => by simp [h]
    simp [hfirst, ofFirst]
  · have hsame : first? (after y) path = first? (written y) path := by
      by_cases hyx : y = x
      · subst hyx
        have hreached : ¬Reached (written y) path j := by simpa using hy
        exact first?_of_not_reached hreached fun i hi => by simp [h, hi]
      · exact first?_congr fun i _ => by simp [h, Ne.symm hyx]
    simp [hsame]

end Lookup

namespace Store

def lookupVariable (s : Store) (i : Nat) (x : String) : Lookup Value :=
  ⟨s.variableScope? i x, s.getValue i x, s.hasVariable i x⟩

def lookupFunction (s : Store) (i : Nat) (x : String) : Lookup Function :=
  ⟨s.functionScope? i x, s.getFunction i x, s.hasFunction i x⟩

def bound? {α : Type} (s : Store) (bindings : Frame → Bindings α) (x : String) (i : Nat) : Option α :=
  (s.frame? i).bind fun f => (bindings f).get? x

theorem findSome?_frames {α : Type} (s : Store) (i : Nat) {f : Frame → Option α}
    (h : f .empty = none) :
    (s.env i).frames.findSome? f = (s.chain i).findSome? fun j => (s.frame? j).bind f := by
  have hframes : ((s.chain i).filterMap s.frame?).findSome? f =
      (s.chain i).findSome? fun j => (s.frame? j).bind f := by
    rw [← List.head?_filterMap, List.filterMap_filterMap, List.head?_filterMap]
  rw [← hframes, env]
  split
  · rename_i hnil
    simp [hnil, Env.empty, Env.frames, h]
  · rename_i hcons
    rw [hcons]
    rfl

theorem lookup_eq {α : Type} (s : Store) (i : Nat) (bindings : Frame → Bindings α) (x : String)
    (missing : Fault) (h : bindings .empty = []) :
    Lookup.mk ((s.chain i).find? fun j => (s.bound? bindings x j).isSome)
        (((s.env i).frames.findSome? fun f => (bindings f).get? x).elim (.error missing) .ok)
        ((s.chain i).find? fun j => (s.bound? bindings x j).isSome).isSome =
      .ofFirst missing (first? (s.bound? bindings x) (s.chain i)) := by
  have hresult : ((s.env i).frames.findSome? fun f => (bindings f).get? x) =
      (first? (s.bound? bindings x) (s.chain i)).map Prod.snd := by
    rw [findSome?_frames s i (by simp [h, Bindings.get?]), ← findSome?_eq_first?]
    rfl
  rw [hresult, find?_eq_first?]
  cases first? (s.bound? bindings x) (s.chain i) <;> rfl

theorem lookupVariable_eq (s : Store) (i : Nat) (x : String) :
    s.lookupVariable i x = .ofFirst { cause := .unboundVariable x, form := some (.sym x) }
      (first? (s.bound? Frame.values x) (s.chain i)) := by
  rw [← lookup_eq s i Frame.values x _ rfl]
  have hresult : s.getValue i x = ((s.env i).valueOf? x).elim
      (.error { cause := .unboundVariable x, form := some (.sym x) }) .ok := by
    rw [getValue, Env.getValue]
    cases (s.env i).valueOf? x <;> rfl
  rw [lookupVariable, hresult]
  rfl

theorem lookupFunction_eq (s : Store) (i : Nat) (x : String) :
    s.lookupFunction i x = .ofFirst { cause := .undefinedFunction x, form := some (.sym x) }
      (first? (s.bound? Frame.functions x) (s.chain i)) := by
  rw [← lookup_eq s i Frame.functions x _ rfl]
  have hresult : s.getFunction i x = ((s.env i).functionOf? x).elim
      (.error { cause := .undefinedFunction x, form := some (.sym x) }) .ok := by
    rw [getFunction, Env.getFunction]
    cases (s.env i).functionOf? x <;> rfl
  rw [lookupFunction, hresult]
  rfl

def parent? (s : Store) (i : Nat) : Option Nat := s.scopes[i]?.bind Scope.parent

theorem chain_root {s : Store} {i : Nat} (hi : i < s.size) (h : s.parent? i = none) :
    s.chain i = [i] := by
  have hscope : s.scopes[i]? = some s.scopes[i] := List.getElem?_eq_getElem hi
  rw [parent?, hscope, Option.bind_some] at h
  rw [chain]
  split
  · rename_i hnone
    simp [hscope] at hnone
  · rename_i scope hsome
    cases hscope.symm.trans hsome
    split
    · rfl
    · rename_i hp
      simp [h] at hp

theorem chain_inside {s : Store} {i p : Nat} (h : s.parent? i = some p) :
    s.chain i = i :: s.chain p := by
  obtain ⟨scope, hscope, hparent⟩ := Option.bind_eq_some_iff.mp h
  rw [chain]
  split
  · rename_i hnone
    simp [hscope] at hnone
  · rename_i found hsome
    cases hscope.symm.trans hsome
    split
    · rename_i hp
      simp [hparent] at hp
    · rename_i q hq
      cases hparent.symm.trans hq
      rfl

/-! What each operation does to the frames and to the parents. -/

theorem frame?_new (s : Store) (parent : Option Nat) (i : Nat) :
    (s.new parent).frame? i = if i = s.size then some .empty else s.frame? i := by
  simp only [frame?, new, List.getElem?_append, size]
  by_cases hlt : i < s.scopes.length
  · simp [hlt, Nat.ne_of_lt hlt]
  · by_cases heq : i = s.scopes.length
    · simp [heq]
    · simp [hlt, heq]
      omega

theorem parent?_new (s : Store) {parent : Option Nat} (h : ∀ p ∈ parent, p < s.size) (i : Nat) :
    (s.new parent).parent? i = if i = s.size then parent else s.parent? i := by
  have hparent : parent.filter (· < s.size) = parent := by
    cases parent <;> simp_all
  have hsize : s.scopes.length = s.size := rfl
  simp only [parent?, new, List.getElem?_append, hparent, hsize]
  by_cases hlt : i < s.size
  · simp [hlt, Nat.ne_of_lt hlt]
  · by_cases heq : i = s.size
    · simp [heq]
    · have hout : i - s.size ≠ 0 := by omega
      have hnone : s.scopes[i]? = none := List.getElem?_eq_none (Nat.le_of_not_lt hlt)
      simp [hlt, heq, hout, hnone]

theorem frame?_modify (s : Store) (j : Nat) (f : Frame → Frame) (i : Nat) :
    (s.modify j f).frame? i = if i = j then (s.frame? i).map f else s.frame? i := by
  simp only [frame?, modify, List.getElem?_modify]
  by_cases h : j = i
  · cases s.scopes[i]? <;> simp [h]
  · simp [h, Ne.symm h]

@[simp] theorem parent?_modify (s : Store) (j : Nat) (f : Frame → Frame) (i : Nat) :
    (s.modify j f).parent? i = s.parent? i := by
  simp only [parent?, modify, List.getElem?_modify]
  by_cases h : j = i <;> cases s.scopes[i]? <;> simp [h]

@[simp] theorem size_modify (s : Store) (j : Nat) (f : Frame → Frame) : (s.modify j f).size = s.size := by
  simp [size, modify]

section Bound

variable {α : Type} {bindings : Frame → Bindings α}

theorem bound?_new (s : Store) (parent : Option Nat) (h : bindings .empty = []) (x : String)
    (i : Nat) : (s.new parent).bound? bindings x i = s.bound? bindings x i := by
  rw [bound?, bound?, frame?_new]
  by_cases hi : i = s.size
  · have hnone : s.frame? s.size = none := by simp [frame?, size]
    simp [hi, hnone, h, Bindings.get?]
  · simp [hi]

/-- A name is bound in one scope; no other scope and no other name is concerned. -/
theorem bound?_modify_insert {s : Store} {j : Nat} (hj : j < s.size) {f : Frame → Frame}
    {y : String} {a : α} (h : ∀ frame, bindings (f frame) = (bindings frame).insert y a) (x : String)
    (i : Nat) :
    (s.modify j f).bound? bindings x i =
      if i = j ∧ y = x then some a else s.bound? bindings x i := by
  rw [bound?, bound?, frame?_modify]
  by_cases hi : i = j
  · subst hi
    have hframe : s.frame? i = some s.scopes[i].frame := by
      simp [frame?, List.getElem?_eq_getElem hj]
    by_cases hx : y = x
    · simp [hframe, h, hx]
    · simp [hframe, h, hx, Bindings.get?_insert_of_ne _ _ (Ne.symm hx)]
  · simp [hi]

theorem bound?_modify_keep (s : Store) (j : Nat) {f : Frame → Frame}
    (h : ∀ frame, bindings (f frame) = bindings frame) (x : String) (i : Nat) :
    (s.modify j f).bound? bindings x i = s.bound? bindings x i := by
  rw [bound?, bound?, frame?_modify]
  by_cases hi : i = j
  · cases s.frame? i <;> simp [hi, h]
  · simp [hi]

end Bound

end Store

namespace History

variable {n : Nat}

@[simp] theorem size_store (h : History n) : h.store.size = n := by
  induction h with
  | start => rfl
  | new h parent ih =>
    simp only [Store.size] at ih
    simp [store, Store.new, Store.size, ih]
  | setVariable h i x v ih => simpa [store, Store.setVariable] using ih
  | setFunction h i x g ih => simpa [store, Store.setFunction] using ih

theorem parent?_store (h : History n) (i : Nat) : h.store.parent? i = h.parent? i := by
  induction h with
  | start => simp [store, Store.empty, Store.parent?, parent?]
  | new h parent ih =>
    have hparent : ∀ p ∈ parent.map Fin.val, p < h.store.size := by
      rintro p hp
      obtain ⟨q, -, rfl⟩ := Option.map_eq_some_iff.mp hp
      simp
    rw [store, Store.parent?_new _ hparent, size_store, ih, parent?]
  | setVariable h j x v ih => simpa [store, Store.setVariable, parent?] using ih
  | setFunction h j x g ih => simpa [store, Store.setFunction, parent?] using ih

theorem bound?_values (h : History n) (x : String) (i : Nat) :
    h.store.bound? Frame.values x i = h.lastValue? x i := by
  induction h with
  | start => simp [store, Store.empty, Store.bound?, Store.frame?, lastValue?]
  | new h parent ih =>
    rw [lastValue?, ← ih]
    exact Store.bound?_new _ _ rfl x i
  | setVariable h j y v ih =>
    rw [lastValue?, ← ih]
    exact Store.bound?_modify_insert (by simp) (fun _ => rfl) x i
  | setFunction h j y g ih =>
    rw [lastValue?, ← ih]
    exact Store.bound?_modify_keep h.store j (Frame.values_setFunction y g) x i

theorem bound?_functions (h : History n) (x : String) (i : Nat) :
    h.store.bound? Frame.functions x i = h.lastFunction? x i := by
  induction h with
  | start => simp [store, Store.empty, Store.bound?, Store.frame?, lastFunction?]
  | new h parent ih =>
    rw [lastFunction?, ← ih]
    exact Store.bound?_new _ _ rfl x i
  | setVariable h j y v ih =>
    rw [lastFunction?, ← ih]
    exact Store.bound?_modify_keep h.store j (Frame.functions_setVariable y v) x i
  | setFunction h j y g ih =>
    rw [lastFunction?, ← ih]
    exact Store.bound?_modify_insert (by simp) (fun _ => rfl) x i

/-- The scopes that are gone through are those that the history has one inside of the other. -/
theorem outward_chain (h : History n) {i : Nat} (hi : i < n) : h.Outward i (h.store.chain i) := by
  induction i using Nat.strongRecOn with
  | ind i ih =>
    cases hparent : h.parent? i with
    | none =>
      rw [← parent?_store] at hparent
      rw [Store.chain_root (by simpa using hi) hparent]
      exact .root (by rw [← parent?_store, hparent])
    | some p =>
      rw [← parent?_store] at hparent
      have hlt : p < i := h.store.parent_lt i p hparent
      rw [Store.chain_inside hparent]
      exact .inside (by rw [← parent?_store, hparent]) (ih p hlt (Nat.lt_trans hlt hi))

theorem Outward.unique {h : History n} {i : Nat} {path other : List Nat} (hpath : h.Outward i path)
    (hother : h.Outward i other) : path = other := by
  induction hpath generalizing other with
  | root hi =>
    cases hother with
    | root => rfl
    | inside hp => simp [hi] at hp
  | inside hp _ ih =>
    cases hother with
    | root hi => simp [hi] at hp
    | inside hq hrest =>
      cases hp.symm.trans hq
      rw [ih hrest]

/-- Every step goes to a scope that was made before. -/
theorem Outward.length_le {h : History n} {i : Nat} {path : List Nat} (hpath : h.Outward i path) :
    path.length ≤ i + 1 := by
  induction hpath with
  | root => simp
  | @inside i p path hp _ ih =>
    rw [← parent?_store] at hp
    have hlt : p < i := h.store.parent_lt i p hp
    simp only [List.length_cons]
    omega

theorem Outward.congr {h : History n} {i : Nat} {path : List Nat} (hpath : h.Outward i path)
    {h' : History n} (hparent : ∀ i, h'.parent? i = h.parent? i) : h'.Outward i path := by
  induction hpath with
  | root hi => exact .root (by rw [hparent, hi])
  | inside hi _ ih => exact .inside (by rw [hparent, hi]) ih

theorem chain_eq {h : History n} {i : Nat} {path : List Nat} (hi : i < n)
    (hpath : h.Outward i path) : h.store.chain i = path :=
  (h.outward_chain hi).unique hpath

section Lookups

variable {h : History n} {i : Nat} {path : List Nat}

theorem root_store (hi : i < n) (hpath : h.Outward i path) :
    path.getLast? = some (h.store.root i) := by
  have hne : path ≠ [] := by cases hpath <;> simp
  rw [Store.root, chain_eq hi hpath, List.getLast?_eq_some_getLast hne]
  rfl

theorem lookupVariable_store (hi : i < n) (hpath : h.Outward i path) (x : String) :
    h.store.lookupVariable i x = .ofFirst { cause := .unboundVariable x, form := some (.sym x) }
      (first? (h.lastValue? x) path) := by
  have hbound : h.store.bound? Frame.values x = h.lastValue? x := funext (h.bound?_values x)
  rw [Store.lookupVariable_eq, hbound, chain_eq hi hpath]

theorem lookupFunction_store (hi : i < n) (hpath : h.Outward i path) (x : String) :
    h.store.lookupFunction i x = .ofFirst { cause := .undefinedFunction x, form := some (.sym x) }
      (first? (h.lastFunction? x) path) := by
  have hbound : h.store.bound? Frame.functions x = h.lastFunction? x :=
    funext (h.bound?_functions x)
  rw [Store.lookupFunction_eq, hbound, chain_eq hi hpath]

end Lookups

/-- Whatever has been done to a store, from every scope one finite way leads outward to its root, and
a name is looked up along it: it is bound by the first scope that was written to, to what was
written there last, and it is missing exactly if there is no such scope. So it is with variables and
with functions, each by their own writes. A write is seen from a scope exactly if the way leads to
the place of the write before any other scope that binds the name; it makes no difference to other
names, and none to names of the other kind. -/
theorem lookup_follows_history (h : History n) (e : Fin n) :
    ∃ path, h.Outward e path ∧ path.length ≤ n ∧ path.getLast? = some (h.store.root e) ∧
      (∀ x, (h.store.lookupVariable e x).Finds (h.lastValue? x) path
        { cause := .unboundVariable x, form := some (.sym x) }) ∧
      (∀ x, (h.store.lookupFunction e x).Finds (h.lastFunction? x) path
        { cause := .undefinedFunction x, form := some (.sym x) }) ∧
      (∀ j x v, let after := (h.setVariable j x v).store
        Lookup.SeesWrite (h.store.lookupVariable e) (after.lookupVariable e)
          (fun y => h.lastValue? y) path j x v ∧
        ∀ y, after.lookupFunction e y = h.store.lookupFunction e y) ∧
      (∀ j x g, let after := (h.setFunction j x g).store
        Lookup.SeesWrite (h.store.lookupFunction e) (after.lookupFunction e)
          (fun y => h.lastFunction? y) path j x g ∧
        ∀ y, after.lookupVariable e y = h.store.lookupVariable e y) := by
  have hpath := h.outward_chain e.isLt
  have hlength := hpath.length_le
  refine ⟨h.store.chain e, hpath, by omega, root_store e.isLt hpath, ?_, ?_, ?_, ?_⟩
  · intro x
    rw [lookupVariable_store e.isLt hpath]
    exact Lookup.finds_ofFirst ..
  · intro x
    rw [lookupFunction_store e.isLt hpath]
    exact Lookup.finds_ofFirst ..
  · intro j x v after
    have hafter : (h.setVariable j x v).Outward e (h.store.chain e) := hpath.congr fun _ => by rfl
    refine ⟨?_, fun y => ?_⟩
    · rw [funext (lookupVariable_store e.isLt hpath), funext (lookupVariable_store e.isLt hafter)]
      exact Lookup.seesWrite_ofFirst (fun y i => by rfl) _ _
    · rw [lookupFunction_store e.isLt hpath, lookupFunction_store e.isLt hafter]
      rfl
  · intro j x g after
    have hafter : (h.setFunction j x g).Outward e (h.store.chain e) := hpath.congr fun _ => by rfl
    refine ⟨?_, fun y => ?_⟩
    · rw [funext (lookupFunction_store e.isLt hpath), funext (lookupFunction_store e.isLt hafter)]
      exact Lookup.seesWrite_ofFirst (fun y i => by rfl) _ _
    · rw [lookupVariable_store e.isLt hpath, lookupVariable_store e.isLt hafter]
      rfl

end History

end PocketLisp
