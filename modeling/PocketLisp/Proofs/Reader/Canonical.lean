import PocketLisp.Proofs.Eval.Answer

/-!
The printed form of what has been read is canonical. It can be read again, and what is read then is
printed the same. An infinity is the only thing that does not come back: a literal can be too large
to be finite, but what an infinity is printed as is a symbol.
-/
namespace PocketLisp

namespace Value

def HoldsInfinite (v : Value) : Prop := ∃ negative, Within (.float (.infinite negative)) v

theorem holdsInfinite_list {items : List Value} :
    (Value.list items).HoldsInfinite ↔ ∃ v ∈ items, v.HoldsInfinite := by
  constructor
  · rintro ⟨negative, h⟩
    cases h with
    | item hmem h => exact ⟨_, hmem, negative, h⟩
  · rintro ⟨v, hmem, negative, h⟩
    exact ⟨negative, .item hmem h⟩

mutual

/-- What the printed form of a value is read as: for an infinity, the symbol of that name. -/
def reread : Value → Value
  | .num (.float (.infinite negative)) => .sym (Binary64.infinite negative).toText
  | .list items => .list (rereadList items)
  | v => v

def rereadList : List Value → List Value
  | [] => []
  | v :: vs => v.reread :: rereadList vs

end

mutual

theorem write_reread (v : Value) : v.reread.write .printed = v.write .printed := by
  match v with
  | .num (.float (.infinite _)) => rfl
  | .num (.int _) | .num (.float (.finite ..)) | .num (.float .nan) | .sym _ | .foreign _ => rfl
  | .list items => rw [reread, write, write, writeList_reread items]

theorem writeList_reread (vs : List Value) :
    writeList .printed (rereadList vs) = writeList .printed vs := by
  match vs with
  | [] => rfl
  | v :: vs => rw [rereadList, writeList, writeList, write_reread v, writeList_reread vs]

end

mutual

theorem nesting_reread (v : Value) : v.reread.nesting = v.nesting := by
  match v with
  | .num (.float (.infinite _)) => rfl
  | .num (.int _) | .num (.float (.finite ..)) | .num (.float .nan) | .sym _ | .foreign _ => rfl
  | .list items => rw [reread, nesting, nesting, nestingList_reread items]

theorem nestingList_reread (vs : List Value) : nestingList (rereadList vs) = nestingList vs := by
  match vs with
  | [] => rfl
  | v :: vs => rw [rereadList, nestingList, nestingList, nesting_reread v, nestingList_reread vs]

end

mutual

theorem sameWithin?_of_nesting_le {room : Nat} {a : Value} (h : framesPerLevel * a.nesting ≤ room)
    (b : Value) : a.sameWithin? room b = some (a.same b) := by
  match a, b with
  | .list as, .list bs =>
    rw [sameWithin?, same]
    split
    · rw [sameList_of_length_ne ‹_›]
    · have hlevels : framesPerLevel * nestingList as + framesPerLevel ≤ room := h
      rw [if_neg (by omega), sameListWithin?_of_nesting_le (by omega)]
  | .num _, .num _ | .sym _, .sym _ | .foreign _, .foreign _ => simp [sameWithin?, same]
  | .num _, .sym _ | .num _, .list _ | .num _, .foreign _ | .sym _, .num _ | .sym _, .list _
  | .sym _, .foreign _ | .list _, .num _ | .list _, .sym _ | .list _, .foreign _
  | .foreign _, .num _ | .foreign _, .sym _ | .foreign _, .list _ => simp [sameWithin?, same]

theorem sameListWithin?_of_nesting_le {room : Nat} {as : List Value}
    (h : framesPerLevel * nestingList as ≤ room) (bs : List Value) :
    sameListWithin? room as bs = some (sameList as bs) := by
  match as, bs with
  | [], [] | [], _ :: _ | _ :: _, [] => simp [sameListWithin?, sameList]
  | a :: as, b :: bs =>
    have hlevels : framesPerLevel * max a.nesting (nestingList as) ≤ room := h
    have hfirst : framesPerLevel * a.nesting ≤ room :=
      Nat.le_trans (Nat.mul_le_mul_left _ (Nat.le_max_left _ _)) hlevels
    have hrest : framesPerLevel * nestingList as ≤ room :=
      Nat.le_trans (Nat.mul_le_mul_left _ (Nat.le_max_right _ _)) hlevels
    rw [sameListWithin?, sameList, sameWithin?_of_nesting_le hfirst,
      sameListWithin?_of_nesting_le hrest]
    cases a.same b <;> rfl

end

end Value

namespace Reader

open Value

theorem isName_infinite (negative : Bool) : IsName (Binary64.infinite negative).toText := by
  cases negative <;> decide +kernel

theorem readable_of_legible_int {n : Int} (h : Legible (.int n)) : (Value.int n).Readable := by
  obtain ⟨text, htext⟩ := print_of_legible h
  rw [Number.print, intText] at htext
  split at htext
  · exact .int ‹_›
  · cases htext

mutual

theorem readable_reread {v : Value} (h : Legible v) : v.reread.Readable := by
  match v with
  | .num (.int n) => exact readable_of_legible_int h
  | .num (.float (.finite negative code)) => exact .float rfl
  | .num (.float (.infinite negative)) => exact readable_of_isName (isName_infinite negative)
  | .num (.float .nan) => exact absurd h not_legible_nan
  | .sym x => exact readable_of_isName (legible_sym_iff.mp h)
  | .list items => exact .list (readable_rereadList fun _ hv => h.item hv)
  | .foreign x => exact absurd h not_legible_foreign

theorem readable_rereadList {vs : List Value} (h : ∀ v ∈ vs, Legible v) :
    ∀ w ∈ rereadList vs, w.Readable := by
  match vs with
  | [] => simp [rereadList]
  | v :: vs =>
    have hv := readable_reread (h v List.mem_cons_self)
    have hvs := readable_rereadList fun u hu => h u (List.mem_cons_of_mem v hu)
    simpa [rereadList, hv] using hvs

end

mutual

/-- A legible value comes back as it was, unless there is an infinity in it. -/
theorem same_reread {v : Value} (h : Legible v) : v.same v.reread = true ↔ ¬v.HoldsInfinite := by
  match v with
  | .num (.int n) =>
    have hnone : ¬(Value.int n).HoldsInfinite := by
      rintro ⟨negative, ⟨⟩⟩
    simp [reread, same, Number.same, hnone]
  | .num (.float (.finite negative code)) =>
    have hnone : ¬(Value.float (.finite negative code)).HoldsInfinite := by
      rintro ⟨negative, ⟨⟩⟩
    simp [reread, same, Number.same, Binary64.eq, hnone]
  | .num (.float (.infinite negative)) =>
    have hsome : (Value.float (.infinite negative)).HoldsInfinite := ⟨negative, .refl _⟩
    simp [reread, same, hsome]
  | .num (.float .nan) => exact absurd h not_legible_nan
  | .sym x =>
    have hnone : ¬(Value.sym x).HoldsInfinite := by
      rintro ⟨negative, ⟨⟩⟩
    simp [reread, same, hnone]
  | .list items =>
    rw [reread, same, holdsInfinite_list, sameList_reread fun _ hv => h.item hv]
    simp
  | .foreign x => exact absurd h not_legible_foreign

theorem sameList_reread {vs : List Value} (h : ∀ v ∈ vs, Legible v) :
    sameList vs (rereadList vs) = true ↔ ∀ v ∈ vs, ¬v.HoldsInfinite := by
  match vs with
  | [] => simp [rereadList, sameList]
  | v :: vs =>
    have hv := same_reread (h v List.mem_cons_self)
    have hvs := sameList_reread fun u hu => h u (List.mem_cons_of_mem v hu)
    rw [rereadList, sameList, Bool.and_eq_true, hv, hvs, List.forall_mem_cons]

end

theorem renderWithin_of_write {v : Value} (h : Legible v) {text : String}
    (hwrite : v.write .printed = .ok text) {frames : Nat} (hframes : v.nesting ≤ frames) :
    v.renderWithin frames = .ok text := by
  rw [renderWithin_of_isProper (isProper_of_legible h), writeWithin_of_nesting_le _ hframes, hwrite]

/-- The printed form of what has been read is canonical. Every integer in it can be written and no
foreign object stands in it, so it is printed; what is printed is read again, and that is printed the
same. It is the same value exactly if there is no infinity in it. -/
theorem print_of_parse_canonical {room : Nat} {s : String} {v : Value}
    (h : parse room s = .ok (some v)) :
    v.isProper = true ∧ ¬v.HoldsLong ∧ v.nesting ≤ room ∧
    ∃ text w,
      (∀ frames, v.nesting ≤ frames → v.renderWithin frames = .ok text ∧
        parse frames text = .ok (some w) ∧ w.renderWithin frames = .ok text) ∧
      ∀ frames, framesPerLevel * v.nesting ≤ frames →
        ∃ same, v.sameWithin? frames w = some same ∧ (same = true ↔ ¬v.HoldsInfinite) := by
  have hlegible : Legible v := ⟨room, s, h⟩
  have hshort : ¬v.HoldsLong := by
    rw [holdsLong_iff, isWritable_of_legible hlegible]
    decide
  obtain ⟨text, hwrite, hspells⟩ := write_spells (readable_reread hlegible)
  refine ⟨isProper_of_legible hlegible, hshort, (parse_ok_iff.mp h).2, text, v.reread, ?_, ?_⟩
  · intro frames hframes
    have hframes' : v.reread.nesting ≤ frames := by rwa [nesting_reread]
    have hwrite' : v.write .printed = .ok text := by rwa [← write_reread]
    exact ⟨renderWithin_of_write hlegible hwrite' hframes, parse_of_spells hspells hframes',
      renderWithin_of_write (legible_of_spells hspells) hwrite hframes'⟩
  · intro frames hframes
    exact ⟨_, sameWithin?_of_nesting_le hframes _, same_reread hlegible⟩

/-- A quotation, an integer with a sign and zeros in front, and a literal out of range. -/
def looseText : String := "('a +007 (-1e999))"

theorem print_of_parse_canonical_looseText :
    ∃ v w, parse 2 looseText = .ok (some v) ∧ v.renderWithin 2 = .ok "((quote a) 7 (-inf))" ∧
      parse 2 "((quote a) 7 (-inf))" = .ok (some w) ∧ v.sameWithin? 6 w = some false := by
  let v : Value := .list [(Value.sym "a").quote, .int 7, .list [.float (.infinite true)]]
  have hwords : (Token.ofText looseText).map Token.text =
      ["(", "'", "a", "+007", "(", "-1e999", ")", ")"] := by decide +kernel
  have hderives : Derives ["(", "'", "a", "+007", "(", "-1e999", ")", ")"] v :=
    .list (.cons (.quote (.atom rfl rfl)) (.cons (.atom rfl rfl)
      (.single (.list (.single (.atom rfl rfl))))))
  have hparse : parse 2 looseText = .ok (some v) := parse_ok_iff.mpr ⟨hwords ▸ hderives, by decide⟩
  obtain ⟨-, -, -, text, w, hprints, hcompares⟩ := print_of_parse_canonical hparse
  obtain ⟨hrender, hagain, -⟩ := hprints 2 (by decide)
  obtain ⟨same, hsame, hiff⟩ := hcompares 6 (by decide)
  have htext : (v.renderWithin 2).toOption = some "((quote a) 7 (-inf))" := by decide +kernel
  have hinner : (Value.list [.float (.infinite true)]).HoldsInfinite :=
    ⟨true, .item List.mem_cons_self (.refl _)⟩
  have hinfinite : v.HoldsInfinite := holdsInfinite_list.mpr ⟨_, by simp, hinner⟩
  rw [hrender] at htext
  obtain rfl : text = "((quote a) 7 (-inf))" := Option.some.inj htext
  have hdiffers : same = false := Bool.eq_false_iff.mpr fun htrue => hiff.mp htrue hinfinite
  exact ⟨v, w, hparse, hrender, hagain, hdiffers ▸ hsame⟩

end Reader

end PocketLisp
