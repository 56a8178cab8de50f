import PocketLisp.Number.Numeral
import PocketLisp.Proofs.Binary64.Decimal
import PocketLisp.Reader.Token

/-!
Numerals that numbers are written as. The written form of an integer within the limit of digits and
of a finite floating-point number is a numeral, and its value is the number. A numeral is a text
that one token can hold.
-/
namespace PocketLisp

namespace Numeral

def withSign (negative : Bool) (cs : List Char) : List Char := if negative then '-' :: cs else cs

theorem toNat_of_isDigit {c : Char} (h : c.isDigit = true) : 48 ≤ c.toNat ∧ c.toNat ≤ 57 := by
  simpa [Char.isDigit, UInt32.le_iff_toNat_le] using h

theorem splitSign_of_isDigit {c : Char} (h : c.isDigit = true) (cs : List Char) :
    splitSign (c :: cs) = (false, c :: cs) := by
  unfold splitSign
  split
  · rename_i heq
    cases heq
    exact absurd h (by decide)
  · rename_i heq
    cases heq
    exact absurd h (by decide)
  · rfl

theorem splitSign_withSign (negative : Bool) {ds : List Char} (hne : ds ≠ [])
    (hds : ∀ c ∈ ds, c.isDigit = true) (rest : List Char) :
    splitSign (withSign negative (ds ++ rest)) = (negative, ds ++ rest) := by
  cases ds with
  | nil => exact absurd rfl hne
  | cons d ds =>
    cases negative with
    | true => rfl
    | false => exact splitSign_of_isDigit (hds d (by simp)) _

theorem mark_of_exponent? {c : Char} {cs : List Char} {e : Int}
    (h : exponent? (c :: cs) = some e) : c = 'e' ∨ c = 'E' := by
  simp only [exponent?] at h
  split at h
  · rename_i hcond
    exact hcond.1
  · cases h

/-- What follows a mantissa does not begin with a digit. -/
theorem takeWhile_isDigit_of_exponent? {tail : List Char} {e : Int} (h : exponent? tail = some e) :
    tail.takeWhile Char.isDigit = [] ∧ tail.dropWhile Char.isDigit = tail := by
  cases tail with
  | nil => exact ⟨rfl, rfl⟩
  | cons c cs =>
    have hd : c.isDigit = false := by rcases mark_of_exponent? h with rfl | rfl <;> decide
    simp [hd]

theorem span_isDigit {ds : List Char} (tail : List Char) (hds : ∀ c ∈ ds, c.isDigit = true)
    (htake : tail.takeWhile Char.isDigit = []) (hdrop : tail.dropWhile Char.isDigit = tail) :
    (ds ++ tail).takeWhile Char.isDigit = ds ∧ (ds ++ tail).dropWhile Char.isDigit = tail := by
  rw [List.takeWhile_append_of_pos hds, List.dropWhile_append_of_pos hds, htake, hdrop]
  exact ⟨List.append_nil _, rfl⟩

theorem ofChars?_integer (negative : Bool) {ds : List Char} (hne : ds ≠ [])
    (hds : ∀ c ∈ ds, c.isDigit = true) :
    ofChars? (withSign negative ds) = some (.integer negative ds) := by
  have hsign := splitSign_withSign negative hne hds []
  obtain ⟨htake, hdrop⟩ := span_isDigit [] hds rfl rfl
  rw [List.append_nil] at hsign htake hdrop
  simp [ofChars?, hsign, htake, hdrop, hne]

theorem ofChars?_point (negative : Bool) {whole fraction tail : List Char} {e : Int}
    (hne : whole ≠ []) (hw : ∀ c ∈ whole, c.isDigit = true)
    (hf : ∀ c ∈ fraction, c.isDigit = true) (ht : exponent? tail = some e) :
    ofChars? (withSign negative (whole ++ '.' :: (fraction ++ tail))) =
      some (.decimal negative whole fraction e) := by
  have hsign := splitSign_withSign negative hne hw ('.' :: (fraction ++ tail))
  obtain ⟨htake, hdrop⟩ := span_isDigit ('.' :: (fraction ++ tail)) hw rfl rfl
  obtain ⟨hnone, hrest⟩ := takeWhile_isDigit_of_exponent? ht
  obtain ⟨hftake, hfdrop⟩ := span_isDigit tail hf hnone hrest
  simp [ofChars?, hsign, htake, hdrop, hftake, hfdrop, hne, ht]

theorem ofChars?_plain (negative : Bool) {whole fraction : List Char} (hne : whole ≠ [])
    (hw : ∀ c ∈ whole, c.isDigit = true) (hf : ∀ c ∈ fraction, c.isDigit = true) :
    ofChars? (withSign negative (whole ++ '.' :: fraction)) =
      some (.decimal negative whole fraction 0) := by
  have hnone : exponent? [] = some 0 := rfl
  simpa using ofChars?_point negative hne hw hf hnone

theorem ofChars?_whole (negative : Bool) {whole tail : List Char} {e : Int} (hne : whole ≠ [])
    (hw : ∀ c ∈ whole, c.isDigit = true) (htail : tail ≠ []) (ht : exponent? tail = some e) :
    ofChars? (withSign negative (whole ++ tail)) = some (.decimal negative whole [] e) := by
  have hsign := splitSign_withSign negative hne hw tail
  obtain ⟨hnone, hrest⟩ := takeWhile_isDigit_of_exponent? ht
  obtain ⟨htake, hdrop⟩ := span_isDigit tail hw hnone hrest
  cases tail with
  | nil => exact absurd rfl htail
  | cons c cs =>
    rcases mark_of_exponent? ht with rfl | rfl <;>
      simp [ofChars?, hsign, htake, hdrop, hne, ht]

theorem digitsValue_eq (ds : List Char) : digitsValue ds = Nat.ofDigitChars 10 ds 0 := rfl

theorem digitsValue_toDigits (n : Nat) : digitsValue (Nat.toDigits 10 n) = n :=
  Nat.ofDigitChars_ten_toDigits

theorem digitsValue_concat (ds : List Char) (c : Char) :
    digitsValue (ds ++ [c]) = 10 * digitsValue ds + (c.toNat - '0'.toNat) := by
  simp [digitsValue]

theorem digitsValue_replicate_append (k : Nat) (ds : List Char) :
    digitsValue (List.replicate k '0' ++ ds) = digitsValue ds := by
  simp [digitsValue_eq, Nat.ofDigitChars_append]

theorem digitsValue_append_replicate (ds : List Char) (k : Nat) :
    digitsValue (ds ++ List.replicate k '0') = digitsValue ds * 10 ^ k := by
  simp [digitsValue_eq, Nat.ofDigitChars_append, Nat.mul_comm]

theorem isDigit_toDigits (n : Nat) : ∀ c ∈ Nat.toDigits 10 n, c.isDigit = true :=
  fun _ hc => Nat.isDigit_of_mem_toDigits (by decide) (by decide) hc

theorem isDigit_replicate_zero (k : Nat) : ∀ c ∈ List.replicate k '0', c.isDigit = true := by
  intro c hc
  rw [List.eq_of_mem_replicate hc]
  decide

theorem isDigit_append {ds es : List Char} (hds : ∀ c ∈ ds, c.isDigit = true)
    (hes : ∀ c ∈ es, c.isDigit = true) : ∀ c ∈ ds ++ es, c.isDigit = true :=
  fun c hc => (List.mem_append.mp hc).elim (hds c) (hes c)

theorem signed_natAbs (i : Int) : Binary64.signed (decide (i < 0)) i.natAbs = i := by
  by_cases h : i < 0
  · rw [Binary64.signed, if_pos (decide_eq_true h)]
    omega
  · rw [Binary64.signed, if_neg (by simp [h])]
    omega

theorem exponent?_written (k : Nat) (lead : Int) :
    exponent? ('e' :: (if lead < 0 then '-' else '+') ::
      (List.replicate k '0' ++ Nat.toDigits 10 lead.natAbs)) = some lead := by
  have hds : (List.replicate k '0' ++ Nat.toDigits 10 lead.natAbs).all Char.isDigit = true :=
    List.all_eq_true.mpr (isDigit_append (isDigit_replicate_zero k) (isDigit_toDigits _))
  have hvalue := digitsValue_replicate_append k (Nat.toDigits 10 lead.natAbs)
  rw [digitsValue_toDigits] at hvalue
  have hne : List.replicate k '0' ++ Nat.toDigits 10 lead.natAbs ≠ [] :=
    List.append_ne_nil_of_right_ne_nil _ Nat.toDigits_ne_nil
  have hsign : splitSign ((if lead < 0 then '-' else '+') ::
      (List.replicate k '0' ++ Nat.toDigits 10 lead.natAbs)) =
      (decide (lead < 0), List.replicate k '0' ++ Nat.toDigits 10 lead.natAbs) := by
    by_cases h : lead < 0 <;> simp [splitSign, h]
  simp only [exponent?, hsign, hvalue, signed_natAbs]
  rw [if_pos ⟨.inl trivial, hne, hds⟩]

open Binary64

theorem value_plain (negative : Bool) {ds : List Char} (hne : ds ≠ [])
    (hds : ∀ c ∈ ds, c.isDigit = true) (lead : Int) :
    ∃ n, ofChars? (withSign negative (plain ds lead)) = some n ∧
      n.value = .ok (.float (ofDecimal negative ⟨digitsValue ds, lead + 1 - ds.length⟩)) := by
  have hzero : ∀ c ∈ ['0'], c.isDigit = true := isDigit_replicate_zero 1
  unfold plain
  split
  · -- zeros between the point and the digits
    rename_i hlead
    refine ⟨.decimal negative ['0'] (List.replicate (-lead - 1).toNat '0' ++ ds) 0,
      ofChars?_plain negative (by simp) hzero (isDigit_append (isDigit_replicate_zero _) hds), ?_⟩
    have hvalue : digitsValue (['0'] ++ (List.replicate (-lead - 1).toNat '0' ++ ds)) =
        digitsValue ds :=
      (digitsValue_replicate_append 1 _).trans (digitsValue_replicate_append _ _)
    have hexp : (0 : Int) - (List.replicate (-lead - 1).toNat '0' ++ ds).length =
        lead + 1 - ds.length := by
      rw [List.length_append, List.length_replicate]
      omega
    rw [value, hvalue, hexp]
  · rename_i hlead
    dsimp only
    split
    · -- zeros between the digits and the point
      rename_i hlen
      refine ⟨_, ofChars?_plain negative (List.append_ne_nil_of_left_ne_nil hne _)
        (isDigit_append hds (isDigit_replicate_zero _)) hzero, ?_⟩
      have hvalue : digitsValue (ds ++ List.replicate (lead.toNat + 1 - ds.length) '0' ++ ['0']) =
          digitsValue ds * 10 ^ (lead.toNat + 1 - ds.length + 1) := by
        rw [← digitsValue_append_replicate, List.replicate_succ', List.append_assoc]
      have hexp : (0 : Int) - (['0'] : List Char).length =
          lead + 1 - ds.length - (lead.toNat + 1 - ds.length + 1 : Nat) := by
        rw [List.length_singleton]
        omega
      rw [value, hvalue, hexp, ofDecimal_shift]
    · -- the point among the digits
      rename_i hlen
      have hpos : 0 < ds.length := List.length_pos_iff.mpr hne
      have hwhole : ds.take (lead.toNat + 1) ≠ [] := by
        intro h
        have := congrArg List.length h
        rw [List.length_take, List.length_nil] at this
        omega
      refine ⟨_, ofChars?_plain negative hwhole (fun c hc => hds c (List.mem_of_mem_take hc))
        (fun c hc => hds c (List.mem_of_mem_drop hc)), ?_⟩
      have hexp : (0 : Int) - (ds.drop (lead.toNat + 1)).length = lead + 1 - ds.length := by
        rw [List.length_drop]
        omega
      rw [value, List.take_append_drop, hexp]

theorem value_withExponent (negative : Bool) (width : Nat) {ds : List Char} (hne : ds ≠ [])
    (hds : ∀ c ∈ ds, c.isDigit = true) (lead : Int) :
    ∃ n, ofChars? (withSign negative (withExponent width ds lead)) = some n ∧
      n.value = .ok (.float (ofDecimal negative ⟨digitsValue ds, lead + 1 - ds.length⟩)) := by
  have ht := exponent?_written (width - (Nat.toDigits 10 lead.natAbs).length) lead
  match ds, hne, hds with
  | [c], hne, hds =>
    refine ⟨_, ofChars?_whole negative hne hds (by simp) ht, ?_⟩
    simp [value]
  | c :: d :: ds, _, hds =>
    have hc : ∀ x ∈ [c], x.isDigit = true := fun x hx => hds x (by simp_all)
    have hfraction : ∀ x ∈ d :: ds, x.isDigit = true := fun x hx => hds x (by simp_all)
    refine ⟨_, ofChars?_point negative (by simp) hc hfraction ht, ?_⟩
    have hexp : lead - (d :: ds).length = lead + 1 - (c :: d :: ds).length := by
      simp only [List.length_cons]
      omega
    rw [value, hexp]
    rfl

theorem eq_append_replicate_zero (ds : List Char) :
    ∃ k, ds = (ds.reverse.dropWhile (· == '0')).reverse ++ List.replicate k '0' := by
  have hsplit := congrArg List.reverse
    (List.takeWhile_append_dropWhile : ds.reverse.takeWhile (· == '0') ++ _ = ds.reverse)
  rw [List.reverse_append, List.reverse_reverse] at hsplit
  have hzeros : ∀ c ∈ (ds.reverse.takeWhile (· == '0')).reverse, c = '0' := by
    intro c hc
    simpa using List.all_eq_true.mp List.all_takeWhile c (List.mem_reverse.mp hc)
  refine ⟨(ds.reverse.takeWhile (· == '0')).reverse.length, ?_⟩
  rw [← List.eq_replicate_of_mem hzeros]
  exact hsplit.symm

/-- The digits that a decimal is written with, in their place, are the decimal. -/
theorem ofDecimal_leading (negative : Bool) {d : Decimal} (h : d.digits ≠ 0) :
    (leading d).1 ≠ [] ∧ (∀ c ∈ (leading d).1, c.isDigit = true) ∧
      ofDecimal negative ⟨digitsValue (leading d).1, (leading d).2 + 1 - (leading d).1.length⟩ =
        ofDecimal negative d := by
  obtain ⟨k, hk⟩ := eq_append_replicate_zero (Nat.toDigits 10 d.digits)
  have hdef : leading d = (((Nat.toDigits 10 d.digits).reverse.dropWhile (· == '0')).reverse,
    d.exponent + (Nat.toDigits 10 d.digits).length - 1) := rfl
  rw [hdef]
  generalize ((Nat.toDigits 10 d.digits).reverse.dropWhile (· == '0')).reverse = ds at hk ⊢
  have hvalue : d.digits = digitsValue ds * 10 ^ k := by
    rw [← digitsValue_append_replicate, ← hk, digitsValue_toDigits]
  have hlen : (Nat.toDigits 10 d.digits).length = ds.length + k := by
    rw [hk, List.length_append, List.length_replicate]
  refine ⟨?_, ?_, ?_⟩
  · rintro rfl
    exact h (by simpa [digitsValue] using hvalue)
  · intro c hc
    exact isDigit_toDigits d.digits c (hk ▸ List.mem_append_left _ hc)
  · have hexp : d.exponent + (Nat.toDigits 10 d.digits).length - 1 + 1 - ds.length =
        d.exponent + k := by
      rw [hlen]
      omega
    have hd : (⟨digitsValue ds * 10 ^ k, d.exponent + k - k⟩ : Decimal) = d := by
      rw [← hvalue, Int.add_sub_cancel]
    rw [hexp, ← ofDecimal_shift negative (digitsValue ds) k (d.exponent + k), hd]

theorem digits_shortest_ne_zero {code : Fin overflow} (h : code.val ≠ 0) :
    (shortest code).digits ≠ 0 := by
  intro h0
  have hread := ofDecimal_shortest false code
  simp only [ofDecimal, h0, if_true, zero] at hread
  injection hread with _ hcode
  exact h (congrArg Fin.val hcode).symm

/-- A finite magnitude in writing, with or without a sign, is a numeral for the number. -/
theorem value_magnitudeText (negative : Bool) (code : Fin overflow) :
    ∃ n, ofChars? (withSign negative (magnitudeText code)) = some n ∧
      n.value = .ok (.float (.finite negative code)) := by
  unfold magnitudeText
  split
  · rename_i hcode
    have hdigit : ∀ c ∈ ['0'], c.isDigit = true := isDigit_replicate_zero 1
    refine ⟨.decimal negative ['0'] ['0'] 0,
      ofChars?_plain negative (List.cons_ne_nil _ _) hdigit hdigit, ?_⟩
    have hzero : code = ⟨0, by decide⟩ := Fin.ext hcode
    rw [hzero]
    rfl
  · rename_i hcode
    obtain ⟨hne, hds, hvalue⟩ := ofDecimal_leading negative (digits_shortest_ne_zero hcode)
    rw [ofDecimal_shortest] at hvalue
    dsimp only
    split
    · simpa only [hvalue] using value_plain negative hne hds (leading (shortest code)).2
    · simpa only [hvalue] using
        value_withExponent negative layout.exponentWidth hne hds (leading (shortest code)).2

open Token

theorem isAtomChar_of_isDigit {c : Char} (h : c.isDigit = true) : isAtomChar c = true := by
  have hrange := toNat_of_isDigit h
  have hblank : Text.isBlank c = false := by
    simp only [Text.isBlank, Text.inRanges, Text.blankRanges, List.any_cons, List.any_nil,
      Bool.or_false, Bool.or_eq_false_iff, Bool.and_eq_false_iff, decide_eq_false_iff_not]
    omega
  have hdelim : isDelimiter c = false := by
    simp only [isDelimiter, Bool.or_eq_false_iff, beq_eq_false_iff_ne, ne_eq]
    refine ⟨⟨?_, ?_⟩, ?_⟩ <;> rintro rfl <;> exact absurd h (by decide)
  simp [isAtomChar, hblank, hdelim]

theorem isAtomChar_of_splitSign {cs : List Char}
    (h : ∀ c ∈ (splitSign cs).2, isAtomChar c = true) : ∀ c ∈ cs, isAtomChar c = true := by
  unfold splitSign at h
  split at h
  · intro c hc
    rcases List.mem_cons.mp hc with rfl | hc
    · decide
    · exact h c hc
  · intro c hc
    rcases List.mem_cons.mp hc with rfl | hc
    · decide
    · exact h c hc
  · exact h

theorem isAtomChar_of_exponent? {cs : List Char} {e : Int} (h : exponent? cs = some e) :
    ∀ c ∈ cs, isAtomChar c = true := by
  cases cs with
  | nil => simp
  | cons mark cs =>
    have hmark : isAtomChar mark = true := by
      rcases mark_of_exponent? h with rfl | rfl <;> decide
    have hds : (splitSign cs).2.all Char.isDigit = true := by
      simp only [exponent?] at h
      split at h
      · rename_i hcond
        exact hcond.2.2
      · cases h
    have hcs : ∀ c ∈ cs, isAtomChar c = true :=
      isAtomChar_of_splitSign fun c hc => isAtomChar_of_isDigit (List.all_eq_true.mp hds c hc)
    intro c hc
    rcases List.mem_cons.mp hc with rfl | hc
    · exact hmark
    · exact hcs c hc

theorem isAtomChar_of_dropWhile {cs : List Char}
    (h : ∀ c ∈ cs.dropWhile Char.isDigit, isAtomChar c = true) : ∀ c ∈ cs, isAtomChar c = true := by
  intro c hc
  rw [← List.takeWhile_append_dropWhile (p := Char.isDigit) (l := cs)] at hc
  rcases List.mem_append.mp hc with hc | hc
  · exact isAtomChar_of_isDigit (List.all_eq_true.mp List.all_takeWhile c hc)
  · exact h c hc

/-- A numeral is a text that one token can hold. -/
theorem isAtomChar_of_ofChars? {cs : List Char} {n : Numeral} (h : ofChars? cs = some n) :
    ∀ c ∈ cs, isAtomChar c = true := by
  apply isAtomChar_of_splitSign
  apply isAtomChar_of_dropWhile
  simp only [ofChars?] at h
  split at h
  · rename_i hrest
    simp [hrest]
  · rename_i rest hrest
    rw [hrest]
    split at h
    · cases h
    · obtain ⟨e, he, -⟩ := Option.map_eq_some_iff.mp h
      have hafter := isAtomChar_of_dropWhile (isAtomChar_of_exponent? he)
      intro c hc
      rcases List.mem_cons.mp hc with rfl | hc
      · decide
      · exact hafter c hc
  · split at h
    · cases h
    · obtain ⟨e, he, -⟩ := Option.map_eq_some_iff.mp h
      exact isAtomChar_of_exponent? he

theorem ne_nil_of_ofChars? {cs : List Char} {n : Numeral} (h : ofChars? cs = some n) :
    cs ≠ [] := by
  rintro rfl
  cases h

theorem length_toDigits_le {n k : Nat} (hk : 0 < k) (h : n < Nat.pow 10 k) :
    (Nat.toDigits 10 n).length ≤ k :=
  (Nat.length_toDigits_le_iff (by decide) hk).mpr h

theorem value_intChars {i : Int} (h : i.natAbs < Nat.pow 10 digitLimit) :
    ∃ n, ofChars? (intChars i) = some n ∧ n.value = .ok (.int i) := by
  have htext : intChars i = withSign (decide (i < 0)) (Nat.toDigits 10 i.natAbs) := by
    by_cases hi : i < 0 <;> simp [intChars, withSign, hi]
  have hlen : (Nat.toDigits 10 i.natAbs).length ≤ digitLimit :=
    length_toDigits_le (by decide) h
  refine ⟨_, htext ▸ ofChars?_integer _ Nat.toDigits_ne_nil (isDigit_toDigits _), ?_⟩
  rw [value, if_pos hlen, digitsValue_toDigits, signed_natAbs]

theorem value_toText {x : Binary64} (h : x.isFinite = true) :
    ∃ n, ofText? x.toText = some n ∧ n.value = .ok (.float x) := by
  cases x with
  | finite negative code =>
    simpa [ofText?, toText, withSign] using value_magnitudeText negative code
  | infinite negative => cases h
  | nan => cases h

end Numeral

end PocketLisp
