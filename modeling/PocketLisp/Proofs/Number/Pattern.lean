import Mathlib.Computability.RegularExpressions
import Mathlib.Data.Nat.Digits.Lemmas
import PocketLisp.Proofs.Number.Numeral

/-!
The texts of numbers. Two regular expressions say what an integer and what a decimal in writing
looks like. A text is read as an integer if the first matches it, as a floating-point number if only
the second does, and as a symbol if neither does. An integer has the value of its digits in base ten,
so a plus sign or zeros in front make no difference, and integers are read as they are printed.
-/
namespace PocketLisp

namespace Pattern

open RegularExpression

def tenDigits : List Char := ['0', '1', '2', '3', '4', '5', '6', '7', '8', '9']

def digit : RegularExpression Char := tenDigits.foldr (fun c others => char c + others) 0

def digits : RegularExpression Char := digit * star digit

def optional (r : RegularExpression Char) : RegularExpression Char := 1 + r

def sign : RegularExpression Char := optional (char '+' + char '-')

def integer : RegularExpression Char := sign * digits

/-- Digits with a point after, among or before them, or without a point. -/
def mantissa : RegularExpression Char :=
  digits * char '.' * star digit + char '.' * digits + digits

def exponent : RegularExpression Char := (char 'e' + char 'E') * sign * digits

def decimal : RegularExpression Char := sign * (mantissa * optional exponent)

/-- The expression matches the whole text. -/
def Fits (r : RegularExpression Char) (s : String) : Prop := s.toList ∈ r.matches'

instance (r : RegularExpression Char) (s : String) : Decidable (Fits r s) :=
  decidable_of_iff _ (rmatch_iff_matches' r s.toList)

/-- The text is these digits after this sign. -/
structure Splits (s : String) (σ ds : List Char) : Prop where
  text : s.toList = σ ++ ds
  sign : σ ∈ sign.matches'
  digits : ds ∈ digits.matches'

/-- What digits stand for in base ten, the last of them for ones. -/
def magnitude (ds : List Char) : Nat := Nat.ofDigits 10 (ds.reverse.map tenDigits.idxOf)

/-- What digits after a sign stand for. -/
def signedValue (σ ds : List Char) : Int := if σ = ['-'] then -magnitude ds else magnitude ds

theorem mem_tenDigits_iff {c : Char} : c ∈ tenDigits ↔ c.isDigit = true := by
  constructor
  · have hall : tenDigits.all Char.isDigit = true := by decide
    exact List.all_eq_true.mp hall c
  · intro h
    obtain ⟨hle, hge⟩ := Numeral.toNat_of_isDigit h
    rw [← Char.ofNat_toNat c]
    generalize c.toNat = n at hle hge ⊢
    interval_cases n <;> decide

theorem mem_digit_iff {cs : List Char} :
    cs ∈ digit.matches' ↔ ∃ c, c.isDigit = true ∧ cs = [c] := by
  have hfold (chars : List Char) :
      cs ∈ (chars.foldr (fun c others => char c + others) 0).matches' ↔ ∃ c ∈ chars, cs = [c] := by
    induction chars with
    | nil => simp
    | cons c chars ih =>
      rw [List.foldr_cons, matches'_add, Language.mem_add, ih, List.exists_mem_cons_iff]
      exact Iff.rfl
  simp only [digit, hfold, mem_tenDigits_iff]

theorem mem_star_digit_iff {cs : List Char} :
    cs ∈ (star digit).matches' ↔ ∀ c ∈ cs, c.isDigit = true := by
  rw [matches'_star, Language.mem_kstar]
  constructor
  · rintro ⟨parts, rfl, hparts⟩ c hc
    obtain ⟨part, hpart, hc⟩ := List.mem_flatten.mp hc
    obtain ⟨d, hd, rfl⟩ := mem_digit_iff.mp (hparts part hpart)
    rwa [List.mem_singleton.mp hc]
  · intro h
    refine ⟨cs.map fun c => [c], (List.flatMap_singleton' cs).symm, fun part hpart => ?_⟩
    obtain ⟨c, hc, rfl⟩ := List.mem_map.mp hpart
    exact mem_digit_iff.mpr ⟨c, h c hc, rfl⟩

theorem mem_digits_iff {cs : List Char} :
    cs ∈ digits.matches' ↔ cs ≠ [] ∧ ∀ c ∈ cs, c.isDigit = true := by
  rw [digits, matches'_mul, Language.mem_mul]
  constructor
  · rintro ⟨first, hfirst, others, hothers, rfl⟩
    obtain ⟨c, hc, rfl⟩ := mem_digit_iff.mp hfirst
    exact ⟨List.cons_ne_nil _ _, List.forall_mem_cons.mpr ⟨hc, mem_star_digit_iff.mp hothers⟩⟩
  · rintro ⟨hne, hcs⟩
    cases cs with
    | nil => exact absurd rfl hne
    | cons c cs =>
      obtain ⟨hc, hcs⟩ := List.forall_mem_cons.mp hcs
      exact ⟨[c], mem_digit_iff.mpr ⟨c, hc, rfl⟩, cs, mem_star_digit_iff.mpr hcs, rfl⟩

theorem mem_optional_iff {r : RegularExpression Char} {cs : List Char} :
    cs ∈ (optional r).matches' ↔ cs = [] ∨ cs ∈ r.matches' := by
  rw [optional, matches'_add, Language.mem_add, matches'_epsilon, Language.mem_one]

theorem mem_sign_iff {cs : List Char} : cs ∈ sign.matches' ↔ cs = [] ∨ cs = ['+'] ∨ cs = ['-'] := by
  rw [sign, mem_optional_iff]
  exact Iff.rfl

theorem mem_exponent_iff {cs : List Char} : cs ∈ exponent.matches' ↔
    ∃ c σ ds, (c = 'e' ∨ c = 'E') ∧ σ ∈ sign.matches' ∧ ds ∈ digits.matches' ∧
      cs = c :: (σ ++ ds) := by
  constructor
  · rintro ⟨_, ⟨mark, hmark, σ, hσ, rfl⟩, ds, hds, rfl⟩
    rcases hmark with rfl | rfl
    · exact ⟨'e', σ, ds, .inl rfl, hσ, hds, rfl⟩
    · exact ⟨'E', σ, ds, .inr rfl, hσ, hds, rfl⟩
  · rintro ⟨c, σ, ds, hc, hσ, hds, rfl⟩
    have hmark : [c] ∈ (char 'e' + char 'E').matches' := by
      rcases hc with rfl | rfl
      · exact .inl rfl
      · exact .inr rfl
    exact ⟨c :: σ, ⟨[c], hmark, σ, hσ, rfl⟩, ds, hds, rfl⟩

theorem mem_mantissa_iff {cs : List Char} : cs ∈ mantissa.matches' ↔
    (∃ whole fraction, whole ∈ digits.matches' ∧ (∀ c ∈ fraction, c.isDigit = true) ∧
      cs = whole ++ '.' :: fraction) ∨
    (∃ fraction ∈ digits.matches', cs = '.' :: fraction) ∨ cs ∈ digits.matches' := by
  constructor
  · rintro ((⟨_, ⟨whole, hwhole, _, rfl, rfl⟩, fraction, hfraction, rfl⟩ |
      ⟨_, rfl, fraction, hfraction, rfl⟩) | hwhole)
    · refine .inl ⟨whole, fraction, hwhole, mem_star_digit_iff.mp hfraction, ?_⟩
      exact List.append_assoc whole ['.'] fraction
    · exact .inr (.inl ⟨fraction, hfraction, rfl⟩)
    · exact .inr (.inr hwhole)
  · rintro (⟨whole, fraction, hwhole, hfraction, rfl⟩ | ⟨fraction, hfraction, rfl⟩ | hwhole)
    · refine .inl (.inl ⟨_, ⟨whole, hwhole, ['.'], rfl, rfl⟩, fraction,
        mem_star_digit_iff.mpr hfraction, ?_⟩)
      exact List.append_assoc whole ['.'] fraction
    · exact .inl (.inr ⟨['.'], rfl, fraction, hfraction, rfl⟩)
    · exact .inr hwhole

theorem mem_decimal_iff {cs : List Char} : cs ∈ decimal.matches' ↔
    ∃ σ ∈ sign.matches', ∃ body ∈ mantissa.matches', ∃ tail ∈ (optional exponent).matches',
      cs = σ ++ (body ++ tail) := by
  constructor
  · rintro ⟨σ, hσ, _, ⟨body, hbody, tail, htail, rfl⟩, rfl⟩
    exact ⟨σ, hσ, body, hbody, tail, htail, rfl⟩
  · rintro ⟨σ, hσ, body, hbody, tail, htail, rfl⟩
    exact ⟨σ, hσ, body ++ tail, ⟨body, hbody, tail, htail, rfl⟩, rfl⟩

end Pattern

namespace Numeral

open Pattern RegularExpression

def Unsigned (body : List Char) : Prop := ∀ c ∈ body.head?, c ≠ '+' ∧ c ≠ '-'

theorem unsigned_append {ds : List Char} (h : ds ∈ digits.matches') (rest : List Char) :
    Unsigned (ds ++ rest) := by
  obtain ⟨hne, hds⟩ := mem_digits_iff.mp h
  cases ds with
  | nil => exact absurd rfl hne
  | cons d ds =>
    have hd : d.isDigit = true := hds d List.mem_cons_self
    rintro c ⟨⟩
    constructor <;> rintro rfl <;> exact absurd hd (by decide)

theorem unsigned_of_mem_digits {ds : List Char} (h : ds ∈ digits.matches') : Unsigned ds :=
  List.append_nil ds ▸ unsigned_append h []

theorem splitSign_of_unsigned {body : List Char} (h : Unsigned body) :
    splitSign body = (false, body) := by
  unfold splitSign
  split
  · exact absurd rfl (h _ rfl).2
  · exact absurd rfl (h _ rfl).1
  · rfl

theorem splitSign_append {σ body : List Char} (hσ : σ ∈ sign.matches') (h : Unsigned body) :
    splitSign (σ ++ body) = (decide (σ = ['-']), body) := by
  rcases mem_sign_iff.mp hσ with rfl | rfl | rfl
  · exact splitSign_of_unsigned h
  · rfl
  · rfl

theorem exists_sign (cs : List Char) : ∃ σ ∈ sign.matches',
    cs = σ ++ (splitSign cs).2 ∧ (splitSign cs).1 = decide (σ = ['-']) := by
  unfold splitSign
  split
  · exact ⟨['-'], mem_sign_iff.mpr (.inr (.inr rfl)), rfl, rfl⟩
  · exact ⟨['+'], mem_sign_iff.mpr (.inr (.inl rfl)), rfl, rfl⟩
  · exact ⟨[], mem_sign_iff.mpr (.inl rfl), rfl, rfl⟩

/-- A text counts only for its sign and for what follows the sign. -/
theorem ofChars?_congr {cs cs' : List Char} (h : splitSign cs = splitSign cs') :
    ofChars? cs = ofChars? cs' := by
  rw [ofChars?, ofChars?, h]

theorem ofChars?_signed {σ body : List Char} (hσ : σ ∈ sign.matches') (h : Unsigned body) :
    ofChars? (σ ++ body) = ofChars? (withSign (decide (σ = ['-'])) body) := by
  apply ofChars?_congr
  rw [splitSign_append hσ h]
  cases decide (σ = ['-']) with
  | true => rfl
  | false => exact (splitSign_of_unsigned h).symm

theorem ofChars?_fraction (negative : Bool) {fraction tail : List Char} {e : Int}
    (hf : fraction ∈ digits.matches') (ht : exponent? tail = some e) :
    ofChars? (withSign negative ('.' :: (fraction ++ tail))) =
      some (.decimal negative [] fraction e) := by
  obtain ⟨hne, hds⟩ := mem_digits_iff.mp hf
  obtain ⟨hnone, hrest⟩ := takeWhile_isDigit_of_exponent? ht
  obtain ⟨htake, hdrop⟩ := span_isDigit tail hds hnone hrest
  have hsign : splitSign (withSign negative ('.' :: (fraction ++ tail))) =
      (negative, '.' :: (fraction ++ tail)) := by
    cases negative <;> rfl
  have hpoint : Char.isDigit '.' = false := rfl
  simp [ofChars?, hsign, hpoint, htake, hdrop, hne, ht]

theorem exponent?_written_as {c : Char} {σ ds : List Char} (hc : c = 'e' ∨ c = 'E')
    (hσ : σ ∈ sign.matches') (hds : ds ∈ digits.matches') :
    exponent? (c :: (σ ++ ds)) = some (Binary64.signed (decide (σ = ['-'])) (digitsValue ds)) := by
  obtain ⟨hne, hall⟩ := mem_digits_iff.mp hds
  rw [exponent?, splitSign_append hσ (unsigned_of_mem_digits hds)]
  exact if_pos ⟨hc, hne, List.all_eq_true.mpr hall⟩

theorem mem_optional_exponent_iff {tail : List Char} :
    tail ∈ (optional exponent).matches' ↔ ∃ e, exponent? tail = some e := by
  rw [mem_optional_iff, mem_exponent_iff]
  constructor
  · rintro (rfl | ⟨c, σ, ds, hc, hσ, hds, rfl⟩)
    · exact ⟨0, rfl⟩
    · exact ⟨_, exponent?_written_as hc hσ hds⟩
  · rintro ⟨e, he⟩
    cases tail with
    | nil => exact .inl rfl
    | cons c cs =>
      obtain ⟨σ, hσ, hcs, -⟩ := exists_sign cs
      rw [exponent?] at he
      dsimp only at he
      split at he
      · rename_i hcond
        obtain ⟨hc, hne, hall⟩ := hcond
        exact .inr ⟨c, σ, (splitSign cs).2, hc, hσ,
          mem_digits_iff.mpr ⟨hne, List.all_eq_true.mp hall⟩, congrArg (c :: ·) hcs⟩
      · cases he

/-- What stands after the sign in a text that is taken for a numeral: digits only, digits on one
side of a point at least, or digits with an exponent. -/
inductive Spelled (σ : List Char) : List Char → Numeral → Prop
  | integer {ds : List Char} (hds : ds ∈ digits.matches') :
      Spelled σ ds (.integer (decide (σ = ['-'])) ds)
  | point {whole fraction tail : List Char} {e : Int}
      (hwhole : ∀ c ∈ whole, c.isDigit = true) (hfraction : ∀ c ∈ fraction, c.isDigit = true)
      (hne : ¬(whole = [] ∧ fraction = [])) (htail : exponent? tail = some e) :
      Spelled σ (whole ++ '.' :: (fraction ++ tail))
        (.decimal (decide (σ = ['-'])) whole fraction e)
  | whole {whole tail : List Char} {e : Int} (hwhole : whole ∈ digits.matches')
      (htail : exponent? tail = some e) :
      Spelled σ (whole ++ tail) (.decimal (decide (σ = ['-'])) whole [] e)

theorem spelled_of_ofChars? {cs : List Char} {n : Numeral} (h : ofChars? cs = some n) :
    ∃ σ ∈ sign.matches', ∃ body, cs = σ ++ body ∧ Spelled σ body n := by
  obtain ⟨σ, hσ, hcs, hnegative⟩ := exists_sign cs
  refine ⟨σ, hσ, (splitSign cs).2, hcs, ?_⟩
  rw [ofChars?] at h
  dsimp only at h
  rw [hnegative] at h
  generalize (splitSign cs).2 = body at h ⊢
  have hall {cs : List Char} : ∀ c ∈ cs.takeWhile Char.isDigit, c.isDigit = true :=
    List.all_eq_true.mp List.all_takeWhile
  have hbody : body = body.takeWhile Char.isDigit ++ body.dropWhile Char.isDigit :=
    List.takeWhile_append_dropWhile.symm
  generalize hwhole : body.takeWhile Char.isDigit = whole at h hbody
  have hdigits : ∀ c ∈ whole, c.isDigit = true := hwhole ▸ hall
  split at h
  · rename_i hrest
    rw [hrest, List.append_nil] at hbody
    split at h
    · cases h
    · rename_i hne
      cases h
      rw [hbody]
      exact .integer (mem_digits_iff.mpr ⟨hne, hdigits⟩)
  · rename_i rest hrest
    split at h
    · cases h
    · rename_i hne
      obtain ⟨e, he, rfl⟩ := Option.map_eq_some_iff.mp h
      have hsides := Spelled.point (σ := σ) hdigits hall hne he
      rw [List.takeWhile_append_dropWhile] at hsides
      rw [hbody, hrest]
      exact hsides
  · split at h
    · cases h
    · rename_i hne
      obtain ⟨e, he, rfl⟩ := Option.map_eq_some_iff.mp h
      rw [hbody]
      exact .whole (mem_digits_iff.mpr ⟨hne, hdigits⟩) he

theorem mem_decimal_of_ofChars? {cs : List Char} {n : Numeral} (h : ofChars? cs = some n) :
    cs ∈ Pattern.decimal.matches' := by
  obtain ⟨σ, hσ, body, rfl, hbody⟩ := spelled_of_ofChars? h
  rw [mem_decimal_iff]
  refine ⟨σ, hσ, ?_⟩
  cases hbody with
  | integer hds =>
    exact ⟨body, mem_mantissa_iff.mpr (.inr (.inr hds)), [], mem_optional_iff.mpr (.inl rfl),
      by rw [List.append_nil]⟩
  | @point whole fraction tail e hwhole hfraction hne htail =>
    refine ⟨whole ++ '.' :: fraction, mem_mantissa_iff.mpr ?_, tail,
      mem_optional_exponent_iff.mpr ⟨e, htail⟩, by simp⟩
    by_cases hnone : whole = []
    · have hdigits : fraction ≠ [] := fun hnone' => hne ⟨hnone, hnone'⟩
      exact .inr (.inl ⟨fraction, mem_digits_iff.mpr ⟨hdigits, hfraction⟩, by rw [hnone]; rfl⟩)
    · exact .inl ⟨whole, fraction, mem_digits_iff.mpr ⟨hnone, hwhole⟩, hfraction, rfl⟩
  | @whole whole tail e hwhole htail =>
    exact ⟨whole, mem_mantissa_iff.mpr (.inr (.inr hwhole)), tail,
      mem_optional_exponent_iff.mpr ⟨e, htail⟩, rfl⟩

theorem ofChars?_of_sign {σ ds : List Char} (hσ : σ ∈ sign.matches') (hds : ds ∈ digits.matches') :
    ofChars? (σ ++ ds) = some (.integer (decide (σ = ['-'])) ds) := by
  obtain ⟨hne, hall⟩ := mem_digits_iff.mp hds
  rw [ofChars?_signed hσ (unsigned_of_mem_digits hds), ofChars?_integer _ hne hall]

theorem ofChars?_of_mem_decimal {cs : List Char} (h : cs ∈ Pattern.decimal.matches') :
    ∃ n, ofChars? cs = some n := by
  obtain ⟨σ, hσ, body, hbody, tail, htail, rfl⟩ := mem_decimal_iff.mp h
  obtain ⟨e, he⟩ := mem_optional_exponent_iff.mp htail
  rcases mem_mantissa_iff.mp hbody with
    ⟨whole, fraction, hwhole, hfraction, rfl⟩ | ⟨fraction, hfraction, rfl⟩ | hwhole
  · obtain ⟨hne, hall⟩ := mem_digits_iff.mp hwhole
    rw [List.append_assoc, ofChars?_signed hσ (unsigned_append hwhole _)]
    exact ⟨_, ofChars?_point _ hne hall hfraction he⟩
  · rw [ofChars?_signed hσ (by rintro c ⟨⟩; decide)]
    exact ⟨_, ofChars?_fraction _ hfraction he⟩
  · cases tail with
    | nil =>
      rw [List.append_nil]
      exact ⟨_, ofChars?_of_sign hσ hwhole⟩
    | cons c tail =>
      obtain ⟨hne, hall⟩ := mem_digits_iff.mp hwhole
      rw [ofChars?_signed hσ (unsigned_append hwhole _)]
      exact ⟨_, ofChars?_whole _ hne hall (List.cons_ne_nil c tail) he⟩

theorem splits_of_ofText? {s : String} {negative : Bool} {ds : List Char}
    (h : ofText? s = some (.integer negative ds)) : ∃ σ, Splits s σ ds := by
  obtain ⟨σ, hσ, body, hcs, hbody⟩ := spelled_of_ofChars? h
  cases hbody with
  | integer hds => exact ⟨σ, hcs, hσ, hds⟩

theorem ofText?_of_splits {s : String} {σ ds : List Char} (h : Splits s σ ds) :
    ofText? s = some (.integer (decide (σ = ['-'])) ds) := by
  rw [ofText?, h.text, ofChars?_of_sign h.sign h.digits]

end Numeral

namespace Pattern

open Numeral

theorem fits_integer_iff {s : String} : Fits integer s ↔ ∃ σ ds, Splits s σ ds := by
  constructor
  · rintro ⟨σ, hσ, ds, hds, htext⟩
    exact ⟨σ, ds, htext.symm, hσ, hds⟩
  · rintro ⟨σ, ds, h⟩
    exact ⟨σ, h.sign, ds, h.digits, h.text.symm⟩

theorem fits_decimal_iff {s : String} : Fits decimal s ↔ ∃ n, ofText? s = some n :=
  ⟨ofChars?_of_mem_decimal, fun ⟨_, hn⟩ => mem_decimal_of_ofChars? hn⟩

/-- The place of a digit among the ten is what it counts. -/
theorem idxOf_tenDigits {c : Char} (h : c.isDigit = true) :
    tenDigits.idxOf c = c.toNat - '0'.toNat := by
  have hall : tenDigits.all (fun c => tenDigits.idxOf c == c.toNat - '0'.toNat) = true := by decide
  exact beq_iff_eq.mp (List.all_eq_true.mp hall c (mem_tenDigits_iff.mpr h))

theorem digitsValue_eq_magnitude {ds : List Char} (h : ∀ c ∈ ds, c.isDigit = true) :
    digitsValue ds = magnitude ds := by
  induction ds using List.reverseRecOn with
  | nil => rfl
  | append_singleton ds c ih =>
    have hds := ih fun d hd => h d (List.mem_append_left _ hd)
    have hc := idxOf_tenDigits (h c (by simp))
    rw [digitsValue_concat, hds, magnitude, magnitude, List.reverse_append, List.reverse_singleton,
      List.singleton_append, List.map_cons, Nat.ofDigits_cons, hc, Nat.add_comm]

theorem signedValue_eq (σ : List Char) {ds : List Char} (h : ∀ c ∈ ds, c.isDigit = true) :
    signedValue σ ds = Binary64.signed (decide (σ = ['-'])) (digitsValue ds) := by
  simp only [signedValue, Binary64.signed, digitsValue_eq_magnitude h, decide_eq_true_eq]

end Pattern

open Pattern

theorem parseNumber_of_splits {s : String} {σ ds : List Char} (h : Splits s σ ds) :
    parseNumber s = if ds.length ≤ digitLimit then .ok (.int (signedValue σ ds))
      else .error (.escape (.readLimit ds.length)) := by
  rw [parseNumber, Numeral.ofText?_of_splits h]
  dsimp only
  rw [Numeral.value, signedValue_eq σ (mem_digits_iff.mp h.digits).2]
  split <;> rfl

/-- What a text stands for, by its shape. -/
inductive Classified (s : String) : Except Failure Number → Prop
  | integer {σ ds : List Char} (h : Splits s σ ds) (hlength : ds.length ≤ digitLimit) :
      Classified s (.ok (.int (signedValue σ ds)))
  | overlong {σ ds : List Char} (h : Splits s σ ds) (hlength : digitLimit < ds.length) :
      Classified s (.error (.escape (.readLimit ds.length)))
  | float (x : Binary64) (h : Fits decimal s) (hother : ¬Fits integer s) :
      Classified s (.ok (.float x))
  | word (h : ¬Fits decimal s) : Classified s (.error (.because (.notANumber (Text.quoted s))))

theorem classified_parseNumber (s : String) : Classified s (parseNumber s) := by
  cases hs : Numeral.ofText? s with
  | none =>
    rw [parseNumber, hs]
    refine .word fun h => ?_
    obtain ⟨n, hn⟩ := fits_decimal_iff.mp h
    cases hs.symm.trans hn
  | some n =>
    cases n with
    | integer negative ds =>
      obtain ⟨σ, h⟩ := Numeral.splits_of_ofText? hs
      rw [parseNumber_of_splits h]
      split
      · exact .integer h ‹_›
      · exact .overlong h (Nat.lt_of_not_le ‹_›)
    | decimal negative whole fraction exponent =>
      rw [parseNumber, hs]
      refine .float _ (fits_decimal_iff.mpr ⟨_, hs⟩) fun h => ?_
      obtain ⟨σ, ds, h⟩ := fits_integer_iff.mp h
      cases hs.symm.trans (Numeral.ofText?_of_splits h)

section

variable {s : String}

theorem parseNumber_int_iff {n : Int} : parseNumber s = .ok (.int n) ↔
    ∃ σ ds, Splits s σ ds ∧ ds.length ≤ digitLimit ∧ n = signedValue σ ds := by
  constructor
  · intro h
    cases h ▸ classified_parseNumber s with
    | integer hsplits hlength => exact ⟨_, _, hsplits, hlength, rfl⟩
  · rintro ⟨σ, ds, hsplits, hlength, rfl⟩
    rw [parseNumber_of_splits hsplits, if_pos hlength]

theorem parseNumber_escape_iff {e : Escape} : parseNumber s = .error (.escape e) ↔
    ∃ σ ds, Splits s σ ds ∧ digitLimit < ds.length ∧ e = .readLimit ds.length := by
  constructor
  · intro h
    cases h ▸ classified_parseNumber s with
    | overlong hsplits hlength => exact ⟨_, _, hsplits, hlength, rfl⟩
  · rintro ⟨σ, ds, hsplits, hlength, rfl⟩
    rw [parseNumber_of_splits hsplits, if_neg (Nat.not_le.mpr hlength)]

theorem parseNumber_float_iff :
    (∃ x, parseNumber s = .ok (.float x)) ↔ Fits decimal s ∧ ¬Fits integer s := by
  constructor
  · rintro ⟨x, h⟩
    cases h ▸ classified_parseNumber s with
    | float x hfits hother => exact ⟨hfits, hother⟩
  · rintro ⟨hfits, hother⟩
    generalize hs : parseNumber s = r
    cases hs ▸ classified_parseNumber s with
    | integer hsplits | overlong hsplits =>
      exact absurd (fits_integer_iff.mpr ⟨_, _, hsplits⟩) hother
    | float x => exact ⟨x, rfl⟩
    | word hnot => exact absurd hfits hnot

theorem fits_decimal_of_integer (h : Fits integer s) : Fits decimal s := by
  obtain ⟨σ, ds, hsplits⟩ := fits_integer_iff.mp h
  exact fits_decimal_iff.mpr ⟨_, Numeral.ofText?_of_splits hsplits⟩

theorem parseNumber_fault_iff {f : Fault} : parseNumber s = .error (.fault f) ↔
    ¬Fits integer s ∧ ¬Fits decimal s ∧ f = { cause := .notANumber (Text.quoted s) } := by
  constructor
  · intro h
    cases h ▸ classified_parseNumber s with
    | word hnot => exact ⟨fun hfits => hnot (fits_decimal_of_integer hfits), hnot, rfl⟩
  · rintro ⟨-, hnot, rfl⟩
    cases hs : Numeral.ofText? s with
    | none =>
      rw [parseNumber, hs]
      rfl
    | some n => exact absurd (fits_decimal_iff.mpr ⟨n, hs⟩) hnot

/-- What an atom is when its text is read as a number with this outcome: a symbol if that is a
fault. -/
def orSymbol (s : String) : Except Failure Number → Except Escape Value
  | .ok n => .ok (.num n)
  | .error (.escape e) => .error e
  | .error (.fault _) => .ok (.sym s)

theorem atomValue_eq_orSymbol (s : String) : atomValue s = orSymbol s (parseNumber s) := by
  rw [atomValue, parseNumber]
  cases Numeral.ofText? s with
  | none => rfl
  | some n =>
    dsimp only
    cases n.value <;> rfl

theorem atomValue_error_iff {e : Escape} :
    atomValue s = .error e ↔ parseNumber s = .error (.escape e) := by
  rw [atomValue_eq_orSymbol]
  generalize parseNumber s = r
  cases r with
  | ok n => simp [orSymbol]
  | error failure => cases failure <;> simp [orSymbol]

end

theorem splits_ofList {σ ds : List Char} (hσ : σ ∈ sign.matches') (hds : ds ∈ digits.matches') :
    Splits (String.ofList (σ ++ ds)) σ ds :=
  ⟨String.toList_ofList, hσ, hds⟩

theorem parseNumber_plus {ds : List Char} (hds : ds ∈ digits.matches') :
    parseNumber (String.ofList ('+' :: ds)) = parseNumber (String.ofList ds) := by
  have hplus := splits_ofList (mem_sign_iff.mpr (.inr (.inl rfl))) hds
  have hnone := splits_ofList (mem_sign_iff.mpr (.inl rfl)) hds
  exact (parseNumber_of_splits hplus).trans (parseNumber_of_splits hnone).symm

theorem parseNumber_zeros {σ ds : List Char} (hσ : σ ∈ sign.matches') (hds : ds ∈ digits.matches')
    {zeros : Nat} (hlength : zeros + ds.length ≤ digitLimit) :
    parseNumber (String.ofList (σ ++ (List.replicate zeros '0' ++ ds))) =
      parseNumber (String.ofList (σ ++ ds)) := by
  obtain ⟨hne, hall⟩ := mem_digits_iff.mp hds
  have hzeros : ∀ c ∈ List.replicate zeros '0' ++ ds, c.isDigit = true :=
    Numeral.isDigit_append (Numeral.isDigit_replicate_zero zeros) hall
  have hdigits : List.replicate zeros '0' ++ ds ∈ digits.matches' :=
    mem_digits_iff.mpr ⟨List.append_ne_nil_of_right_ne_nil _ hne, hzeros⟩
  have hlong : (List.replicate zeros '0' ++ ds).length ≤ digitLimit := by
    rwa [List.length_append, List.length_replicate]
  have hvalue : signedValue σ (List.replicate zeros '0' ++ ds) = signedValue σ ds := by
    rw [signedValue_eq σ hzeros, signedValue_eq σ hall, Numeral.digitsValue_replicate_append]
  rw [parseNumber_of_splits (splits_ofList hσ hdigits), if_pos hlong, hvalue,
    parseNumber_of_splits (splits_ofList hσ hds),
    if_pos (Nat.le_trans (Nat.le_add_left ..) hlength)]

theorem atomValue_print {n : Int} (h : (Nat.digits 10 n.natAbs).length ≤ digitLimit) :
    ∃ text, intText n = .ok text ∧ atomValue text = .ok (.num (.int n)) := by
  have hpow (k : Nat) (hk : (Nat.digits 10 n.natAbs).length ≤ k) : n.natAbs < Nat.pow 10 k :=
    (Nat.digits_length_le_iff (by decide) n.natAbs).mp hk
  have hsmall := hpow digitLimit h
  obtain ⟨numeral, hread, hvalue⟩ := Numeral.value_intChars hsmall
  refine ⟨String.ofList (intChars n), if_pos hsmall, ?_⟩
  rw [atomValue, Numeral.ofText?, String.toList_ofList, hread]
  dsimp only
  rw [hvalue]
  rfl

/-- The two expressions decide what an atom is. Digits, with a sign or without, are an integer, which
has their value in base ten, unless there are too many of them. Any other decimal in writing is a
floating-point number. Anything else is no number, and as an atom it is the symbol of that name. So
there is no fault in an atom, integers are read as they are printed, and a plus sign or zeros in
front do not change an integer. -/
theorem atoms_decided_by_patterns :
    (∀ s : String,
      (∀ n, parseNumber s = .ok (.int n) ↔
        ∃ σ ds, Splits s σ ds ∧ ds.length ≤ digitLimit ∧ n = signedValue σ ds) ∧
      (∀ e, parseNumber s = .error (.escape e) ↔
        ∃ σ ds, Splits s σ ds ∧ digitLimit < ds.length ∧ e = .readLimit ds.length) ∧
      ((∃ x, parseNumber s = .ok (.float x)) ↔ Fits decimal s ∧ ¬Fits integer s) ∧
      (∀ f, parseNumber s = .error (.fault f) ↔
        ¬Fits integer s ∧ ¬Fits decimal s ∧ f = { cause := .notANumber (Text.quoted s) }) ∧
      (∀ f, parseNumber s = .error (.fault f) →
        f.kind = .numberFormat ∧ atomValue s = .ok (.sym s)) ∧
      (∀ n, parseNumber s = .ok n → atomValue s = .ok (.num n)) ∧
      (∀ e, atomValue s = .error e ↔ parseNumber s = .error (.escape e))) ∧
    (∀ n : Int, (Nat.digits 10 n.natAbs).length ≤ digitLimit → ∀ room,
      ∃ text, (Value.num (.int n)).renderWithin room = .ok text ∧
        atomValue text = .ok (.num (.int n))) ∧
    (∀ ds ∈ digits.matches',
      parseNumber (String.ofList ('+' :: ds)) = parseNumber (String.ofList ds)) ∧
    ∀ σ ∈ sign.matches', ∀ ds ∈ digits.matches', ∀ zeros, zeros + ds.length ≤ digitLimit →
      parseNumber (String.ofList (σ ++ (List.replicate zeros '0' ++ ds))) =
        parseNumber (String.ofList (σ ++ ds)) := by
  refine ⟨fun s => ⟨fun n => parseNumber_int_iff, fun e => parseNumber_escape_iff,
    parseNumber_float_iff, fun f => parseNumber_fault_iff, fun f h => ?_, fun n h => ?_,
    fun e => atomValue_error_iff⟩, fun n h room => ?_, fun ds => parseNumber_plus,
    fun σ hσ ds hds zeros => parseNumber_zeros hσ hds⟩
  · obtain ⟨-, -, rfl⟩ := parseNumber_fault_iff.mp h
    exact ⟨rfl, by rw [atomValue_eq_orSymbol, h]; rfl⟩
  · rw [atomValue_eq_orSymbol, h]
    rfl
  · have hrender (n : Number) : (Value.num n).renderWithin room = n.print := rfl
    rw [hrender, Number.print]
    exact atomValue_print h

example : Fits decimal "-.5e+07" ∧ Fits decimal "5." ∧ ¬Fits integer "5." ∧ ¬Fits decimal "." ∧
    ¬Fits decimal "1e+" := by
  decide +kernel

end PocketLisp
