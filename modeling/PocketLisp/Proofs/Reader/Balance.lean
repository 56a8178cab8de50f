import Mathlib.Data.List.Basic
import Mathlib.Data.List.Induction
import PocketLisp.Proofs.Reader.Acceptance

/-!
Parentheses and quotation marks of token texts, counted from left to right. Texts are sheltered if no
closing parenthesis among them comes too early or follows a quotation mark. What has been read of
expressions is sheltered, and how many parentheses are open in it, and whether a quotation mark
waits at its end, is what the open constructs say.
-/
namespace PocketLisp.Reader

/-- Opening minus closing parentheses. -/
def balance (ws : List String) : Int := ws.count "(" - ws.count ")"

@[simp] theorem balance_nil : balance [] = 0 := rfl

@[simp] theorem balance_append (ws us : List String) :
    balance (ws ++ us) = balance ws + balance us := by
  simp only [balance, List.count_append]
  omega

theorem balance_cons (w : String) (ws : List String) :
    balance (w :: ws) = balance [w] + balance ws :=
  balance_append [w] ws

@[simp] theorem balance_open : balance ["("] = 1 := by decide

@[simp] theorem balance_close : balance [")"] = -1 := by decide

theorem balance_atom {w : String} (h : isMark w = false) : balance [w] = 0 := by
  have hne : (w ≠ "(" ∧ w ≠ ")") ∧ w ≠ "'" := by simpa [isMark] using h
  simp [balance, hne.1.1, hne.1.2]

theorem balance_nonneg_of_ne_close {w : String} (h : w ≠ ")") : 0 ≤ balance [w] := by
  simp [balance, h]

/-- At each closing parenthesis more have been opened before than closed, and what stands directly
before it is not a quotation mark. -/
def Sheltered (ws : List String) : Prop :=
  ∀ us rest, ws = us ++ ")" :: rest → 0 < balance us ∧ us.getLast? ≠ some "'"

namespace Sheltered

variable {ws us : List String}

theorem nil : Sheltered [] := by
  intro us rest h
  simp at h

theorem single {w : String} (h : w ≠ ")") : Sheltered [w] := by
  intro us rest hsplit
  rcases us with _ | ⟨u, us⟩
  · exact absurd (List.cons.inj hsplit).1 h
  · simp at hsplit

theorem of_append (h : Sheltered (ws ++ us)) : Sheltered ws := by
  rintro before rest rfl
  exact h before (rest ++ us) (by simp)

theorem nonneg (h : Sheltered ws) : 0 ≤ balance ws := by
  induction ws using List.reverseRecOn with
  | nil => exact Int.le_refl 0
  | append_singleton ws w ih =>
    have hws := ih h.of_append
    rw [balance_append]
    by_cases hw : w = ")"
    · subst hw
      have hpos := (h ws [] rfl).1
      rw [balance_close]
      omega
    · have := balance_nonneg_of_ne_close hw
      omega

theorem append (h : Sheltered ws) (hus : Sheltered us) : Sheltered (ws ++ us) := by
  intro before rest hsplit
  rcases List.append_eq_append_iff.mp hsplit with ⟨inside, rfl, hinside⟩ | ⟨inside, hws, hrest⟩
  · obtain ⟨hpos, hlast⟩ := hus inside rest hinside
    have hne : inside ≠ [] := by
      rintro rfl
      exact absurd hpos (by simp)
    have hnonneg := h.nonneg
    rw [balance_append, List.getLast?_append_of_ne_nil _ hne]
    exact ⟨by omega, hlast⟩
  · rcases inside with _ | ⟨w, inside⟩
    · have hbad := (hus [] rest hrest.symm).1
      exact absurd hbad (by simp)
    · obtain ⟨rfl, -⟩ := List.cons.inj hrest
      exact h before inside hws

theorem of_balanced_append (h : Sheltered (ws ++ us)) (hws : balance ws = 0) : Sheltered us := by
  rintro before rest rfl
  obtain ⟨hpos, hlast⟩ := h (ws ++ before) rest (by simp)
  rw [balance_append, hws, Int.zero_add] at hpos
  have hne : before ≠ [] := by
    rintro rfl
    exact absurd hpos (by simp)
  rw [List.getLast?_append_of_ne_nil _ hne] at hlast
  exact ⟨hpos, hlast⟩

theorem close (h : Sheltered ws) (hpos : 0 < balance ws) (hlast : ws.getLast? ≠ some "'") :
    Sheltered (ws ++ [")"]) := by
  intro before rest hsplit
  rcases List.append_eq_append_iff.mp hsplit with ⟨inside, rfl, hinside⟩ | ⟨inside, hws, hrest⟩
  · rcases inside with _ | ⟨w, inside⟩
    · simpa using ⟨hpos, hlast⟩
    · simp at hinside
  · rcases inside with _ | ⟨w, inside⟩
    · rw [List.append_nil] at hws
      exact hws ▸ ⟨hpos, hlast⟩
    · obtain ⟨rfl, -⟩ := List.cons.inj hrest
      exact h before inside hws

end Sheltered

/-- A closing parenthesis after these texts closes nothing: as many have been closed as opened, or a
quotation mark waits for its expression. -/
def ClosesNothing (ws : List String) : Prop :=
  ws.count "(" = ws.count ")" ∨ ws.getLast? = some "'"

theorem Sheltered.not_closesNothing {ws us rest : List String} (h : Sheltered ws)
    (hws : ws = us ++ ")" :: rest) : ¬ClosesNothing us := by
  obtain ⟨hpos, hlast⟩ := h us rest hws
  rintro (hcount | hquote)
  · simp [balance, hcount] at hpos
  · exact hlast hquote

/-- Sheltered texts after which nothing is open and nothing waits. -/
structure Settled (ws : List String) : Prop where
  sheltered : Sheltered ws
  balanced : balance ws = 0
  last : ws.getLast? ≠ some "'"

theorem Settled.closesNothing_append {ws us : List String} (h : Settled ws)
    (hus : ClosesNothing us) : ClosesNothing (ws ++ us) := by
  have hbalance := h.balanced
  simp only [balance] at hbalance
  rcases hus with hcount | hquote
  · left
    simp only [List.count_append]
    omega
  · right
    rw [List.getLast?_append, hquote]
    rfl

theorem Settled.append {ws us : List String} (h : Settled ws) (hus : Settled us) :
    Settled (ws ++ us) where
  sheltered := h.sheltered.append hus.sheltered
  balanced := by rw [balance_append, h.balanced, hus.balanced]; rfl
  last := by
    by_cases hne : us = []
    · rw [hne, List.append_nil]
      exact h.last
    · rw [List.getLast?_append_of_ne_nil _ hne]
      exact hus.last

mutual

theorem settled_of_derives {ws : List String} {v : Value} (h : Derives ws v) : Settled ws := by
  match h with
  | @Derives.atom w _ mark _ =>
    have hne : (w ≠ "(" ∧ w ≠ ")") ∧ w ≠ "'" := by simpa [isMark] using mark
    exact ⟨.single hne.1.2, balance_atom mark, by simpa using hne.2⟩
  | @Derives.list ws _ items =>
    have hitems := settled_of_derivesAll items
    have hpos : 0 < balance ("(" :: ws) := by
      rw [balance_cons, balance_open, hitems.balanced]
      decide
    have hlast : ("(" :: ws).getLast? ≠ some "'" := by
      rw [List.getLast?_cons]
      cases hl : ws.getLast? with
      | none => decide
      | some w => simpa [hl] using hitems.last
    have hopened : Sheltered ("(" :: ws) := (Sheltered.single (by decide)).append hitems.sheltered
    refine ⟨hopened.close hpos hlast, ?_, ?_⟩
    · rw [balance_cons, balance_append, hitems.balanced]
      decide
    · rw [← List.cons_append, List.getLast?_concat]
      decide
  | @Derives.quote ws _ quoted =>
    have hquoted := settled_of_derives quoted
    refine ⟨(Sheltered.single (by decide)).append hquoted.sheltered, ?_, ?_⟩
    · rw [balance_cons, hquoted.balanced]
      decide
    · rw [List.getLast?_cons_of_ne_nil quoted.ne_nil]
      exact hquoted.last

theorem settled_of_derivesAll {ws : List String} {vs : List Value} (h : DerivesAll ws vs) :
    Settled ws := by
  match h with
  | .nil => exact ⟨.nil, rfl, by simp⟩
  | .cons first others => exact (settled_of_derives first).append (settled_of_derivesAll others)

end

namespace Opened

variable {room : Nat} {ts : List Token} {opens : List Open}

theorem nil_of_no_opens (h : Opened room ts []) : ts = [] := by
  cases h
  rfl

theorem sheltered (h : Opened room ts opens) : Sheltered (ts.map Token.text) := by
  induction h with
  | nil => exact .nil
  | list _ hstart hitems _ ih =>
    rw [List.map_append, List.map_cons, hstart]
    have hopened : Sheltered ("(" :: _) :=
      (Sheltered.single (by decide)).append (settled_of_derivesAll hitems).sheltered
    exact ih.append hopened
  | quote _ hmark _ ih =>
    rw [List.map_append, List.map_singleton, hmark]
    exact ih.append (.single (by decide))

theorem getLast?_quote {mark : Token} {outer : List Open}
    (h : Opened room ts (.quote mark :: outer)) : ts.getLast? = some mark ∧ mark.text = "'" := by
  cases h with
  | quote _ hmark _ => exact ⟨List.getLast?_concat, hmark⟩

theorem closesNothing (h : Opened room ts opens) (hopens : NoListOpen opens) :
    ClosesNothing (ts.map Token.text) := by
  rcases opens with _ | ⟨_ | mark, outer⟩
  · rw [h.nil_of_no_opens]
    exact .inl rfl
  · exact hopens.elim
  · obtain ⟨hlast, hmark⟩ := h.getLast?_quote
    exact .inr (by rw [List.getLast?_map, hlast, ← hmark]; rfl)

theorem length_le_tokens (h : Opened room ts opens) : opens.length ≤ ts.length := by
  induction h with
  | nil => exact Nat.le_refl 0
  | list _ _ _ _ ih =>
    simp only [List.length_cons, List.length_append]
    omega
  | quote _ _ _ ih =>
    simp only [List.length_cons, List.length_append, List.length_nil]
    omega

end Opened

end PocketLisp.Reader
