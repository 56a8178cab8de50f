import Mathlib.Data.List.DropRight
import PocketLisp.Session.Shell

/-!
The shell against the cutting of lines into chunks. What one line does to a shell is what it does to
the chunk that is open (`feed_cases`), so in every run of lines the shell evaluates the chunks that
are closed, and what is pending is the one that is not. Whether an evaluation fails makes no
difference to this.
-/
namespace PocketLisp

namespace Text

theorem stripChars_eq_nil_iff {cs : List Char} : stripChars cs = [] ↔ ∀ c ∈ cs, isBlank c = true :=
  calc
    stripChars cs = [] ↔ ∀ c ∈ cs.dropWhile isBlank, isBlank c = true := List.rdropWhile_eq_nil_iff
    _ ↔ (cs.dropWhile isBlank).dropWhile isBlank = [] := List.dropWhile_eq_nil_iff.symm
    _ ↔ ∀ c ∈ cs, isBlank c = true := by
      rw [List.dropWhile_idempotent, List.dropWhile_eq_nil_iff]

theorem isEmpty_strip (s : String) : (strip s).isEmpty = isBlankText s := by
  rw [Bool.eq_iff_iff, String.isEmpty_iff, strip, String.ofList_eq_empty_iff, stripChars_eq_nil_iff,
    isBlankText, List.all_eq_true]

theorem isBlankText_newline (s : String) : isBlankText (s ++ "\n") = isBlankText s := by
  simp [isBlankText, isBlank_newline]

end Text

namespace Chunk

/-- The chunk that is open after lines: the last one, if its parentheses do not balance. It is empty
if none is open. -/
def openAfter (lines : List String) : String :=
  ((cut lines).getLast?.filter fun chunk => 0 < parenBalance chunk).getD ""

def closed (lines : List String) : List String :=
  (cut lines).filter fun chunk => parenBalance chunk ≤ 0

end Chunk

namespace Shell

/-- Evaluate a text and print its values, or its fault. -/
def answer (text : String) : Run Session Unit := do
  match ← Session.tryAll text with
  | .ok vs => Session.printAll "=> " vs
  | .error f => Session.onHost (·.write (.out ("Error: " ++ f.message ++ "\n")))

def answers (texts : List String) (s : Session) : Session :=
  texts.foldl (fun s text => (answer text s).2) s

def handed? (s : Shell) (line : String) : Option String :=
  match reaction s.pending line with
  | .evaluate text => some text
  | _ => none

/-- The shell after lines, fed one by one. A line that fails does not end it. -/
def after (s : Shell) : List String → Shell
  | [] => s
  | line :: lines => after (feed line s).2 lines

def handed (s : Shell) : List String → List String
  | [] => []
  | line :: lines => (handed? s line).toList ++ handed (feed line s).2 lines

/-- A line that does not ask the shell to stop: it is not the end of input, and no word to leave
while nothing is pending. -/
def Stays (s : Shell) (line : String) : Prop :=
  Text.strip line ≠ endLine ∧
    (s.pending = "" → Text.strip line ≠ "exit" ∧ Text.strip line ≠ "quit")

def StaysAll (s : Shell) : List String → Prop
  | [] => True
  | line :: lines => Stays s line ∧ StaysAll (feed line s).2 lines

instance (s : Shell) (line : String) : Decidable (Stays s line) :=
  inferInstanceAs (Decidable (_ ∧ (_ → _)))

instance decidableStaysAll : (s : Shell) → (lines : List String) → Decidable (StaysAll s lines)
  | _, [] => .isTrue trivial
  | s, line :: lines =>
    have := decidableStaysAll (feed line s).2 lines
    inferInstanceAs (Decidable (_ ∧ _))

/-! One line. -/

theorem inSession_apply {α : Type} {x : Run Session α} {s : Shell} {r : Except Failure α}
    {t : Session} (h : x s.session = (r, t)) : inSession x s = (r, { s with session := t }) := by
  rw [inSession, h]

/-- Evaluation leaves nothing pending, whatever comes of it. -/
theorem perform_evaluate (text : String) (s : Shell) :
    perform (.evaluate text) s = ((answer text s.session).1.map fun _ => false,
      ⟨(answer text s.session).2, "", .primary⟩) := by
  let cleared : Shell := ⟨s.session, "", .primary⟩
  rcases htry : Session.tryAll text s.session with ⟨err | f | vs, t⟩
  · have hanswer : answer text s.session = (.error err, t) := Run.bind_error htry
    have hshell : inSession (Session.tryAll text) cleared = _ := inSession_apply htry
    rw [hanswer]
    exact (Run.bind_ok rfl).trans (Run.bind_error hshell)
  · have hanswer : answer text s.session =
        Session.onHost (·.write (.out ("Error: " ++ f.message ++ "\n"))) t := Run.bind_ok htry
    have hshell : inSession (Session.tryAll text) cleared = _ := inSession_apply htry
    rw [hanswer]
    exact (Run.bind_ok rfl).trans (Run.bind_ok hshell)
  · have hanswer : answer text s.session = Session.printAll "=> " vs t := Run.bind_ok htry
    have hshell : inSession (Session.tryAll text) cleared = _ := inSession_apply htry
    rw [hanswer]
    refine (Run.bind_ok rfl).trans ((Run.bind_ok hshell).trans ?_)
    rcases hall : Session.printAll "=> " vs t with ⟨err | u, t'⟩
    · exact Run.bind_error (inSession_apply hall)
    · exact Run.bind_ok (inSession_apply hall)

theorem reaction_of_stays {s : Shell} {line : String} (h : Stays s line) :
    reaction s.pending line =
      if (s.pending.isEmpty && Text.isBlankText line) = true then .ignore
      else if 0 < parenBalance (s.pending ++ line ++ "\n") then .wait (s.pending ++ line ++ "\n")
      else .evaluate (s.pending ++ line ++ "\n") := by
  have hword : ¬(s.pending.isEmpty &&
      (Text.strip line == "exit" || Text.strip line == "quit")) = true := by
    simp only [Bool.and_eq_true, String.isEmpty_iff, Bool.or_eq_true, beq_iff_eq]
    rintro ⟨hempty, hexit | hquit⟩
    · exact (h.2 hempty).1 hexit
    · exact (h.2 hempty).2 hquit
  have hend : ¬(Text.strip line == endLine) = true := by simpa using h.1
  unfold reaction
  dsimp only
  rw [if_neg hword, if_neg hend, Text.isEmpty_strip]

/-- All that a line can do that does not ask to stop: it is passed over, it goes to the text that is
pending, or that text is evaluated with it. -/
theorem feed_cases {s : Shell} {line : String} (h : Stays s line) :
    ((s.pending.isEmpty && Text.isBlankText line) = true ∧
      handed? s line = none ∧ feed line s = (.ok false, s)) ∨
    (s.pending.isEmpty && Text.isBlankText line) = false ∧
      let text := s.pending ++ line ++ "\n"
      (0 < parenBalance text ∧ handed? s line = none ∧
        feed line s = (.ok false, ⟨s.session, text, .continuation⟩)) ∨
      (parenBalance text ≤ 0 ∧ handed? s line = some text ∧
        feed line s = ((answer text s.session).1.map fun _ => false,
          ⟨(answer text s.session).2, "", .primary⟩)) := by
  have hreaction := reaction_of_stays h
  have hfeed : feed line s = perform (reaction s.pending line) s := rfl
  rw [handed?, hfeed, hreaction]
  by_cases hskip : (s.pending.isEmpty && Text.isBlankText line) = true
  · rw [if_pos hskip]
    exact .inl ⟨hskip, rfl, rfl⟩
  rw [if_neg hskip]
  refine .inr ⟨Bool.eq_false_iff.mpr hskip, ?_⟩
  by_cases hopen : 0 < parenBalance (s.pending ++ line ++ "\n")
  · rw [if_pos hopen]
    exact .inl ⟨hopen, rfl, rfl⟩
  · rw [if_neg hopen]
    exact .inr ⟨Int.not_lt.mp hopen, rfl, perform_evaluate _ s⟩

theorem printAll_returns (lead : String) (vs : List Value) (s : Session) :
    (Session.printAll lead vs s).1 = .ok () ∨
      ∃ x, (Session.printAll lead vs s).1 = .error (.escape x) := by
  induction vs generalizing s with
  | nil => exact .inl rfl
  | cons v vs ih =>
    cases hv : v.renderWithin s.host.frames with
    | ok text =>
      have hprinted : Session.printed v s = (.ok text, s) := by
        rw [Session.printed, hv]
      rw [Session.printAll, Run.bind_ok hprinted]
      exact ih _
    | error x =>
      have hprinted : Session.printed v s = (.error (.escape x), s) := by
        rw [Session.printed, hv]
      rw [Session.printAll, Run.bind_error hprinted]
      exact .inr ⟨x, rfl⟩

theorem answer_returns (text : String) (s : Session) :
    (answer text s).1 = .ok () ∨ ∃ x, (answer text s).1 = .error (.escape x) := by
  rcases hall : Session.evaluateAll text s with ⟨(f | x) | vs, t⟩
  · have htry : Session.tryAll text s = (.ok (.error f), t) := by
      rw [Session.tryAll, hall]
    rw [answer, Run.bind_ok htry]
    exact .inl rfl
  · have htry : Session.tryAll text s = (.error (.escape x), t) := by
      rw [Session.tryAll, hall]
    rw [answer, Run.bind_error htry]
    exact .inr ⟨x, rfl⟩
  · have htry : Session.tryAll text s = (.ok (.ok vs), t) := by
      rw [Session.tryAll, hall]
    rw [answer, Run.bind_ok htry]
    exact printAll_returns "=> " vs t

theorem feed_goes_on {s : Shell} {line : String} (h : Stays s line) :
    (feed line s).1 = .ok false ∨ ∃ x, (feed line s).1 = .error (.escape x) := by
  rcases feed_cases h with ⟨-, -, hfeed⟩ | ⟨-, ⟨-, -, hfeed⟩ | ⟨-, -, hfeed⟩⟩
  · exact .inl (by rw [hfeed])
  · exact .inl (by rw [hfeed])
  · rw [hfeed]
    rcases answer_returns (s.pending ++ line ++ "\n") s.session with hanswer | ⟨x, hanswer⟩
    · exact .inl (by rw [hanswer]; rfl)
    · exact .inr ⟨x, by rw [hanswer]; rfl⟩

/-- The prompt asks for the rest of an expression exactly if something is pending, and that is so
exactly if parentheses are open. -/
structure Consistent (s : Shell) : Prop where
  prompt : s.prompt = .continuation ↔ s.pending ≠ ""
  pending : s.pending ≠ "" ↔ 0 < parenBalance s.pending

theorem consistent_of_empty (session : Session) : Consistent ⟨session, "", .primary⟩ := by
  have hbalance : parenBalance "" = 0 := rfl
  exact ⟨by simp, by simp [hbalance]⟩

theorem Consistent.feed {s : Shell} (hs : Consistent s) {line : String} (h : Stays s line) :
    Consistent (feed line s).2 := by
  rcases feed_cases h with ⟨-, -, hfeed⟩ | ⟨-, ⟨hopen, -, hfeed⟩ | ⟨-, -, hfeed⟩⟩
  · rw [hfeed]
    exact hs
  · rw [hfeed]
    exact ⟨by simp, by simp [hopen]⟩
  · rw [hfeed]
    exact consistent_of_empty _

/-! Lines, one after the other. -/

theorem StaysAll.append {s : Shell} {before later : List String}
    (h : StaysAll s (before ++ later)) : StaysAll s before ∧ StaysAll (after s before) later := by
  induction before generalizing s with
  | nil => exact ⟨trivial, h⟩
  | cons line before ih => exact ⟨⟨h.1, (ih h.2).1⟩, (ih h.2).2⟩

theorem Consistent.after {s : Shell} (hs : Consistent s) {lines : List String}
    (h : StaysAll s lines) : Consistent (after s lines) := by
  induction lines generalizing s with
  | nil => exact hs
  | cons line lines ih => exact ih (hs.feed h.1) h.2

theorem consistent_after {session : Session} {lines : List String}
    (h : StaysAll (start session) lines) : Consistent (after (start session) lines) :=
  .after (consistent_of_empty session) h

theorem closed_of_mem_handed {s : Shell} {lines : List String} (h : StaysAll s lines) :
    ∀ text ∈ handed s lines, parenBalance text ≤ 0 := by
  induction lines generalizing s with
  | nil => simp [handed]
  | cons line lines ih =>
    have hrest := ih h.2
    rw [handed]
    rcases feed_cases h.1 with ⟨-, hnone, -⟩ | ⟨-, ⟨-, hnone, -⟩ | ⟨hclosed, hsome, -⟩⟩
    · rwa [hnone]
    · rwa [hnone]
    · rw [hsome]
      simpa [hclosed] using hrest

/-- The session is the one that comes of the texts evaluated, and of nothing else. -/
theorem session_after {s : Shell} {lines : List String} (h : StaysAll s lines) :
    (after s lines).session = answers (handed s lines) s.session := by
  induction lines generalizing s with
  | nil => rfl
  | cons line lines ih =>
    rw [after, handed, ih h.2]
    rcases feed_cases h.1 with ⟨-, hnone, hfeed⟩ | ⟨-, ⟨-, hnone, hfeed⟩ | ⟨-, hsome, hfeed⟩⟩
    · rw [hnone, hfeed]
      rfl
    · rw [hnone, hfeed]
      rfl
    · rw [hsome, hfeed]
      rfl

/-- Lines as they are cut into chunks: each with a newline. -/
def ended (lines : List String) : List String := lines.map (· ++ "\n")

/-- The shell and the cutting of lines go in step. -/
theorem cutFrom_ended {s : Shell} {lines : List String} (h : StaysAll s lines) :
    Chunk.cutFrom s.pending (ended lines) =
      handed s lines ++ Chunk.cutFrom (after s lines).pending [] := by
  induction lines generalizing s with
  | nil => rfl
  | cons line lines ih =>
    have hrest := ih h.2
    have hline : Chunk.cutFrom s.pending (ended (line :: lines)) =
        if (s.pending.isEmpty && Text.isBlankText line) = true then Chunk.cutFrom "" (ended lines)
        else if parenBalance (s.pending ++ line ++ "\n") ≤ 0 then
          (s.pending ++ line ++ "\n") :: Chunk.cutFrom "" (ended lines)
        else Chunk.cutFrom (s.pending ++ line ++ "\n") (ended lines) := by
      rw [ended, List.map_cons, Chunk.cutFrom, Text.isBlankText_newline, ← String.append_assoc]
      rfl
    rw [hline, handed, after]
    rcases feed_cases h.1 with
      ⟨hskip, hnone, hfeed⟩ | ⟨hskip, ⟨hopen, hnone, hfeed⟩ | ⟨hclosed, hsome, hfeed⟩⟩
    · have hempty : s.pending = "" := by
        rw [Bool.and_eq_true, String.isEmpty_iff] at hskip
        exact hskip.1
      rw [hfeed] at hrest
      rw [if_pos hskip, hnone, hfeed, ← hempty, hrest]
      rfl
    · rw [hfeed] at hrest
      rw [if_neg (by simp [hskip]), if_neg (Int.not_le.mpr hopen), hnone, hfeed, hrest]
      rfl
    · rw [hfeed] at hrest
      rw [if_neg (by simp [hskip]), if_pos hclosed, hsome, hfeed, hrest]
      rfl

theorem closed_ended {session : Session} {lines : List String}
    (h : StaysAll (start session) lines) :
    Chunk.closed (ended lines) = handed (start session) lines := by
  have hcut : Chunk.cut (ended lines) = _ := cutFrom_ended h
  have hpending := (consistent_after h).pending
  have hhanded : (handed (start session) lines).filter (fun text => parenBalance text ≤ 0) =
      handed (start session) lines :=
    List.filter_eq_self.mpr (by simpa using closed_of_mem_handed h)
  rw [Chunk.closed, hcut, List.filter_append, hhanded, Chunk.cutFrom]
  split
  · exact List.append_nil _
  · rename_i hne
    have hopen := hpending.mp fun hempty => hne (String.isEmpty_iff.mpr hempty)
    simp [hopen]

theorem openAfter_ended {session : Session} {lines : List String}
    (h : StaysAll (start session) lines) :
    Chunk.openAfter (ended lines) = (after (start session) lines).pending := by
  have hcut : Chunk.cut (ended lines) = _ := cutFrom_ended h
  have hpending := (consistent_after h).pending
  rw [Chunk.openAfter, hcut, Chunk.cutFrom]
  by_cases hempty : (after (start session) lines).pending = ""
  · -- the last chunk is one of those evaluated, if there is any
    have hnone : (handed (start session) lines).getLast?.filter (fun text => 0 < parenBalance text) =
        none := by
      rw [Option.filter_eq_none_iff]
      intro text htext
      have hclosed := closed_of_mem_handed h text (List.mem_of_getLast? htext)
      simpa using hclosed
    rw [if_pos (String.isEmpty_iff.mpr hempty), List.append_nil, hnone, hempty]
    rfl
  · rw [if_neg (fun he => hempty (String.isEmpty_iff.mp he)), List.getLast?_concat,
      Option.filter_some_pos (by simpa using hpending.mp hempty)]
    rfl

/-- The shell cuts its input as lines are cut into chunks. As long as no line asks a new shell to
stop, none makes it stop. The texts it evaluates are the chunks that are closed, in order, and
nothing else happens to the session. After every line, whatever came of it, the chunk that is open is
pending, and the prompt is that for the rest of an expression exactly if there is one. -/
theorem feeding_cuts_as_chunks (session : Session) (lines : List String)
    (h : StaysAll (start session) lines) :
    (∀ before line later, lines = before ++ line :: later →
      (feed line (after (start session) before)).1 = .ok false ∨
        ∃ x, (feed line (after (start session) before)).1 = .error (.escape x)) ∧
    handed (start session) lines = Chunk.closed (ended lines) ∧
    (after (start session) lines).session = answers (Chunk.closed (ended lines)) session ∧
    ∀ before, before <+: lines →
      let s := after (start session) before
      s.pending = Chunk.openAfter (ended before) ∧
      (s.prompt = .continuation ↔ s.pending ≠ "") ∧
      (s.pending ≠ "" ↔ 0 < parenBalance s.pending) := by
  refine ⟨?_, (closed_ended h).symm, ?_, ?_⟩
  · rintro before line later rfl
    exact feed_goes_on h.append.2.1
  · rw [session_after h, closed_ended h]
    rfl
  · rintro before ⟨later, rfl⟩
    have hbefore := h.append.1
    have hconsistent := consistent_after hbefore
    exact ⟨(openAfter_ended hbefore).symm, hconsistent.prompt, hconsistent.pending⟩

/-- Blank lines in and out of an expression, a word to leave inside of one, two expressions on a
line, a parenthesis too many, and an expression that is not closed. -/
def mixedLines : List String := ["", "(list 'exit", "", "exit", ") x", ")", " ", "(+ 1", "quit"]

theorem feeding_cuts_as_chunks_mixedLines :
    let s := start (.start [] none .quiet)
    StaysAll s mixedLines ∧
      handed s mixedLines = ["(list 'exit\n\nexit\n) x\n", ")\n"] ∧
      (after s mixedLines).pending = "(+ 1\nquit\n" ∧
      (after s mixedLines).prompt = .continuation := by
  intro s
  have hstays : StaysAll s mixedLines := by decide +kernel
  have hclosed : Chunk.closed (ended mixedLines) = ["(list 'exit\n\nexit\n) x\n", ")\n"] := by
    decide +kernel
  have hopen : Chunk.openAfter (ended mixedLines) = "(+ 1\nquit\n" := by decide +kernel
  obtain ⟨-, hhanded, -, hafter⟩ := feeding_cuts_as_chunks _ mixedLines hstays
  obtain ⟨hpending, hprompt, -⟩ := hafter mixedLines (List.prefix_refl _)
  rw [hopen] at hpending
  exact ⟨hstays, hhanded.trans hclosed, hpending, hprompt.mpr (by rw [hpending]; decide)⟩

end Shell

end PocketLisp
