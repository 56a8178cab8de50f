import PocketLisp.Proofs.Session.Closure

/-!
What becomes of the chunks of a text. A chunk is dealt with if its values are printed or its fault is
reported, and then the next one is run. The only chunks that stop a run are those in which a literal
or a value has too many digits, or a value is nested too deeply to be printed: these are no faults,
and nothing is reported.
-/
namespace PocketLisp.Session

open Reader

/-- A session that can come about: with a new interpreter, after a call of it, or after a text has
been run. -/
inductive Reachable : Session → Prop
  | opened (maxDepth : Option Int) (host : Host) : Reachable (opened maxDepth host)
  | call {s : Session} (h : Reachable s) (call : Call) : Reachable (call.perform s).2
  | text {s : Session} (h : Reachable s) (code : String) : Reachable (runText code s).2

def listed (texts : List String) (s : Session) : Session :=
  texts.foldl (fun s text => s.output (text ++ "\n")) s

def reported (chunk : String) (f : Fault) (s : Session) : Session :=
  { s with
    host := (s.host.record (.chunkFailed chunk)).write (.err ("Error: " ++ f.message ++ "\n")) }

inductive Fate where
  | printed (texts : List String)
  | reported (f : Fault)

namespace Fate

def isPrinted : Fate → Bool
  | .printed _ => true
  | .reported _ => false

def isReported (fate : Fate) : Bool := !fate.isPrinted

def outText : Fate → String
  | .printed texts => listing "" texts
  | .reported _ => ""

def errText : Fate → String
  | .printed _ => ""
  | .reported f => "Error: " ++ f.message ++ "\n"

end Fate

/-- A chunk is evaluated in a session, and all its values are printed, or its fault is reported. -/
inductive Deals (chunk : String) (s : Session) : Fate → Session → Prop
  | printed {vs : List Value} {texts : List String} {t : Session}
      (h : evaluateAll chunk s = (.ok vs, t)) (hprinted : Printed t.host.frames vs texts) :
      Deals chunk s (.printed texts) (t.listed texts)
  | reported {f : Fault} {t : Session} (h : evaluateAll chunk s = (.error (.fault f), t)) :
      Deals chunk s (.reported f) (t.reported chunk f)

inductive DealsAll : List String → Session → List Fate → Session → Prop
  | nil {s : Session} : DealsAll [] s [] s
  | cons {chunk : String} {chunks : List String} {s t u : Session} {fate : Fate}
      {fates : List Fate} (h : Deals chunk s fate t) (hs : DealsAll chunks t fates u) :
      DealsAll (chunk :: chunks) s (fate :: fates) u

/-- A chunk stops the run: a literal in it cannot be read; an integer cannot be written in the course
of its evaluation; or, after values that are printed, there is one with such an integer in it, or
one that is nested deeper than there are host frames. -/
inductive Stops (chunk : String) (s : Session) : Escape → Session → Prop
  | literal {digits : Nat} {t : Session}
      (h : evaluateAll chunk s = (.error (.escape (.readLimit digits)), t))
      (hlong : LongLiteral chunk digits) : Stops chunk s (.readLimit digits) t
  | strained {t : Session} (h : evaluateAll chunk s = (.error (.escape .printLimit), t))
      (hstrained : Strained (.all chunk) s) : Stops chunk s .printLimit t
  | long {vs ws : List Value} {v : Value} {texts : List String} {t : Session}
      (h : evaluateAll chunk s = (.ok (vs ++ v :: ws), t))
      (hprinted : Printed t.host.frames vs texts) (hv : v.HoldsLong) :
      Stops chunk s .printLimit (t.listed texts)
  | deep {vs ws : List Value} {v : Value} {texts : List String} {t : Session}
      (h : evaluateAll chunk s = (.ok (vs ++ v :: ws), t))
      (hprinted : Printed t.host.frames vs texts) (hv : t.host.frames < v.nesting) :
      Stops chunk s .exhausted (t.listed texts)

/-! Printing goes on up to the first value that cannot be printed. -/

theorem interpreter_listed (texts : List String) (s : Session) :
    (s.listed texts).interpreter = s.interpreter := by
  induction texts generalizing s with
  | nil => rfl
  | cons text texts ih => exact ih _

theorem written_listed (texts : List String) (s : Session) :
    (s.listed texts).written = (s.written.1 ++ listing "" texts, s.written.2) := by
  induction texts generalizing s with
  | nil => simp [listed, listing]
  | cons text texts ih =>
    have hrest : (s.listed (text :: texts)).written =
        ((s.output (text ++ "\n")).listed texts).written :=
      rfl
    rw [hrest, ih, written_output]
    simp [listing, String.join_cons, String.append_assoc]

theorem written_reported (chunk : String) (f : Fault) (s : Session) :
    (s.reported chunk f).written =
      (s.written.1, s.written.2 ++ ("Error: " ++ f.message ++ "\n")) := by
  simp [reported, written, Host.write, Host.record, Journal.outText, Journal.errText, Entry.outText,
    String.join_append, String.join_cons]

theorem written_evaluateAll (code : String) (s : Session) :
    (evaluateAll code s).2.written = s.written := by
  by_cases hread : ∃ es, parseAll s.host.frames code = .ok es
  · obtain ⟨es, hes⟩ := hread
    rw [evaluateAll_of_parseAll hes]
    exact runAll_keeps (P := fun t => t.written = s.written)
      (fun e _ t ht => (written_run e t).trans ht) rfl
  · rw [evaluateAll_unread fun es hes => hread ⟨es, hes⟩]

theorem printAll_cons_ok {v : Value} {text : String} {s : Session}
    (h : v.renderWithin s.host.frames = .ok text) (vs : List Value) :
    printAll "" (v :: vs) s = printAll "" vs (s.output (text ++ "\n")) := by
  have hprinted : printed v s = (.ok text, s) := by
    rw [printed, h]
  rw [printAll, Run.bind_ok hprinted, String.empty_append]
  rfl

theorem printAll_cases (vs : List Value) (s : Session) :
    (∃ texts, Printed s.host.frames vs texts ∧ printAll "" vs s = (.ok (), s.listed texts)) ∨
    ∃ before v later texts x, vs = before ++ v :: later ∧ Printed s.host.frames before texts ∧
      v.renderWithin s.host.frames = .error x ∧
      printAll "" vs s = (.error (.escape x), s.listed texts) := by
  induction vs generalizing s with
  | nil => exact .inl ⟨[], .nil, rfl⟩
  | cons v vs ih =>
    cases hv : v.renderWithin s.host.frames with
    | error x =>
      refine .inr ⟨[], v, vs, [], x, rfl, .nil, hv, ?_⟩
      have hprinted : printed v s = (.error (.escape x), s) := by
        rw [printed, hv]
      rw [printAll, Run.bind_error hprinted]
      rfl
    | ok text =>
      rw [printAll_cons_ok hv]
      rcases ih (s.output (text ++ "\n")) with
        ⟨texts, hprinted, hall⟩ | ⟨before, w, later, texts, x, rfl, hprinted, hw, hall⟩
      · exact .inl ⟨text :: texts, .cons hv hprinted, hall⟩
      · exact .inr ⟨v :: before, w, later, text :: texts, x, rfl, .cons hv hprinted, hw, hall⟩

/-- What cannot be printed has a long integer in it or is nested too deeply. -/
theorem of_renderWithin_error {v : Value} (hv : v.isProper = true) {frames : Nat} {x : Escape}
    (h : v.renderWithin frames = .error x) :
    (x = .printLimit ∧ v.HoldsLong) ∨ (x = .exhausted ∧ frames < v.nesting) := by
  rw [Value.renderWithin_of_isProper hv] at h
  rcases Value.writeWithin_cases Style.plain_printed hv frames with
    hexhausted | ⟨-, text, htext⟩ | ⟨hlong, herror⟩
  · cases h.symm.trans hexhausted
    refine .inr ⟨rfl, Nat.lt_of_not_le fun hle => ?_⟩
    rw [Value.writeWithin_of_nesting_le _ hle] at h
    exact Value.write_ne_exhausted Style.plain_printed v h
  · cases h.symm.trans htext
  · cases h.symm.trans herror
    exact .inl ⟨rfl, Value.holdsLong_iff.mpr hlong⟩

/-! One chunk, then all of them. -/

theorem runChunk_cases {s : Session} (hs : s.interpreter.env.Sound) (chunk : String) :
    (∃ fate t, Deals chunk s fate t ∧ runChunk chunk s = (.ok fate.isPrinted, t)) ∨
    ∃ x t, Stops chunk s x t ∧ runChunk chunk s = (.error (.escape x), t) := by
  have hclosed := closed_evaluateAll hs chunk
  rcases hr : evaluateAll chunk s with ⟨r, t⟩
  rw [hr] at hclosed
  cases hclosed with
  | @fault f _ =>
    have htry : tryAll chunk s = (.ok (.error f), t) := by
      rw [tryAll, hr]
    refine .inl ⟨.reported f, _, .reported hr, ?_⟩
    rw [runChunk, Run.bind_ok htry]
    rfl
  | @unreadable digits hlong =>
    have htry : tryAll chunk s = (.error (.escape (.readLimit digits)), t) := by
      rw [tryAll, hr]
    exact .inr ⟨_, t, .literal hr hlong, Run.bind_error htry⟩
  | unwritable hstrained =>
    have htry : tryAll chunk s = (.error (.escape .printLimit), t) := by
      rw [tryAll, hr]
    exact .inr ⟨_, t, .strained hr hstrained, Run.bind_error htry⟩
  | @value vs hproper =>
    have htry : tryAll chunk s = (.ok (.ok vs), t) := by
      rw [tryAll, hr]
    have hrun : runChunk chunk s = (do printAll "" vs; pure true : Run Session Bool) t :=
      Run.bind_ok htry
    rw [hrun]
    rcases printAll_cases vs t with
      ⟨texts, hprinted, hall⟩ | ⟨before, v, later, texts, x, rfl, hprinted, hv, hall⟩
    · exact .inl ⟨.printed texts, _, .printed hr hprinted, Run.bind_ok hall⟩
    · refine .inr ⟨x, t.listed texts, ?_, Run.bind_error hall⟩
      rcases of_renderWithin_error (hproper v (by simp)) hv with ⟨rfl, hlong⟩ | ⟨rfl, hdeep⟩
      · exact .long hr hprinted hlong
      · exact .deep hr hprinted hdeep

theorem sound_evaluateAll {s t : Session} (hs : s.interpreter.env.Sound) {code : String}
    {r : Except Failure (List Value)} (h : evaluateAll code s = (r, t)) :
    t.interpreter.env.Sound := by
  have hperform := sound_perform hs (.all code)
  rw [Call.perform, discard_apply, h] at hperform
  exact hperform

theorem Deals.sound {chunk : String} {s t : Session} {fate : Fate} (h : Deals chunk s fate t)
    (hs : s.interpreter.env.Sound) : t.interpreter.env.Sound := by
  cases h with
  | printed h =>
    rw [interpreter_listed]
    exact sound_evaluateAll hs h
  | reported h =>
    have ht := sound_evaluateAll hs h
    exact ht

theorem Stops.sound {chunk : String} {s t : Session} {x : Escape} (h : Stops chunk s x t)
    (hs : s.interpreter.env.Sound) : t.interpreter.env.Sound := by
  cases h with
  | literal h => exact sound_evaluateAll hs h
  | strained h => exact sound_evaluateAll hs h
  | long h =>
    rw [interpreter_listed]
    exact sound_evaluateAll hs h
  | deep h =>
    rw [interpreter_listed]
    exact sound_evaluateAll hs h

theorem Deals.written {chunk : String} {s t : Session} {fate : Fate} (h : Deals chunk s fate t) :
    t.written = (s.written.1 ++ fate.outText, s.written.2 ++ fate.errText) := by
  have hkept := written_evaluateAll chunk s
  cases h with
  | printed h =>
    rw [h] at hkept
    rw [written_listed, hkept]
    simp [Fate.outText, Fate.errText]
  | reported h =>
    rw [h] at hkept
    rw [written_reported, hkept]
    simp [Fate.outText, Fate.errText]

theorem runChunks_cases (chunks : List String) {s : Session} (hs : s.interpreter.env.Sound) :
    (∃ fates t, DealsAll chunks s fates t ∧
      runChunks chunks s = (.ok (fates.countP Fate.isReported), t)) ∨
    ∃ before chunk later fates t x u, chunks = before ++ chunk :: later ∧
      DealsAll before s fates t ∧ Stops chunk t x u ∧
      runChunks chunks s = (.error (.escape x), u) := by
  induction chunks generalizing s with
  | nil => exact .inl ⟨[], s, .nil, rfl⟩
  | cons chunk chunks ih =>
    rcases runChunk_cases hs chunk with ⟨fate, t, hdeals, hrun⟩ | ⟨x, t, hstops, hrun⟩
    · rcases ih (hdeals.sound hs) with
        ⟨fates, u, hall, hruns⟩ | ⟨before, c, later, fates, u, x, w, rfl, hall, hstops, hruns⟩
      · refine .inl ⟨fate :: fates, u, .cons hdeals hall, ?_⟩
        rw [runChunks, Run.bind_ok hrun, Run.bind_ok hruns]
        cases fate <;> simp [Fate.isPrinted, Fate.isReported]
      · refine .inr ⟨chunk :: before, c, later, fate :: fates, u, x, w, rfl, .cons hdeals hall,
          hstops, ?_⟩
        rw [runChunks, Run.bind_ok hrun, Run.bind_error hruns]
    · refine .inr ⟨[], chunk, chunks, [], s, x, t, rfl, .nil, hstops, ?_⟩
      rw [runChunks, Run.bind_error hrun]

theorem DealsAll.sound {chunks : List String} {s t : Session} {fates : List Fate}
    (h : DealsAll chunks s fates t) (hs : s.interpreter.env.Sound) : t.interpreter.env.Sound := by
  induction h with
  | nil => exact hs
  | cons h _ ih => exact ih (h.sound hs)

theorem DealsAll.written {chunks : List String} {s t : Session} {fates : List Fate}
    (h : DealsAll chunks s fates t) :
    t.written = (s.written.1 ++ String.join (fates.map Fate.outText),
      s.written.2 ++ String.join (fates.map Fate.errText)) := by
  induction h with
  | nil => simp
  | cons h _ ih =>
    rw [ih, h.written]
    simp [String.join_cons, String.append_assoc]

theorem Reachable.sound {s : Session} (h : Reachable s) : s.interpreter.env.Sound := by
  induction h with
  | opened maxDepth host => exact sound_opened maxDepth host
  | call _ call ih => exact sound_perform ih call
  | text _ code ih =>
    rcases runChunks_cases (Chunk.ofText code) ih with
      ⟨fates, t, hall, hruns⟩ | ⟨before, chunk, later, fates, t, x, u, -, hall, hstops, hruns⟩
    · rw [runText, hruns]
      exact hall.sound ih
    · rw [runText, hruns]
      exact hstops.sound (hall.sound ih)

end PocketLisp.Session
