import PocketLisp.Proofs.Eval.Room
import PocketLisp.Proofs.Session.Chunk
import PocketLisp.Session.Script

/-!
Running a text chunk by chunk against evaluating it as a whole. Evaluation neither reads nor writes
either output, so the two go through the same states of the interpreter, and what is printed after
each chunk is all that tells them apart.
-/
namespace PocketLisp

theorem Run.of_bind_ok {σ α β : Type} {x : Run σ α} {f : α → Run σ β} {s s' : σ} {b : β}
    (h : (x >>= f) s = (.ok b, s')) : ∃ a t, x s = (.ok a, t) ∧ f a t = (.ok b, s') := by
  rcases hx : x s with ⟨_ | a, t⟩
  · rw [Run.bind_error hx] at h
    cases h
  · exact ⟨a, t, rfl, (Run.bind_ok hx).symm.trans h⟩

namespace Journal

theorem outText_cons (e : Entry) (j : Journal) : outText (e :: j) = outText j ++ e.outText := by
  simp [outText, String.join_append, String.join_cons]

theorem errText_cons_out (text : String) (j : Journal) : errText (.out text :: j) = errText j := by
  simp [errText, String.join_append, String.join_cons]

theorem errText_cons_event (e : Event) (j : Journal) : errText (.event e :: j) = errText j := by
  simp [errText, String.join_append, String.join_cons]

theorem records_cons (e : Entry) (j : Journal) :
    records (e :: j) = records j ++ e.record?.toList := by
  cases h : e.record? <;> simp [records, h]

/-- Events are no output. -/
theorem texts_append_events (log : List Event) (j : Journal) :
    outText (log.map .event ++ j) = outText j ∧ errText (log.map .event ++ j) = errText j := by
  induction log with
  | nil => exact ⟨rfl, rfl⟩
  | cons e log ih =>
    rw [List.map_cons, List.cons_append, outText_cons, errText_cons_event]
    exact ⟨by simpa [Entry.outText] using ih.1, ih.2⟩

theorem records_append (j k : Journal) : records (j ++ k) = records k ++ records j := by
  simp [records]

end Journal

namespace Session

def written (s : Session) : String × String := (s.host.journal.outText, s.host.journal.errText)

/-- Two sessions that differ by nothing but what is written. -/
structure Alike (s t : Session) : Prop where
  interpreter : t.interpreter = s.interpreter
  host : t.host = { s.host with journal := t.host.journal }
  records : t.host.journal.records = s.host.journal.records

namespace Alike

variable {s t u : Session}

theorem refl (s : Session) : Alike s s := ⟨rfl, rfl, rfl⟩

theorem trans (h : Alike s t) (h' : Alike t u) : Alike s u where
  interpreter := h'.interpreter.trans h.interpreter
  host := by
    rw [h'.host, h.host]
  records := h'.records.trans h.records

theorem frames (h : Alike s t) : t.host.frames = s.host.frames := by
  rw [h.host]

theorem listener (h : Alike s t) : t.host.listener = s.host.listener := by
  rw [h.host]

end Alike

/-- What comes of an expression in the global frame. -/
def outcome (e : Value) (s : Session) : Except Failure Value × EvalState :=
  PocketLisp.evaluate ⟨s.interpreter.maxDepth, s.host.listener⟩ s.host.frames 0 e
    ⟨s.interpreter.env, []⟩

theorem run_eq (e : Value) (s : Session) :
    run e s = (asFault .evaluatorExhausted (outcome e s).1,
      { host := { s.host with journal := (outcome e s).2.log.map .event ++ s.host.journal }
        interpreter := { s.interpreter with env := (outcome e s).2.env } }) := rfl

theorem frames_run (e : Value) (s : Session) : (run e s).2.host.frames = s.host.frames := rfl

theorem written_run (e : Value) (s : Session) : (run e s).2.written = s.written := by
  rw [run_eq]
  exact Prod.ext (Journal.texts_append_events _ _).1 (Journal.texts_append_events _ _).2

/-- What is written has no influence on evaluation. -/
theorem Alike.run {s t : Session} (h : Alike s t) (e : Value) :
    (run e t).1 = (run e s).1 ∧ Alike (run e s).2 (run e t).2 := by
  have hsame : outcome e t = outcome e s := by
    rw [outcome, outcome, h.frames, h.listener, h.interpreter]
  rw [run_eq, run_eq, hsame, h.interpreter]
  refine ⟨rfl, rfl, ?_, ?_⟩
  · rw [h.host]
  · simp only [Journal.records_append, h.records]

theorem runAll_cons_ok {e : Value} {es vs : List Value} {s s' : Session}
    (h : runAll (e :: es) s = (.ok vs, s')) :
    ∃ v ws t, run e s = (.ok v, t) ∧ runAll es t = (.ok ws, s') ∧ vs = v :: ws := by
  obtain ⟨v, t, hv, hrest⟩ := Run.of_bind_ok h
  obtain ⟨ws, t', hws, hend⟩ := Run.of_bind_ok hrest
  cases hend
  exact ⟨v, ws, t, hv, hws, rfl⟩

theorem runAll_cons_of {e v : Value} {es vs : List Value} {s t s' : Session}
    (hv : run e s = (.ok v, t)) (h : runAll es t = (.ok vs, s')) :
    runAll (e :: es) s = (.ok (v :: vs), s') := by
  rw [runAll, Run.bind_ok hv, Run.bind_ok h]
  rfl

/-- What evaluating each of the expressions keeps, evaluating all of them keeps, though it may fail on
the way. -/
theorem runAll_keeps {P : Session → Prop} {es : List Value}
    (h : ∀ e ∈ es, ∀ s, P s → P (run e s).2) {s : Session} (hs : P s) : P (runAll es s).2 := by
  induction es generalizing s with
  | nil => exact hs
  | cons e es ih =>
    have hfirst := h e List.mem_cons_self s hs
    have hrest := ih (fun e he => h e (List.mem_cons_of_mem _ he)) hfirst
    rcases hv : run e s with ⟨err | v, t⟩
    · rw [hv] at hfirst
      rw [runAll, Run.bind_error hv]
      exact hfirst
    · rw [hv] at hrest
      rw [runAll, Run.bind_ok hv]
      -- What is done with the other values leaves the session alone.
      rcases hvs : runAll es t with ⟨err | vs, u⟩
      · rw [hvs] at hrest
        rw [Run.bind_error hvs]
        exact hrest
      · rw [hvs] at hrest
        rw [Run.bind_ok hvs]
        exact hrest

theorem frames_runAll {es vs : List Value} {s s' : Session} (h : runAll es s = (.ok vs, s')) :
    s'.host.frames = s.host.frames := by
  induction es generalizing s vs with
  | nil =>
    cases h
    rfl
  | cons e es ih =>
    obtain ⟨v, ws, t, hv, hws, -⟩ := runAll_cons_ok h
    have hstep := frames_run e s
    rw [hv] at hstep
    exact (ih hws).trans hstep

theorem runAll_append_ok {es fs vs : List Value} {s s' : Session}
    (h : runAll (es ++ fs) s = (.ok vs, s')) :
    ∃ xs ys t, runAll es s = (.ok xs, t) ∧ runAll fs t = (.ok ys, s') ∧ vs = xs ++ ys := by
  induction es generalizing s vs with
  | nil => exact ⟨[], vs, s, rfl, h, rfl⟩
  | cons e es ih =>
    obtain ⟨v, ws, t, hv, hws, rfl⟩ := runAll_cons_ok h
    obtain ⟨xs, ys, t', hxs, hys, rfl⟩ := ih hws
    exact ⟨v :: xs, ys, t', runAll_cons_of hv hxs, hys, rfl⟩

theorem Alike.runAll {s t s' : Session} (h : Alike s t) {es vs : List Value}
    (hr : runAll es s = (.ok vs, s')) :
    ∃ t', runAll es t = (.ok vs, t') ∧ Alike s' t' ∧ t'.written = t.written := by
  induction es generalizing s t vs with
  | nil =>
    cases hr
    exact ⟨t, rfl, h, rfl⟩
  | cons e es ih =>
    obtain ⟨v, ws, u, hv, hws, rfl⟩ := runAll_cons_ok hr
    obtain ⟨hvalue, halike⟩ := h.run e
    rw [hv] at hvalue halike
    obtain ⟨t', ht', halike', hwritten⟩ := ih halike hws
    have hstep : Session.run e t = (.ok v, (Session.run e t).2) := Prod.ext hvalue rfl
    refine ⟨t', runAll_cons_of hstep ht', halike', ?_⟩
    rw [hwritten, written_run]

/-- The texts of values, in order, as the frames of the host allow to print them. -/
def Printed (frames : Nat) (vs : List Value) (texts : List String) : Prop :=
  List.Forall₂ (fun v text => v.renderWithin frames = .ok text) vs texts

theorem Printed.render {frames : Nat} {vs : List Value} {texts : List String}
    (h : Printed frames vs texts) : List.Forall₂ (fun v text => v.render = .ok text) vs texts := by
  refine h.imp fun v text hv => ?_
  have hne : v.renderWithin frames ≠ .error .exhausted := by simp [hv]
  have hmore := v.settling_renderWithin.steady (Nat.le_max_left frames v.nesting) hne
  rwa [Value.renderWithin_of_nesting_le (Nat.le_max_right _ _), hv] at hmore

/-- Texts, each on a line of its own after a lead. -/
def listing (lead : String) (texts : List String) : String :=
  String.join (texts.map (lead ++ · ++ "\n"))

theorem listing_append (lead : String) (texts more : List String) :
    listing lead (texts ++ more) = listing lead texts ++ listing lead more := by
  simp [listing, String.join_append]

def output (text : String) (s : Session) : Session := { s with host := s.host.write (.out text) }

theorem alike_output (text : String) (s : Session) : Alike s (s.output text) where
  interpreter := rfl
  host := rfl
  records := by
    rw [output, Host.write, Journal.records_cons]
    exact List.append_nil _

theorem written_output (text : String) (s : Session) :
    (s.output text).written = (s.written.1 ++ text, s.written.2) :=
  Prod.ext (Journal.outText_cons _ _) (Journal.errText_cons_out _ _)

theorem printAll_printed {frames : Nat} {vs : List Value} {texts : List String}
    (h : Printed frames vs texts) (lead : String) {s : Session} (hs : s.host.frames = frames) :
    ∃ t, printAll lead vs s = (.ok (), t) ∧ Alike s t ∧
      t.written = (s.written.1 ++ listing lead texts, s.written.2) := by
  induction h generalizing s with
  | nil => exact ⟨s, rfl, .refl s, by simp [listing]⟩
  | @cons v text vs texts hv _ ih =>
    have hprinted : printed v s = (.ok text, s) := by
      rw [printed, hs, hv]
    obtain ⟨t, ht, halike, hwritten⟩ := @ih (s.output (lead ++ text ++ "\n")) hs
    refine ⟨t, ?_, (alike_output _ s).trans halike, ?_⟩
    · rw [printAll, Run.bind_ok hprinted]
      exact ht
    · rw [hwritten, written_output, listing, listing, List.map_cons, String.join_cons]
      simp only [String.append_assoc]

section Reading

variable {α : Type} {reader : Nat → String → Except Failure α} {code : String} {s : Session}

theorem reading_ok {a : α} (h : reader s.host.frames code = .ok a) :
    reading reader code s = (.ok a, s) := by
  rw [reading, h]
  rfl

theorem reading_error {e : Failure} (h : reader s.host.frames code = .error e) :
    ∃ e', reading reader code s = (.error e', s) := by
  rw [reading, h]
  unfold asFault
  split
  · exact ⟨_, rfl⟩
  · exact ⟨e, rfl⟩

end Reading

theorem evaluateAll_of_parseAll {code : String} {es : List Value} {s : Session}
    (h : Reader.parseAll s.host.frames code = .ok es) : evaluateAll code s = runAll es s :=
  Run.bind_ok (reading_ok h)

theorem tryAll_of_runAll {chunk : String} {es vs : List Value} {s s' : Session}
    (hread : Reader.parseAll s.host.frames chunk = .ok es) (h : runAll es s = (.ok vs, s')) :
    tryAll chunk s = (.ok (.ok vs), s') := by
  rw [tryAll, evaluateAll_of_parseAll hread, h]

theorem Alike.runChunk {s t s' : Session} (h : Alike s t) {chunk : String} {es vs : List Value}
    {texts : List String} (hread : Reader.parseAll s.host.frames chunk = .ok es)
    (hr : Session.runAll es s = (.ok vs, s')) (hprinted : Printed s.host.frames vs texts) :
    ∃ t', Session.runChunk chunk t = (.ok true, t') ∧ Alike s' t' ∧
      t'.written = (t.written.1 ++ listing "" texts, t.written.2) := by
  obtain ⟨u, hu, halike, hwritten⟩ := h.runAll hr
  have hframes : u.host.frames = s.host.frames := halike.frames.trans (frames_runAll hr)
  obtain ⟨t', ht', halike', hwritten'⟩ := printAll_printed hprinted "" hframes
  refine ⟨t', ?_, halike.trans halike', by rw [hwritten', hwritten]⟩
  rw [Session.runChunk, Run.bind_ok (tryAll_of_runAll (h.frames ▸ hread) hu)]
  exact Run.bind_ok ht'

theorem Printed.append_cases {frames : Nat} {vs ws : List Value} {texts : List String}
    (h : Printed frames (vs ++ ws) texts) :
    ∃ xs ys, Printed frames vs xs ∧ Printed frames ws ys ∧ texts = xs ++ ys := by
  refine ⟨texts.take vs.length, texts.drop vs.length, ?_, ?_, (List.take_append_drop _ _).symm⟩
  · simpa [Printed] using List.forall₂_take vs.length h
  · simpa [Printed] using List.forall₂_drop vs.length h

theorem Alike.runChunks {room : Nat} {chunks : List String} {parts : List (List Value)}
    (hread : List.Forall₂ (fun chunk part => Reader.parseAll room chunk = .ok part) chunks parts)
    {s t s' : Session} (h : Alike s t) (hroom : s.host.frames = room) {vs : List Value}
    {texts : List String} (hr : Session.runAll parts.flatten s = (.ok vs, s'))
    (hprinted : Printed room vs texts) :
    ∃ t', Session.runChunks chunks t = (.ok 0, t') ∧ Alike s' t' ∧
      t'.written = (t.written.1 ++ listing "" texts, t.written.2) := by
  induction hread generalizing s t vs texts with
  | nil =>
    cases hr
    cases hprinted
    exact ⟨t, rfl, h, by simp [listing]⟩
  | @cons chunk part chunks parts hpart _ ih =>
    obtain ⟨xs, ys, u, hxs, hys, rfl⟩ := runAll_append_ok hr
    obtain ⟨first, others, hfirst, hothers, rfl⟩ := hprinted.append_cases
    subst hroom
    obtain ⟨t₁, ht₁, halike, hwritten⟩ := h.runChunk hpart hxs hfirst
    obtain ⟨t₂, ht₂, halike', hwritten'⟩ := ih halike (frames_runAll hxs) hys hothers
    refine ⟨t₂, ?_, halike', ?_⟩
    · rw [Session.runChunks, Run.bind_ok ht₁, Run.bind_ok ht₂]
      rfl
    · rw [hwritten', hwritten, listing_append, String.append_assoc]

/-- Chunks hold what the whole text holds, unless one ends with a quotation mark. Then running the
text chunk by chunk goes as evaluating it as a whole does: if that gives values that can be printed,
no chunk fails, each value is printed on a line of its own and nothing as an error, and the
interpreter is left the same. -/
theorem runText_of_evaluateAll (st : Session) (code : String) {es : List Value}
    (h : Reader.parseAll st.host.frames code = .ok es) :
    (Chunk.ReadAs st.host.frames (Chunk.ofText code) es ↔
      ∀ chunk ∈ Chunk.ofText code, ¬Chunk.Dangling chunk) ∧
    ((∀ chunk ∈ Chunk.ofText code, ¬Chunk.Dangling chunk) →
      ∀ vs final texts, evaluateAll code st = (.ok vs, final) →
        Printed st.host.frames vs texts →
        List.Forall₂ (fun v text => v.render = .ok text) vs texts ∧
        ∃ left, runText code st = (.ok 0, left) ∧ Alike final left ∧
          left.host.journal.outText = st.host.journal.outText ++ listing "" texts ∧
          left.host.journal.errText = st.host.journal.errText) := by
  have hiff := Chunk.readAs_ofText_iff h
  refine ⟨hiff, fun hmarks vs final texts hvalues hprinted => ⟨hprinted.render, ?_⟩⟩
  obtain ⟨parts, hparts, rfl⟩ := hiff.mpr hmarks
  rw [evaluateAll_of_parseAll h] at hvalues
  obtain ⟨left, hleft, halike, hwritten⟩ := Alike.runChunks hparts (.refl st) rfl hvalues hprinted
  exact ⟨left, hleft, halike, congrArg Prod.fst hwritten, congrArg Prod.snd hwritten⟩

/-- Two expressions, the first one on two lines and with a quotation mark in it. -/
def twoChunks : String := "(setq x\n  'y)\n\nx\n"

theorem runText_twoChunks :
    ∃ left, runText twoChunks (.start [] none .quiet) = (.ok 0, left) ∧
      left.host.journal.outText = "y\ny\n" ∧ left.host.journal.errText = "" := by
  let es : List Value := [.list [.sym "setq", .sym "x", (Value.sym "y").quote], .sym "x"]
  let st : Session := .start [] none .quiet
  have hderives : Reader.DerivesAll ["(", "setq", "x", "'", "y", ")", "x"] es :=
    .cons (.list (.cons (.atom rfl rfl) (.cons (.atom rfl rfl)
      (.single (.quote (.atom rfl rfl)))))) (.single (.atom rfl rfl))
  have hwords : Token.words twoChunks = ["(", "setq", "x", "'", "y", ")", "x"] := by decide +kernel
  have hread : Reader.parseAll st.host.frames twoChunks = .ok es :=
    Chunk.parseAll_ok_iff_words.mpr ⟨hwords ▸ hderives, by decide⟩
  have hchunks : Chunk.ofText twoChunks = ["(setq x\n  'y)\n", "x\n"] := by decide +kernel
  have hmarks : ∀ chunk ∈ Chunk.ofText twoChunks, ¬Chunk.Dangling chunk := by
    rw [hchunks]
    simp only [Chunk.dangling_iff]
    decide +kernel
  have hvalues : evaluateAll twoChunks st = (.ok [.sym "y", .sym "y"], (runAll es st).2) :=
    (evaluateAll_of_parseAll hread).trans rfl
  have hprinted : Printed st.host.frames [.sym "y", .sym "y"] ["y", "y"] :=
    .cons rfl (.cons rfl .nil)
  obtain ⟨-, hruns⟩ := runText_of_evaluateAll st twoChunks hread
  obtain ⟨-, left, hleft, -, hout, herr⟩ := hruns hmarks _ _ _ hvalues hprinted
  exact ⟨left, hleft, hout.trans (by decide +kernel), herr.trans (by decide +kernel)⟩

end Session

end PocketLisp
