import PocketLisp.Proofs.Session.Sequence

/-!
Several interpreters in one host. What they share is the host: its settings, the limit that is
installed, its frames and its journal. A call reads none of these but the frames, and these only tell
whether it gives up. So each interpreter answers as if it were alone.
-/
namespace PocketLisp

/-- Something that depends on the host frames there are: more of them make no difference, unless it
gave up. -/
def Steady {β : Type} (gaveUp : β → Prop) (f : Nat → β) : Prop :=
  ∀ ⦃room room' : Nat⦄, room ≤ room' → ¬gaveUp (f room) → f room' = f room

namespace Steady

variable {β : Type} {gaveUp : β → Prop} {f : Nat → β}

theorem const (gaveUp : β → Prop) (b : β) : Steady gaveUp fun _ => b := fun _ _ _ _ => rfl

theorem guard (h : Steady gaveUp f) {b : β} (hb : gaveUp b) (k : Nat) :
    Steady gaveUp fun room => if room ≤ k then b else f room := by
  intro room room' hle hne
  by_cases hk : room ≤ k
  · simp [hk, hb] at hne
  · have hk' : ¬room' ≤ k := by omega
    simp only [hk, hk', if_false] at hne ⊢
    exact h hle hne

theorem agree (h : Steady gaveUp f) {room room' : Nat} (hroom : ¬gaveUp (f room))
    (hroom' : ¬gaveUp (f room')) : f room' = f room := by
  rcases Nat.le_total room room' with hle | hle
  · exact h hle hroom
  · exact (h hle hroom').symm

end Steady

def GaveUp {α σ : Type} (r : Except Failure α × σ) : Prop := r.1 = .error (.escape .exhausted)

namespace Reader

theorem steady_resume {ts : List Token}
    (h : ∀ opens, Steady GaveUp fun room => read room opens ts) (d : Value ⊕ List Open) :
    Steady GaveUp fun room => resume room ts d := by
  cases d with
  | inl v => exact .const _ _
  | inr opens => exact h opens

/-- A token that opens a construct takes a host frame. -/
theorem steady_enter (o : Open) {t : Token} {ts : List Token} {opens : List Open}
    (hread : ∀ room, read room opens (t :: ts) =
      if room ≤ opens.length then (.error (.escape .exhausted), ts) else read room (o :: opens) ts)
    (h : Steady GaveUp fun room => read room (o :: opens) ts) :
    Steady GaveUp fun room => read room opens (t :: ts) := by
  have hgave : GaveUp (Except.error (α := Value) (.escape .exhausted), ts) := rfl
  simp only [hread]
  exact h.guard hgave opens.length

theorem steady_read (opens : List Open) (ts : List Token) :
    Steady GaveUp fun room => read room opens ts := by
  induction ts generalizing opens with
  | nil => exact .const _ _
  | cons t ts ih =>
    by_cases hopen : t.text = "("
    · exact steady_enter (.list t []) (fun room => by rw [read.eq_def]; simp [hopen]) (ih _)
    by_cases hclose : t.text = ")"
    · by_cases hlist : ∃ start items outer, opens = .list start items :: outer
      · obtain ⟨start, items, outer, rfl⟩ := hlist
        simp only [read_close hclose]
        exact steady_resume ih _
      · have hnone : NoListOpen opens := by
          rcases opens with _ | ⟨⟨start, items⟩ | mark, outer⟩
          · trivial
          · exact absurd ⟨start, items, outer, rfl⟩ hlist
          · trivial
        simp only [read_stray hclose hnone]
        exact .const _ _
    by_cases hquote : t.text = "'"
    · exact steady_enter (.quote t) (fun room => by rw [read.eq_def]; simp [hquote]) (ih _)
    have hmark : isMark t.text = false := by simp [isMark, hopen, hclose, hquote]
    cases hv : atomValue t.text with
    | error x =>
      simp only [read_unreadable hmark hv]
      exact .const _ _
    | ok v =>
      simp only [read_atom hmark hv]
      exact steady_resume ih _

theorem steady_readAll (ts : List Token) : Steady GaveUp fun room => readAll room ts := by
  intro room room' hle hne
  induction hn : ts.length using Nat.strongRecOn generalizing ts with
  | ind n ih =>
    by_cases hts : ts = []
    · simp [hts, readAll]
    rcases hread : readExpr room ts with ⟨e | v, rest⟩
    · have hfails := readAll_of_error hts hread
      have hroom : ¬GaveUp (readExpr room ts) := by simpa [GaveUp, hread, hfails] using hne
      have hread' := (steady_read [] ts hle hroom).trans hread
      simp only [hfails, readAll_of_error hts hread']
    · have hroom : ¬GaveUp (readExpr room ts) := by simp [GaveUp, hread]
      have hread' := (steady_read [] ts hle hroom).trans hread
      have hshorter : rest.length < n := by
        have hrest : (readExpr room ts).2.length ≤ ts.length - 1 := length_read_le room [] ts
        have hpos := List.length_pos_iff.mpr hts
        rw [hread] at hrest
        dsimp only at hrest
        omega
      have hmore : ¬GaveUp (readAll room rest) := by
        intro hgave
        refine hne ?_
        simp only [GaveUp] at hgave
        simp [GaveUp, readAll_of_ok hts hread, hgave, Except.map]
      simp only [readAll_of_ok hts hread, readAll_of_ok hts hread',
        ih rest.length hshorter rest hmore rfl]

/-- A reader that makes the same of a text with more host frames, unless it gave up. -/
def Dependable {α : Type} (reader : Nat → String → Except Failure α) : Prop :=
  ∀ s, Steady (· = .error (.escape .exhausted)) fun room => reader room s

theorem dependable_parse : Dependable parse := by
  intro s room room' hle hne
  by_cases hts : Token.ofText s = []
  · simp [parse, hts]
  · have hroom : ¬GaveUp (readExpr room (Token.ofText s)) := by
      intro hgave
      refine hne ?_
      rcases hread : readExpr room (Token.ofText s) with ⟨e | v, rest⟩
      · rw [hread] at hgave
        cases hgave
        simp [parse, hread]
      · rw [hread] at hgave
        cases hgave
    have hread : readExpr room' (Token.ofText s) = readExpr room (Token.ofText s) :=
      steady_read [] _ hle hroom
    simp only [parse, hread]

theorem dependable_parseAll : Dependable parseAll := by
  intro s room room' hle hne
  exact congrArg Prod.fst (steady_readAll (Token.ofText s) hle hne)

end Reader

/-- A failure that tells of too few host frames, to read or to evaluate. -/
def Failure.isExhausted : Failure → Bool
  | .fault f => f.cause = .readerExhausted || f.cause = .evaluatorExhausted
  | .escape _ => false

def isExhausted {α : Type} : Except Failure α → Bool
  | .error e => e.isExhausted
  | .ok _ => false

namespace Session

open Reader

theorem not_exhausted_of_asFault {α : Type} {c : Cause} {r : Except Failure α}
    (hc : c = .readerExhausted ∨ c = .evaluatorExhausted) (h : isExhausted (asFault c r) = false) :
    r ≠ .error (.escape .exhausted) := by
  rintro rfl
  rcases hc with rfl | rfl <;> simp [asFault, isExhausted, Failure.isExhausted, Failure.because] at h

/-- Two sessions with the same interpreter, in hosts that have the same listener. -/
structure Peers (s t : Session) : Prop where
  interpreter : t.interpreter = s.interpreter
  listener : t.host.listener = s.host.listener

/-- What is done in a session depends on nothing of the host but its listener, as long as there are
host frames enough. -/
def Isolated {α : Type} (x : Run Session α) : Prop :=
  ∀ ⦃s t : Session⦄, Peers s t → isExhausted (x s).1 = false → isExhausted (x t).1 = false →
    (x t).1 = (x s).1 ∧ Peers (x s).2 (x t).2

/-- What is done in a session leaves nothing in the host but entries in its journal. -/
def Discreet {α : Type} (x : Run Session α) : Prop :=
  ∀ s, ∃ journal, (x s).2.host = { s.host with journal := journal }

/-- What is done in a session neither takes anything else from the host nor leaves it there. -/
structure Secluded {α : Type} (x : Run Session α) : Prop where
  isolated : Isolated x
  discreet : Discreet x

section Sequence

variable {α β : Type} {x : Run Session α} {f : α → Run Session β}

theorem Isolated.bind (hx : Isolated x) (hf : ∀ a, Isolated (f a)) : Isolated (x >>= f) := by
  intro s t h hs ht
  have agree := hx h
  rcases hxs : x s with ⟨e | a, s'⟩
  · rcases hxt : x t with ⟨e' | a', t'⟩
    · rw [Run.bind_error hxs] at hs ⊢
      rw [Run.bind_error hxt] at ht ⊢
      rw [hxs, hxt] at agree
      obtain ⟨hsame, hpeers⟩ := agree hs ht
      cases hsame
      exact ⟨rfl, hpeers⟩
    · -- A value is no lack of frames, so the failure would have to be one.
      rw [Run.bind_error hxs] at hs
      rw [hxs, hxt] at agree
      cases (agree hs rfl).1
  · rcases hxt : x t with ⟨e' | a', t'⟩
    · rw [Run.bind_error hxt] at ht
      rw [hxs, hxt] at agree
      cases (agree rfl ht).1
    · rw [Run.bind_ok hxs] at hs ⊢
      rw [Run.bind_ok hxt] at ht ⊢
      rw [hxs, hxt] at agree
      obtain ⟨hsame, hpeers⟩ := agree rfl rfl
      cases hsame
      exact hf a hpeers hs ht

theorem Discreet.bind (hx : Discreet x) (hf : ∀ a, Discreet (f a)) : Discreet (x >>= f) := by
  intro s
  obtain ⟨journal, hjournal⟩ := hx s
  rcases hxs : x s with ⟨e | a, s'⟩
  · rw [hxs] at hjournal
    rw [Run.bind_error hxs]
    exact ⟨journal, hjournal⟩
  · rw [hxs] at hjournal
    rw [Run.bind_ok hxs]
    obtain ⟨journal', hjournal'⟩ := hf a s'
    exact ⟨journal', by rw [hjournal', hjournal]⟩

theorem secluded_pure (a : α) : Secluded (pure a) :=
  ⟨fun _ _ h _ _ => ⟨rfl, h⟩, fun s => ⟨s.host.journal, rfl⟩⟩

theorem Secluded.bind (hx : Secluded x) (hf : ∀ a, Secluded (f a)) : Secluded (x >>= f) :=
  ⟨hx.isolated.bind fun a => (hf a).isolated, hx.discreet.bind fun a => (hf a).discreet⟩

end Sequence

/-! The steps of a call: a text is read, what is read is recorded, and expressions are run. -/

theorem secluded_reading {α : Type} {reader : Nat → String → Except Failure α}
    (h : Dependable reader) (code : String) : Secluded (reading reader code) := by
  refine ⟨fun s t hpeers hs ht => ?_, fun s => ⟨s.host.journal, rfl⟩⟩
  have hs' := not_exhausted_of_asFault (.inl rfl) hs
  have ht' := not_exhausted_of_asFault (.inl rfl) ht
  have hsame : reader t.host.frames code = reader s.host.frames code := (h code).agree hs' ht'
  exact ⟨congrArg (asFault .readerExhausted) hsame, hpeers⟩

theorem secluded_record (e : Event) : Secluded (onHost (·.record e)) :=
  ⟨fun _ _ h _ _ => ⟨rfl, h.interpreter, h.listener⟩, fun s => ⟨.event e :: s.host.journal, rfl⟩⟩

theorem steady_evaluate (c : Conditions) (depth : Int) (e : Value) (s : EvalState) :
    Steady GaveUp fun room => PocketLisp.evaluate c room depth e s := by
  intro room room' hle hne
  exact ((runs_evaluate c room depth e s).more_room hne hle).evaluate_eq

theorem Peers.outcome_eq {s t : Session} (h : Peers s t) {e : Value} (hs : ¬GaveUp (outcome e s))
    (ht : ¬GaveUp (outcome e t)) : outcome e t = outcome e s := by
  have hconditions : t.conditions = s.conditions := by
    simp [conditions, h.interpreter, h.listener]
  have hstate : t.state = s.state := by simp [state, h.interpreter]
  rw [Session.outcome_eq, hconditions, hstate] at ht ⊢
  exact (steady_evaluate s.conditions 0 e s.state).agree hs ht

/-- The limit in force is that of the interpreter, whatever is installed; and what was installed is
installed again, also where the evaluation fails. -/
theorem secluded_run (e : Value) : Secluded (run e) := by
  refine ⟨fun s t h hs ht => ?_, fun s => ⟨_, congrArg (·.2.host) (run_eq e s)⟩⟩
  have hsame : outcome e t = outcome e s :=
    h.outcome_eq (not_exhausted_of_asFault (.inr rfl) hs) (not_exhausted_of_asFault (.inr rfl) ht)
  simp only [run_eq, hsame]
  exact ⟨trivial, by simp [h.interpreter], h.listener⟩

theorem secluded_runAll (es : List Value) : Secluded (runAll es) := by
  induction es with
  | nil => exact secluded_pure []
  | cons e es ih => exact (secluded_run e).bind fun v => ih.bind fun vs => secluded_pure (v :: vs)

theorem secluded_evaluate (code : String) : Secluded (evaluate code) := by
  refine (secluded_reading dependable_parse code).bind fun v => ?_
  cases v with
  | none => exact secluded_pure none
  | some e =>
    exact (secluded_record _).bind fun _ => (secluded_run e).bind fun v => secluded_pure (some v)

theorem secluded_evaluateAll (code : String) : Secluded (evaluateAll code) :=
  (secluded_reading dependable_parseAll code).bind secluded_runAll

inductive Result where
  | one (value : Option Value)
  | all (values : List Value)

def Call.ask : Call → Run Session Result
  | .one code => do
    let v ← evaluate code
    pure (.one v)
  | .all code => do
    let vs ← evaluateAll code
    pure (.all vs)

theorem Call.secluded_ask (call : Call) : Secluded call.ask := by
  cases call with
  | one code => exact (secluded_evaluate code).bind fun v => secluded_pure (Result.one v)
  | all code => exact (secluded_evaluateAll code).bind fun vs => secluded_pure (Result.all vs)

theorem bind_pure_snd {α β : Type} (x : Run Session α) (f : α → β) (s : Session) :
    ((do let a ← x; pure (f a) : Run Session β) s).2 = (x s).2 := by
  rcases hx : x s with ⟨e | a, t⟩
  · rw [Run.bind_error hx]
  · rw [Run.bind_ok hx]
    rfl

theorem Call.ask_snd (call : Call) (s : Session) : (call.ask s).2 = (call.perform s).2 := by
  cases call with
  | one code => simp only [ask, perform, bind_pure_snd]
  | all code => simp only [ask, perform, bind_pure_snd]

def answers : List Call → Session → List (Except Failure Result)
  | [], _ => []
  | call :: calls, s => (call.ask s).1 :: answers calls (call.perform s).2

end Session

/-- Interpreters in one host, in the order of their creation. -/
structure Workspace where
  host : Host
  interpreters : List Interpreter

namespace Workspace

open Session

/-- What can happen: an interpreter is created, or one of them is asked something, or the settings
or the limit that is installed are changed from outside. -/
inductive Move where
  | new (maxDepth : Option Int)
  | call (i : Nat) (call : Call)
  | setVars (vars : List (String × String))
  | install (limit : Option Int)

def session? (i : Nat) (w : Workspace) : Option Session :=
  w.interpreters[i]?.map fun interpreter => ⟨w.host, interpreter⟩

def put (i : Nat) (s : Session) (w : Workspace) : Workspace :=
  ⟨s.host, w.interpreters.set i s.interpreter⟩

def step (w : Workspace) : Move → Workspace
  | .new maxDepth =>
    let (interpreter, host) := Interpreter.new maxDepth w.host
    ⟨host, w.interpreters ++ [interpreter]⟩
  | .call i call =>
    match w.session? i with
    | none => w
    | some s => w.put i (call.ask s).2
  | .setVars vars => { w with host := { w.host with vars := vars } }
  | .install limit => { w with host := (w.host.install limit).2 }

def after (moves : List Move) (w : Workspace) : Workspace := moves.foldl step w

def answer? (i : Nat) (w : Workspace) : Move → Option (Except Failure Result)
  | .call j call => if j = i then (w.session? i).map fun s => (call.ask s).1 else none
  | _ => none

def answersOf (i : Nat) : List Move → Workspace → List (Except Failure Result)
  | [], _ => []
  | move :: moves, w => (w.answer? i move).toList ++ answersOf i moves (w.step move)

def Move.callTo? (i : Nat) : Move → Option Call
  | .call j c => if j = i then some c else none
  | _ => none

def callsTo (i : Nat) (moves : List Move) : List Call := moves.filterMap (Move.callTo? i)

theorem listener_new (maxDepth : Option Int) (h : Host) :
    (Interpreter.new maxDepth h).2.listener = h.listener := by
  have ensure (depth : Int) (h : Host) : (h.ensureFrames depth).2.listener = h.listener := by
    rw [Host.ensureFrames]
    dsimp only
    split <;> rfl
  have configured : h.configuredDepth.2.listener = h.listener := by
    rw [Host.configuredDepth, Host.intVar]
    repeat' split
    all_goals rfl
  cases maxDepth with
  | none => exact (ensure _ _).trans configured
  | some n => exact ensure n h

/-- An interpreter of the workspace is the one of a session, and the listeners are the same. -/
structure Follows (i : Nat) (w : Workspace) (s : Session) : Prop where
  interpreter : w.interpreters[i]? = some s.interpreter
  listener : w.host.listener = s.host.listener

theorem step_call {i : Nat} {w : Workspace} {interpreter : Interpreter}
    (h : w.interpreters[i]? = some interpreter) (call : Call) :
    w.step (.call i call) = w.put i (call.ask ⟨w.host, interpreter⟩).2 := by
  simp [step, session?, h]

theorem host_step_call (i : Nat) (call : Call) (w : Workspace) :
    ∃ journal, (w.step (.call i call)).host = { w.host with journal := journal } := by
  cases h : w.interpreters[i]? with
  | none => exact ⟨w.host.journal, by simp [step, session?, h]⟩
  | some interpreter =>
    rw [step_call h]
    exact call.secluded_ask.discreet ⟨w.host, interpreter⟩

theorem listener_step (w : Workspace) (move : Move) :
    (w.step move).host.listener = w.host.listener := by
  cases move with
  | new maxDepth => exact listener_new maxDepth w.host
  | call i call =>
    obtain ⟨journal, hjournal⟩ := host_step_call i call w
    rw [hjournal]
  | setVars vars => rfl
  | install limit => rfl

/-- What is asked of another interpreter, and all else that happens, leaves an interpreter alone. -/
theorem interpreter_step {i : Nat} {w : Workspace} {interpreter : Interpreter} {move : Move}
    (h : w.interpreters[i]? = some interpreter) (hmove : move.callTo? i = none) :
    (w.step move).interpreters[i]? = some interpreter := by
  cases move with
  | new maxDepth => exact List.getElem?_append_left (List.getElem?_eq_some_iff.mp h).1 ▸ h
  | call j call =>
    have hne : j ≠ i := by
      intro hj
      simp [Move.callTo?, hj] at hmove
    cases hj : w.interpreters[j]? with
    | none => simpa [step, session?, hj] using h
    | some other =>
      rw [step_call hj, put, List.getElem?_set_ne hne]
      exact h
  | setVars vars => exact h
  | install limit => exact h

theorem answer?_eq_none {i : Nat} {move : Move} (h : move.callTo? i = none) (w : Workspace) :
    w.answer? i move = none := by
  cases move with
  | call j call =>
    have hne : j ≠ i := by
      intro hj
      simp [Move.callTo?, hj] at h
    simp [answer?, hne]
  | new maxDepth => rfl
  | setVars vars => rfl
  | install limit => rfl

theorem eq_call_of_callTo? {i : Nat} {move : Move} {call : Call} (h : move.callTo? i = some call) :
    move = .call i call := by
  cases move with
  | call j c =>
    by_cases hj : j = i
    · simp_all [Move.callTo?]
    · simp [Move.callTo?, hj] at h
  | new maxDepth => cases h
  | setVars vars => cases h
  | install limit => cases h

namespace Follows

variable {i : Nat} {w : Workspace} {s : Session}

theorem answer (h : Follows i w s) (call : Call) :
    w.answer? i (.call i call) = some (call.ask ⟨w.host, s.interpreter⟩).1 := by
  simp [answer?, session?, h.interpreter]

theorem step_other (h : Follows i w s) {move : Move} (hmove : move.callTo? i = none) :
    Follows i (w.step move) s :=
  ⟨interpreter_step h.interpreter hmove, (listener_step w move).trans h.listener⟩

theorem step_call (h : Follows i w s) {call : Call}
    (hw : isExhausted (call.ask ⟨w.host, s.interpreter⟩).1 = false)
    (hs : isExhausted (call.ask s).1 = false) :
    (call.ask ⟨w.host, s.interpreter⟩).1 = (call.ask s).1 ∧
      Follows i (w.step (.call i call)) (call.perform s).2 := by
  have hpeers : Peers s ⟨w.host, s.interpreter⟩ := ⟨rfl, h.listener⟩
  obtain ⟨hsame, hleft⟩ := call.secluded_ask.isolated hpeers hs hw
  refine ⟨hsame, ?_⟩
  rw [Workspace.step_call h.interpreter, ← call.ask_snd]
  have hi := (List.getElem?_eq_some_iff.mp h.interpreter).1
  exact ⟨by simp [put, hi, hleft.interpreter], hleft.listener⟩

theorem run (h : Follows i w s) (moves : List Move)
    (hw : ∀ r ∈ answersOf i moves w, isExhausted r = false)
    (hs : ∀ r ∈ answers (callsTo i moves) s, isExhausted r = false) :
    answersOf i moves w = answers (callsTo i moves) s ∧
      Follows i (after moves w) (Session.after (callsTo i moves) s) := by
  induction moves generalizing w s with
  | nil => exact ⟨rfl, h⟩
  | cons move moves ih =>
    cases hmove : move.callTo? i with
    | none =>
      have hcalls : callsTo i (move :: moves) = callsTo i moves := by simp [callsTo, hmove]
      have hanswers : answersOf i (move :: moves) w = answersOf i moves (w.step move) := by
        simp [answersOf, answer?_eq_none hmove]
      rw [hanswers] at hw ⊢
      rw [hcalls] at hs ⊢
      exact ih (h.step_other hmove) hw hs
    | some call =>
      have hcalls : callsTo i (move :: moves) = call :: callsTo i moves := by
        simp [callsTo, hmove]
      obtain rfl := eq_call_of_callTo? hmove
      rw [hcalls] at hs ⊢
      simp only [answersOf, h.answer, Option.toList_some, List.singleton_append,
        List.forall_mem_cons] at hw ⊢
      simp only [answers, List.forall_mem_cons] at hs ⊢
      obtain ⟨hsame, hstep⟩ := h.step_call hw.1 hs.1
      obtain ⟨hrest, hleft⟩ := ih hstep hw.2 hs.2
      exact ⟨by rw [hsame, hrest], hleft⟩

end Follows

theorem follows_new (w : Workspace) (maxDepth : Option Int) {alone : Host}
    (h : alone.listener = w.host.listener) :
    Follows w.interpreters.length (w.step (.new maxDepth))
      (opened (some (maxDepth.getD w.host.configuredDepth.1)) alone) := by
  have hlistener := (listener_step w (.new maxDepth)).trans
    (h.symm.trans (listener_new (some (maxDepth.getD w.host.configuredDepth.1)) alone).symm)
  refine ⟨?_, hlistener⟩
  cases maxDepth <;> simp [step, opened, Interpreter.new]

/-- An interpreter is created in a workspace with any others in it, and then anything may happen: it
is asked something, others are created or asked, and the settings and the limit that is installed are
changed. As long as it has host frames enough, it answers what it is asked as an interpreter of the
same depth does that is alone in a host, and in the end they are the same. The depth is the one given
at its creation, or else the one in the settings at that time. No call, whatever comes of it, leaves
another limit installed than there was. -/
theorem answers_as_alone (w : Workspace) (maxDepth : Option Int) (moves : List Move) (alone : Host)
    (hlistener : alone.listener = w.host.listener) :
    let i := w.interpreters.length
    let begun := w.step (.new maxDepth)
    let s := opened (some (maxDepth.getD w.host.configuredDepth.1)) alone
    ((∀ r ∈ answersOf i moves begun, isExhausted r = false) →
      (∀ r ∈ answers (callsTo i moves) s, isExhausted r = false) →
      answersOf i moves begun = answers (callsTo i moves) s ∧
      (after moves begun).interpreters[i]? = some (Session.after (callsTo i moves) s).interpreter) ∧
    ∀ (v : Workspace) (j : Nat) (call : Call),
      (v.step (.call j call)).host.installed = v.host.installed := by
  refine ⟨fun hw hs => ?_, fun v j call => ?_⟩
  · obtain ⟨hanswers, hleft⟩ := (follows_new w maxDepth hlistener).run moves hw hs
    exact ⟨hanswers, hleft.interpreter⟩
  · obtain ⟨journal, hjournal⟩ := host_step_call j call v
    rw [hjournal]

/-- An interpreter of depth two, in a host whose settings ask for a depth of three. -/
def sharedHost : Workspace :=
  ⟨{ Host.initial [(Host.depthVar, "3")] .quiet with installed := some 7 },
    [⟨2, Interpreter.globals⟩]⟩

/-- Two interpreters define functions of one name, and calls of them go too deep for one limit or
another. -/
def entangledMoves : List Move :=
  [.call 1 (.all "(defun f (n) (cond ((equal n 0) 'done) (t (f (- n 1)))))"),
    .setVars [(Host.depthVar, "1")],
    .install none,
    .call 0 (.all "(defun f (n) n) (setq x (f 5)) (g)"),
    .call 1 (.one "(f 2)"),
    .install (some 1),
    .new (some 50),
    .call 1 (.one "(f 3)"),
    .call 1 (.all "(setq x 'mine) (f)"),
    .call 0 (.one "x)"),
    .call 1 (.one "x")]

theorem answers_as_alone_entangledMoves :
    let begun := sharedHost.step (.new none)
    let s := opened (some 3) (.initial [] .quiet)
    ((∀ r ∈ answersOf 1 entangledMoves begun, isExhausted r = false) ∧
      (∀ r ∈ answers (callsTo 1 entangledMoves) s, isExhausted r = false) ∧
      (answersOf 1 entangledMoves begun).map (·.toOption.isSome) =
        [true, true, false, false, true]) ∧
    answersOf 1 entangledMoves begun = answers (callsTo 1 entangledMoves) s ∧
    (after entangledMoves begun).interpreters[1]? =
      some (Session.after (callsTo 1 entangledMoves) s).interpreter := by
  have hdepth : sharedHost.host.configuredDepth.1 = 3 := by decide +kernel
  have hbegun : ∀ r ∈ answersOf 1 entangledMoves (sharedHost.step (.new none)),
      isExhausted r = false := by decide +kernel
  have halone : ∀ r ∈ answers (callsTo 1 entangledMoves) (opened (some 3) (.initial [] .quiet)),
      isExhausted r = false := by decide +kernel
  have h := (answers_as_alone sharedHost none entangledMoves (.initial [] .quiet) rfl).1
  rw [Option.getD_none, hdepth] at h
  exact ⟨⟨hbegun, halone, by decide +kernel⟩, h hbegun halone⟩

end Workspace

end PocketLisp
