import Fixus.Fixlet.Closing
import Fixus.Lib.Table

/-!
# Whose output a report carries

The agent works for one session after the other, or for several at once; a line does not tell the fixlet which one it
comes from. The books tell it: they keep what was said in each session, beside the fixlet.

- `Books`: the fixlet with the sessions of its agent and the text that each of them has produced;
- `Attributed`: a report on a turn carries the text and the usage of its own session, and all of the text;
- `OwnSession`: a turn begins only when all sessions have had their answers, and only the current session speaks;
- `attributed_run`: under this condition everything is attributed to the right turn;
- `answer_to_wrong_turn`: a turn that begins too early gets the answer of another one.
-/

namespace Fixus

open Lib

/-! ## Books -/

/-- A line of the agent, or something else that comes in, with the session that has produced it. -/
structure Spoken where
  input : Input
  session : Option String := none

/-- A session: the turn it was opened for, what was said in it, and whether it has had its answer. -/
structure SessionBook where
  taskId : String
  turnId : Int
  texts : List String := []
  answered : Bool := false

/-- The message ends the prompt of its session. -/
def Input.endsPrompt (m : Input) : Bool :=
  m.closing = some .final || m.closing = some .otherStop || m.closing = some .error

/-- A session after one of its messages. -/
def SessionBook.note (b : SessionBook) (m : Input) : SessionBook :=
  { b with texts := b.texts ++ m.chunk.toList, answered := b.answered || m.endsPrompt }

abbrev Sessions := Finmap fun _ : String => SessionBook

/-- The sessions after a message of one of them. -/
def noteIn (sessions : Sessions) (session : Option String) (m : Input) : Sessions :=
  match session with
  | none => sessions
  | some sid =>
    match sessions.lookup sid with
    | none => sessions
    | some b => sessions.insert sid (b.note m)

/-- The session that a line opens, and for which turn. -/
def opened (s : Fixlet) (m : Input) : Option (Opening × String) :=
  match s.opening, m with
  | some w, .line json _ => (json.bind Fixlet.sessionIn).map fun sid => (w, sid)
  | _, _ => none

/-- The fixlet with the sessions of its agent. -/
structure Books where
  fixlet : Fixlet := {}
  current : Option String := none
  sessions : Sessions := ∅

def Books.step (cfg : FixletConfig) (s : Books) (x : Spoken) : Books :=
  let fixlet := s.fixlet.step cfg x.input
  -- with the process its sessions are gone
  if fixlet.agent then
    match opened s.fixlet x.input with
    | some (w, sid) =>
      { fixlet, current := some sid
        sessions := s.sessions.insert sid { taskId := w.turn.taskId, turnId := w.turn.turnId } }
    | none => { s with fixlet, sessions := noteIn s.sessions x.session x.input }
  else { fixlet }

/-- All sessions have had their answers. -/
def AllAnswered (sessions : Sessions) : Prop := ∀ sid ∈ sessions.keys, ∀ b ∈ sessions.lookup sid, b.answered = true

/-- A report on the turn of a session: it carries the text of the session and the usage of the message. -/
structure SessionBook.Told (b : SessionBook) (m : Input) (r : TaskEnd) : Prop where
  taskId : r.strField "task_id" = some b.taskId
  turnId : r.intField "turn_id" = some b.turnId
  text : r.eventType = "turn_execution_done" → r.strField "final_output" = some (String.join b.texts)
  usage : r.eventType = "llm_completed" →
    (r.intField "input_tokens", r.intField "output_tokens", r.intField "total_tokens") =
      (some ((m.usage.map LlmUsage.inputTokens).getD 0), some ((m.usage.map LlmUsage.outputTokens).getD 0),
        some ((m.usage.map LlmUsage.totalTokens).getD 0))

/-- What is reported is attributed to the right turn, and no text is lost. -/
structure Attributed (cfg : FixletConfig) (s : Books) (x : Spoken) : Prop where
  /-- A report carries what was said in the session that has produced the line, and is on the turn of this session. -/
  own : ∀ r ∈ reportsSince s.fixlet (s.fixlet.step cfg x.input),
    r.eventType = "llm_completed" ∨ r.eventType = "turn_execution_done" →
      ∃ sid b, x.session = some sid ∧ s.sessions.lookup sid = some b ∧ b.Told x.input r
  /-- The answer to a prompt makes the text of its session known. -/
  whole : ∀ sid b, x.session = some sid → s.sessions.lookup sid = some b → b.answered = false → b.texts ≠ [] →
    (x.input.closing = some .final ∨ x.input.closing = some .otherStop) →
      ∃ r ∈ reportsSince s.fixlet (s.fixlet.step cfg x.input), r.eventType = "turn_execution_done" ∧ b.Told x.input r

/-- A turn begins only when all sessions have had their answers, text and answers come from the current session, and an
answer that does not end the turn comes before any text. -/
def OwnSession (s : Books) (x : Spoken) : Prop :=
  s.fixlet.opening = none →
    match x.input with
    | .turnBegin payload _ => (parseExecuteTurnPayload payload).isOk = true → AllAnswered s.sessions
    | .line json uuid => s.fixlet.agent = true →
      (((Input.line json uuid).chunk ≠ none ∨ (Input.line json uuid).closing = some .final) → x.session = s.current) ∧
      ((Input.line json uuid).closing = some .otherStop →
        ∀ sid ∈ x.session, ∀ b ∈ s.sessions.lookup sid, b.answered = false → b.texts = [])
    | _ => True

/-! ## The books are right -/

variable {cfg : FixletConfig} {s : Books} {x : Spoken}

@[simp] theorem lookup_noteIn (sessions : Sessions) (session : Option String) (m : Input) (sid : String) :
    (noteIn sessions session m).lookup sid =
      if session = some sid then (sessions.lookup sid).map (SessionBook.note · m) else sessions.lookup sid := by
  unfold noteIn
  cases session with
  | none => simp
  | some sid' =>
    by_cases hs : sid' = sid
    · subst hs
      cases hl : sessions.lookup sid' <;> simp [hl]
    · cases hl : sessions.lookup sid' <;> simp [hl, hs, Finmap.lookup_insert_of_ne _ (Ne.symm hs)]

/-- Sessions that have had their answers keep them. -/
theorem AllAnswered.noteIn {sessions : Sessions} (h : AllAnswered sessions) (session : Option String) (m : Input) :
    AllAnswered (noteIn sessions session m) := by
  have hall : ∀ sid b, sessions.lookup sid = some b → b.answered = true := fun sid b hb =>
    h sid (Finmap.mem_keys.mpr (Finmap.mem_iff.mpr ⟨b, hb⟩)) b hb
  intro sid _ b hb
  rw [Option.mem_def, lookup_noteIn] at hb
  split at hb
  · obtain ⟨b', hb', rfl⟩ := Option.map_eq_some_iff.mp hb
    simp [SessionBook.note, hall sid b' hb']
  · exact hall sid b hb

/-- What the books tell about the fixlet. -/
structure RightBooks (s : Books) : Prop where
  gone : s.fixlet.agent = false → s.sessions = ∅
  /-- While a session is awaited, all others have had their answers, and nothing was said. -/
  opening : ∀ w, s.fixlet.opening = some w → s.fixlet.agent = true ∧ s.fixlet.msgAcc.chunks = [] ∧
    AllAnswered s.sessions ∧ w.ctx.taskId = w.turn.taskId ∧ w.ctx.turnId = w.turn.turnId
  /-- Otherwise the fixlet works on the turn of the current session and has its text. -/
  serving : s.fixlet.agent = true → s.fixlet.opening = none → ∃ ctx stepId sid b, Prompted s.fixlet ctx stepId ∧
    s.current = some sid ∧ s.sessions.lookup sid = some b ∧ b.taskId = ctx.taskId ∧ b.turnId = ctx.turnId ∧
      b.texts = s.fixlet.msgAcc.chunks

/-- Without a process there is nothing to keep. -/
theorem RightBooks.of_gone {f : Fixlet} (hg : f.agent = false) (ho : f.opening = none) :
    RightBooks { fixlet := f } where
  gone := fun _ => rfl
  opening := fun w hw => by simp [ho] at hw
  serving := fun h => by simp [hg] at h

/-- A step without a process. -/
theorem Books.step_gone (hg : (s.fixlet.step cfg x.input).agent = false) :
    Books.step cfg s x = { fixlet := s.fixlet.step cfg x.input } := by
  simp [Books.step, hg]

/-- A step in which no session is opened. -/
theorem Books.step_noted (hg : (s.fixlet.step cfg x.input).agent = true) (ho : opened s.fixlet x.input = none) :
    Books.step cfg s x =
      { s with fixlet := s.fixlet.step cfg x.input, sessions := noteIn s.sessions x.session x.input } := by
  simp [Books.step, hg, ho]

/-- The message that closes nothing and says nothing. -/
theorem noteIn_silent {m : Input} (hc : m.chunk = none) (he : m.endsPrompt = false) (sessions : Sessions)
    (session : Option String) : noteIn sessions session m = sessions := by
  refine Finmap.ext_lookup fun sid => ?_
  rw [lookup_noteIn]
  have hnote : ∀ b : SessionBook, b.note m = b := fun b => by simp [SessionBook.note, hc, he]
  split
  · cases sessions.lookup sid <;> simp [hnote]
  · rfl

/-- Nothing has happened. -/
theorem RightBooks.unchanged (h : RightBooks s) (hf : s.fixlet.step cfg x.input = s.fixlet) (hc : x.input.chunk = none)
    (he : x.input.endsPrompt = false) (ho : opened s.fixlet x.input = none) : RightBooks (Books.step cfg s x) := by
  by_cases hg : s.fixlet.agent = true
  · rw [Books.step_noted (by rw [hf]; exact hg) ho, hf, noteIn_silent hc he]
    exact h
  · have hg' : s.fixlet.agent = false := Bool.eq_false_iff.mpr hg
    rw [Books.step_gone (by rw [hf]; exact hg'), hf]
    refine RightBooks.of_gone hg' ?_
    cases hop : s.fixlet.opening with
    | none => rfl
    | some w => exact absurd (h.opening w hop).1 hg

/-- A turn.begin keeps the books right, if all sessions have had their answers. -/
theorem RightBooks.turnBegin (h : RightBooks s) {payload : Json} {spawned : Bool} {session : Option String}
    (ho : s.fixlet.opening = none)
    (hall : (parseExecuteTurnPayload payload).isOk = true → AllAnswered s.sessions) :
    RightBooks (Books.step cfg s { input := .turnBegin payload spawned, session }) := by
  have hstep : s.fixlet.step cfg (.turnBegin payload spawned) = s.fixlet.executeTurn cfg payload spawned := by
    simp [Fixlet.step, ho]
  cases hp : parseExecuteTurnPayload payload with
  | error e =>
    refine h.unchanged ?_ rfl rfl (by simp [opened, ho])
    rw [hstep]
    simp [Fixlet.executeTurn, hp]
  | ok turn =>
    have hans : AllAnswered s.sessions := hall (by rw [hp]; rfl)
    by_cases hg : s.fixlet.agent = true ∨ spawned = true
    · -- the session is asked for
      obtain ⟨hagent, w, hw, hacc, ht, hk⟩ : (s.fixlet.executeTurn cfg payload spawned).agent = true ∧ ∃ w,
          (s.fixlet.executeTurn cfg payload spawned).opening = some w ∧
          (s.fixlet.executeTurn cfg payload spawned).msgAcc.chunks = [] ∧ w.ctx.taskId = w.turn.taskId ∧
            w.ctx.turnId = w.turn.turnId := by
        unfold Fixlet.executeTurn
        simp only [hp]
        by_cases hga : s.fixlet.agent = true
        · simp only [hga, if_true]
          exact ⟨rfl, _, rfl, rfl, rfl, rfl⟩
        · simp only [hga, hg.resolve_left hga, if_true, Bool.false_eq_true, if_false]
          exact ⟨rfl, _, rfl, rfl, rfl, rfl⟩
      rw [Books.step_noted (by rw [hstep]; exact hagent) (by simp [opened, ho]), hstep, noteIn_silent rfl rfl]
      refine ⟨fun hno => ?_, fun w' hw' => ?_, fun _ hnone => ?_⟩
      · exact absurd hagent (by simp [show (s.fixlet.executeTurn cfg payload spawned).agent = false from hno])
      · obtain rfl := Option.some.inj (hw.symm.trans hw')
        exact ⟨hagent, hacc, hans, ht, hk⟩
      · rw [show (s.fixlet.executeTurn cfg payload spawned).opening = none from hnone] at hw
        cases hw
    · -- no process
      obtain ⟨hga, hsp⟩ := not_or.mp hg
      have hagent : (s.fixlet.executeTurn cfg payload spawned).agent = false ∧
          (s.fixlet.executeTurn cfg payload spawned).opening = none := by
        simp [Fixlet.executeTurn, hp, hga, hsp, Fixlet.emit, ho]
      rw [Books.step_gone (by rw [hstep]; exact hagent.1), hstep]
      exact .of_gone hagent.1 hagent.2

/-- A line while a session is awaited keeps the books right. -/
theorem RightBooks.await (h : RightBooks s) {w : Opening} {json : Option Json} {uuid : String} {session : Option String}
    (ho : s.fixlet.opening = some w) :
    RightBooks (Books.step cfg s { input := .line json uuid, session }) := by
  obtain ⟨hg, hacc, hans, ht, hk⟩ := h.opening w ho
  have hstep : s.fixlet.step cfg (.line json uuid) = s.fixlet.awaitSession cfg w json uuid := by
    simp [Fixlet.step, ho, hg]
  cases hs : json.bind Fixlet.sessionIn with
  | none =>
    have hsame : s.fixlet.awaitSession cfg w json uuid = s.fixlet := by
      unfold Fixlet.awaitSession
      cases json with
      | none => rfl
      | some v =>
        have hv : Fixlet.sessionIn v = none := hs
        simp [hv]
    rw [Books.step_noted (by rw [hstep, hsame]; exact hg) (by simp [opened, ho, hs]), hstep, hsame]
    refine ⟨fun hno => absurd hg (by simp [show s.fixlet.agent = false from hno]), fun w' hw' => ?_, fun _ hnone => ?_⟩
    · obtain rfl := Option.some.inj (ho.symm.trans hw')
      exact ⟨hg, hacc, hans.noteIn session _, ht, hk⟩
    · rw [show s.fixlet.opening = none from hnone] at ho
      cases ho
  | some sid =>
    obtain ⟨v, rfl, hv⟩ := Option.bind_eq_some_iff.mp hs
    have hopen : s.fixlet.awaitSession cfg w (some v) uuid =
        s.fixlet.promptSession cfg w sid (v.index "result") uuid := by simp [Fixlet.awaitSession, hv]
    have hb : Books.step cfg s { input := .line (some v) uuid, session } =
        { fixlet := s.fixlet.promptSession cfg w sid (v.index "result") uuid, current := some sid
          sessions := s.sessions.insert sid { taskId := w.turn.taskId, turnId := w.turn.turnId } } := by
      unfold Books.step
      dsimp only
      rw [hstep, hopen]
      simp [Fixlet.promptSession, hg, opened, ho, hv]
    rw [hb]
    refine ⟨fun hno => ?_, fun w' hw' => by (cases hw'), fun _ _ => ?_⟩
    · exact absurd hg (by simp [show s.fixlet.agent = false from hno])
    · exact ⟨_, uuid, sid, _, ⟨hg, rfl, rfl, rfl⟩, rfl, Finmap.lookup_insert _, ht.symm, hk.symm, hacc.symm⟩

/-- A line of the agent to the turn that the fixlet works on keeps the books right. -/
theorem RightBooks.line (h : RightBooks s) {json : Option Json} {uuid : String} {session : Option String}
    (ho : s.fixlet.opening = none) (hg : s.fixlet.agent = true)
    (hown : OwnSession s { input := .line json uuid, session }) :
    RightBooks (Books.step cfg s { input := .line json uuid, session }) := by
  obtain ⟨ctx, stepId, sid, b, hp, hc, hb, ht, hk, htexts⟩ := h.serving hg ho
  -- what the fixlet has afterwards
  obtain ⟨ctx', hp', ht', hk', hacc⟩ : ∃ ctx', Prompted (s.fixlet.step cfg (.line json uuid)) ctx' stepId ∧
      ctx'.taskId = ctx.taskId ∧ ctx'.turnId = ctx.turnId ∧ (s.fixlet.step cfg (.line json uuid)).msgAcc.chunks =
        s.fixlet.msgAcc.chunks ++ (Input.line json uuid).chunk.toList := by
    cases hp.reports cfg (m := .line json uuid) rfl with
    | none _ hp' _ ha => exact ⟨ctx, hp', rfl, rfl, ha⟩
    | final _ hp' _ ha => exact ⟨_, hp', count_taskId ctx, count_turnId ctx, ha⟩
    | error _ _ hp' _ ha => exact ⟨_, hp', count_taskId ctx, count_turnId ctx, ha⟩
  rw [Books.step_noted hp'.agent (by simp [opened, ho])]
  refine ⟨fun hno => ?_, fun w hw => ?_, fun _ _ => ?_⟩
  · exact absurd hp'.agent (by simp [show (s.fixlet.step cfg (.line json uuid)).agent = false from hno])
  · exact absurd hp'.opening (by simp [show (s.fixlet.step cfg (.line json uuid)).opening = some w from hw])
  · by_cases hs : session = some sid
    · exact ⟨ctx', stepId, sid, b.note (.line json uuid), hp', hc, by simp [hs, hb], ht.trans ht'.symm,
        hk.trans hk'.symm,
        by simp [SessionBook.note, htexts, hacc]⟩
    · -- a line of another session says nothing
      have hsilent : (Input.line json uuid).chunk = none := by
        by_contra hne
        exact hs (((hown ho hg).1 (Or.inl hne)).trans hc)
      exact ⟨ctx', stepId, sid, b, hp', hc, by simp [hs, hb], ht.trans ht'.symm, hk.trans hk'.symm,
        by rw [hacc, hsilent, htexts]; simp⟩

/-- **Every step in which a turn begins in time and the current session speaks keeps the books right.** -/
theorem RightBooks.step (h : RightBooks s) (hown : OwnSession s x) : RightBooks (Books.step cfg s x) := by
  obtain ⟨input, session⟩ := x
  cases input with
  | turnBegin payload spawned =>
    cases ho : s.fixlet.opening with
    | none => exact h.turnBegin ho (hown ho)
    | some w => exact h.unchanged (by simp [Fixlet.step, ho]) rfl rfl (by simp [opened, ho])
  | line json uuid =>
    by_cases hg : s.fixlet.agent = true
    · cases ho : s.fixlet.opening with
      | none => exact h.line ho hg hown
      | some w => exact h.await ho
    · have ho : s.fixlet.opening = none := by
        cases ho : s.fixlet.opening with
        | none => rfl
        | some w => exact absurd (h.opening w ho).1 hg
      have hg' : s.fixlet.agent = false := Bool.eq_false_iff.mpr hg
      have hstep : s.fixlet.step cfg (.line json uuid) = s.fixlet := by simp [Fixlet.step, hg']
      rw [Books.step_gone (by rw [hstep]; exact hg'), hstep]
      exact .of_gone hg' ho
  | stdoutClosed =>
    cases ho : s.fixlet.opening with
    | none => exact h.unchanged (by simp [Fixlet.step, ho]) rfl rfl (by simp [opened, ho])
    | some w =>
      have hstep : s.fixlet.step cfg .stdoutClosed = s.fixlet.sessionFailed w := by simp [Fixlet.step, ho]
      rw [Books.step_gone (by rw [hstep]; rfl), hstep]
      exact .of_gone rfl rfl
  | exit =>
    cases ho : s.fixlet.opening with
    | some w => exact h.unchanged (by simp [Fixlet.step, ho]) rfl rfl (by simp [opened, ho])
    | none =>
      by_cases hg : s.fixlet.agent = true
      · have hstep : s.fixlet.step cfg .exit = s.fixlet.agentExited := by simp [Fixlet.step, ho, hg]
        rw [Books.step_gone (by rw [hstep]; rfl), hstep]
        exact .of_gone rfl ho
      · exact h.unchanged (by simp [Fixlet.step, ho, hg]) rfl rfl (by simp [opened])

/-! ## What is reported -/

/-- The two reports on an answer are told of the session whose text the fixlet has. -/
theorem told_answer {ctx : TurnContext} {b : SessionBook} (stepId : String) (m : Input) {text : String}
    (ht : b.taskId = ctx.taskId) (hk : b.turnId = ctx.turnId) (htext : text = String.join b.texts) :
    b.Told m (ctx.llmCompleted stepId m.usage) ∧ b.Told m (ctx.turnExecutionDone text) := by
  refine ⟨⟨by rw [ht]; rfl, by rw [hk]; rfl, fun h => ?_, fun _ => ?_⟩,
    ⟨by rw [ht]; rfl, by rw [hk]; rfl, fun _ => ?_, fun h => ?_⟩⟩
  · simp [TurnContext.llmCompleted] at h
  · cases hu : m.usage <;> rfl
  · rw [htext]; rfl
  · simp [TurnContext.turnExecutionDone] at h

/-- A report that closes no step well and no turn well. -/
def TaskEnd.Minor (r : TaskEnd) : Prop := r.eventType ≠ "llm_completed" ∧ r.eventType ≠ "turn_execution_done"

/-- If a step makes only minor reports, and no answer with text comes, everything is attributed. -/
theorem attributed_of_minor (reports : List TaskEnd)
    (he : (s.fixlet.step cfg x.input).emitted = s.fixlet.emitted ++ reports) (hminor : ∀ r ∈ reports, r.Minor)
    (hno : ∀ sid b, x.session = some sid → s.sessions.lookup sid = some b → b.answered = false → b.texts ≠ [] →
      x.input.closing ≠ some .final ∧ x.input.closing ≠ some .otherStop) : Attributed cfg s x := by
  have hsince := reportsSince_eq he
  refine ⟨fun r hr ht => ?_, fun sid b hs hb ha hne hc => ?_⟩
  · rw [hsince] at hr
    exact absurd ht (not_or.mpr (hminor r hr))
  · obtain ⟨hfinal, hother⟩ := hno sid b hs hb ha hne
    exact absurd hc (not_or.mpr ⟨hfinal, hother⟩)

/-- A message that closes nothing. -/
theorem closing_ne_of_none {m : Input} (h : m.closing = none) :
    m.closing ≠ some .final ∧ m.closing ≠ some .otherStop := by
  rw [h]
  exact ⟨by simp, by simp⟩

theorem minor_llmInvoked (ctx : TurnContext) (stepId : String) (messages : List Message) :
    (ctx.llmInvoked stepId messages).Minor := by simp [TaskEnd.Minor, TurnContext.llmInvoked]

theorem minor_llmFailed (ctx : TurnContext) (stepId errorType errorMessage : String) :
    (ctx.llmFailed stepId errorType errorMessage).Minor := by simp [TaskEnd.Minor, TurnContext.llmFailed]

theorem minor_turnExecutionError (ctx : TurnContext) (errorType errorMessage : String) :
    (ctx.turnExecutionError errorType errorMessage).Minor := by simp [TaskEnd.Minor, TurnContext.turnExecutionError]

variable (cfg) in
/-- A turn.begin makes no report, or says that there is no process. -/
theorem executeTurn_minor (f : Fixlet) (payload : Json) (spawned : Bool) : ∃ reports,
    (f.executeTurn cfg payload spawned).emitted = f.emitted ++ reports ∧ ∀ r ∈ reports, r.Minor := by
  unfold Fixlet.executeTurn
  cases parseExecuteTurnPayload payload with
  | error e => exact ⟨[], by simp⟩
  | ok turn =>
    dsimp only
    split
    · exact ⟨[], by simp [Fixlet.openSession]⟩
    · split
      · exact ⟨[], by simp [Fixlet.openSession]⟩
      · exact ⟨_, rfl, fun r hr => List.mem_singleton.mp hr ▸ minor_turnExecutionError _ _ _⟩

variable (cfg) in
/-- A line while a session is awaited makes no report, or the one on the step that begins. -/
theorem awaitSession_minor (f : Fixlet) (w : Opening) (json : Option Json) (uuid : String) : ∃ reports,
    (f.awaitSession cfg w json uuid).emitted = f.emitted ++ reports ∧ ∀ r ∈ reports, r.Minor := by
  unfold Fixlet.awaitSession
  split
  · exact ⟨[], by simp⟩
  · split
    · exact ⟨_, rfl, fun r hr => List.mem_singleton.mp hr ▸ minor_llmInvoked _ _ _⟩
    · exact ⟨[], by simp⟩

/-- The exit reports failures. -/
theorem agentExited_minor (f : Fixlet) :
    ∃ reports, f.agentExited.emitted = f.emitted ++ reports ∧ ∀ r ∈ reports, r.Minor := by
  refine ⟨_, rfl, fun r hr => ?_⟩
  cases ha : f.activeTurn with
  | none => simp [ha] at hr
  | some ctx =>
    simp only [ha, List.mem_append, Option.mem_toList, Option.map_eq_some_iff, List.mem_singleton] at hr
    rcases hr with ⟨stepId, -, rfl⟩ | rfl
    · exact minor_llmFailed _ _ _ _
    · exact minor_turnExecutionError _ _ _

/-- A line to the turn that the fixlet works on is attributed to it. -/
theorem RightBooks.attributed_line (h : RightBooks s) {json : Option Json} {uuid : String} {session : Option String}
    (ho : s.fixlet.opening = none) (hg : s.fixlet.agent = true)
    (hown : OwnSession s { input := .line json uuid, session }) :
    Attributed cfg s { input := .line json uuid, session } := by
  obtain ⟨ctx, stepId, sid, b, hp, hc, hb, ht, hk, htexts⟩ := h.serving hg ho
  obtain ⟨hspeaks, hstops⟩ := hown ho hg
  have hother : ∀ sid b, session = some sid → s.sessions.lookup sid = some b → b.answered = false → b.texts ≠ [] →
      (Input.line json uuid).closing ≠ some .otherStop := fun sid b hs hb ha hne hcl =>
    hne (hstops hcl sid hs b hb ha)
  cases hp.reports cfg (m := .line json uuid) rfl with
  | none hno _ he _ =>
    refine attributed_of_minor [] (by simpa using he) (fun r hr => by cases hr) fun sid b hs hb ha hne => ⟨fun hf => ?_,
      hother sid b hs hb ha hne⟩
    simp [Input.closesStep, Input.endsTurn, hf] at hno
  | error message hcl _ he _ =>
    refine attributed_of_minor _ he (fun r hr => List.mem_singleton.mp hr ▸ minor_llmFailed _ _ _ _)
      fun sid b hs hb ha hne => ⟨fun hf => ?_, hother sid b hs hb ha hne⟩
    rw [hf] at hcl
    cases hcl
  | final hcl _ he _ =>
    have hs : session = some sid := (hspeaks (Or.inr hcl)).trans hc
    have htext : s.fixlet.msgAcc.finalize = String.join b.texts := by rw [htexts]; rfl
    have htold := told_answer stepId (.line json uuid) (ht.trans (count_taskId ctx).symm)
      (hk.trans (count_turnId ctx).symm) htext
    have hsince := reportsSince_eq he
    refine ⟨fun r hr _ => ⟨sid, b, hs, hb, ?_⟩, fun sid' b' hs' hb' _ _ _ => ?_⟩
    · rw [hsince] at hr
      rcases List.mem_pair.mp hr with rfl | rfl
      · exact htold.1
      · exact htold.2
    · obtain rfl : sid = sid' := Option.some.inj (hs.symm.trans hs')
      obtain rfl : b = b' := Option.some.inj (hb.symm.trans hb')
      exact ⟨_, by rw [hsince]; exact List.mem_cons_of_mem _ List.mem_cons_self, rfl, htold.2⟩

/-- **Every step in which a turn begins in time and the current session speaks is attributed to the right turn.** -/
theorem RightBooks.attributed (h : RightBooks s) (hown : OwnSession s x) : Attributed cfg s x := by
  obtain ⟨input, session⟩ := x
  have hsame : s.fixlet.step cfg input = s.fixlet → (s.fixlet.step cfg input).emitted = s.fixlet.emitted ++ [] :=
    fun hs => by rw [hs, List.append_nil]
  cases input with
  | turnBegin payload spawned =>
    cases ho : s.fixlet.opening with
    | some w =>
      exact attributed_of_minor [] (hsame (by simp [Fixlet.step, ho])) (fun r hr => by cases hr) fun _ _ _ _ _ _ =>
        closing_ne_of_none rfl
    | none =>
      obtain ⟨reports, he, hm⟩ := executeTurn_minor cfg s.fixlet payload spawned
      exact attributed_of_minor reports (by simpa [Fixlet.step, ho] using he) hm fun _ _ _ _ _ _ =>
        closing_ne_of_none rfl
  | line json uuid =>
    by_cases hg : s.fixlet.agent = true
    · cases ho : s.fixlet.opening with
      | none => exact h.attributed_line ho hg hown
      | some w =>
        obtain ⟨reports, he, hm⟩ := awaitSession_minor cfg s.fixlet w json uuid
        refine attributed_of_minor reports (by simpa [Fixlet.step, ho, hg] using he) hm fun sid b _ hb ha _ => ?_
        have hans := (h.opening w ho).2.2.1 sid (Finmap.mem_keys.mpr (Finmap.mem_iff.mpr ⟨b, hb⟩)) b hb
        rw [ha] at hans
        cases hans
    · have hg' : s.fixlet.agent = false := Bool.eq_false_iff.mpr hg
      refine attributed_of_minor [] (hsame (by simp [Fixlet.step, hg'])) (fun r hr => by cases hr)
        fun sid b _ hb _ _ => ?_
      rw [h.gone hg', Finmap.lookup_empty] at hb
      cases hb
  | stdoutClosed =>
    cases ho : s.fixlet.opening with
    | none =>
      exact attributed_of_minor [] (hsame (by simp [Fixlet.step, ho])) (fun r hr => by cases hr) fun _ _ _ _ _ _ =>
        closing_ne_of_none rfl
    | some w =>
      have hstep : s.fixlet.step cfg .stdoutClosed = s.fixlet.sessionFailed w := by simp [Fixlet.step, ho]
      exact attributed_of_minor _ (by rw [hstep]; rfl)
        (fun r hr => List.mem_singleton.mp hr ▸ minor_turnExecutionError _ _ _) fun _ _ _ _ _ _ =>
        closing_ne_of_none rfl
  | exit =>
    have hno : Input.exit.closing ≠ some .final ∧ Input.exit.closing ≠ some .otherStop := by decide
    by_cases hs : s.fixlet.opening = none ∧ s.fixlet.agent = true
    · obtain ⟨reports, he, hm⟩ := agentExited_minor s.fixlet
      exact attributed_of_minor reports (by simpa [Fixlet.step, hs.1, hs.2] using he) hm fun _ _ _ _ _ _ => hno
    · refine attributed_of_minor [] (hsame ?_) (fun r hr => by cases hr) fun _ _ _ _ _ _ => hno
      cases ho : s.fixlet.opening with
      | some w => simp [Fixlet.step, ho]
      | none =>
        have hg : s.fixlet.agent ≠ true := fun hg => hs ⟨ho, hg⟩
        simp [Fixlet.step, ho, hg]

/-! ## Runs -/

theorem rightBooks_start : RightBooks {} := .of_gone rfl rfl

/-- **In every run in which a turn begins only when all answers are there, and only the current session speaks, all
output is attributed to the right turn and none is lost.** -/
theorem attributed_run (cfg : FixletConfig) {xs : List Spoken} (hm : Meets (Books.step cfg) OwnSession {} xs) :
    Meets (Books.step cfg) (Attributed cfg) {} xs :=
  meets_of_invariant RightBooks (fun _ _ h hown => h.step hown)
    (fun _ _ h hown => h.attributed hown) rightBooks_start hm

instance (sessions : Sessions) : Decidable (AllAnswered sessions) :=
  inferInstanceAs (Decidable (∀ sid ∈ sessions.keys, ∀ b ∈ sessions.lookup sid, b.answered = true))

instance (s : Books) (x : Spoken) : Decidable (OwnSession s x) := by
  unfold OwnSession
  cases x.input <;> infer_instance

/-- A turn of a task begins. -/
def begins (taskId : String) : Spoken :=
  { input := .turnBegin (buildTurnBeginPayload taskId 1 "hi" {} "rg_1" 0 none) true }

/-- The agent opens a session. -/
def opens (sessionId : String) : Spoken :=
  let result : Json := .obj [("sessionId", .str sessionId)]
  { input := .line (some (.obj [("id", .int 1), ("result", result)])) ("step_" ++ sessionId) }

/-- The agent says something in a session. -/
def speaks (sessionId text : String) : Spoken :=
  { input := .line (some (.obj [("method", .str "session/update"), ("params", .obj [("sessionId", .str sessionId),
      ("update", .obj [("sessionUpdate", .str "agent_message_chunk"), ("content", .obj [("text", .str text)])])])])) ""
    session := some sessionId }

/-- The agent answers the prompt of a session. -/
def answers (sessionId : String) : Spoken := { input := answer "end_turn", session := some sessionId }

/-- The output of the turns that are done. -/
def outputs (reports : List TaskEnd) : List (String × Option String) :=
  (reports.filter fun r => r.eventType = "turn_execution_done").map fun r => (r.taskId, r.strField "final_output")

/-- Two tasks, one after the other. -/
def inTurn : List Spoken :=
  [begins "task_1", opens "s1", speaks "s1" "one", answers "s1", begins "task_2", opens "s2",
    speaks "s2" "two", answers "s2"]

/-- The turn of a second task begins before the first one has its answer. -/
def tooEarly : List Spoken :=
  [begins "task_1", opens "s1", speaks "s1" "one", begins "task_2", opens "s2", answers "s1"]

theorem attributed_inTurn : Meets (Books.step plainConfig) (Attributed plainConfig) {} inTurn ∧
    outputs (run (Books.step plainConfig) {} inTurn).fixlet.emitted =
      [("task_1", some "one"), ("task_2", some "two")] :=
  ⟨attributed_run plainConfig (by decide), by decide⟩

/-- A turn that begins too early gets the answer of another one, whose text is lost. -/
theorem answer_to_wrong_turn : ¬ Meets (Books.step plainConfig) (Attributed plainConfig) {} tooEarly ∧
    outputs (run (Books.step plainConfig) {} tooEarly).fixlet.emitted = [("task_2", some "")] := by
  refine ⟨fun h => ?_, by decide⟩
  obtain ⟨-, -, -, -, -, hlast, -⟩ := h
  have hreport : (reportsSince (run (Books.step plainConfig) {} (tooEarly.take 5)).fixlet
      (run (Books.step plainConfig) {} tooEarly).fixlet).any (fun r => r.eventType = "turn_execution_done" &&
        r.strField "task_id" = some "task_2") = true := by decide
  have hbook : ((run (Books.step plainConfig) {} (tooEarly.take 5)).sessions.lookup "s1").map SessionBook.taskId =
      some "task_1" := by decide
  obtain ⟨r, hr, hdone⟩ := List.any_eq_true.mp hreport
  simp only [Bool.and_eq_true, decide_eq_true_eq] at hdone
  obtain ⟨sid, b, hs, hb, htold⟩ := hlast.own r hr (Or.inr hdone.1)
  obtain rfl : "s1" = sid := Option.some.inj hs
  -- the report is on the turn of the second task, and its session belongs to the first one
  have hb' : (run (Books.step plainConfig) {} (tooEarly.take 5)).sessions.lookup "s1" = some b := hb
  rw [hb'] at hbook
  have htask := htold.taskId.symm.trans hdone.2
  rw [Option.some.inj hbook] at htask
  exact absurd htask (by decide)

end Fixus
