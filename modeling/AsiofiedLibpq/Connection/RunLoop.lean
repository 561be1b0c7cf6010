import AsiofiedLibpq.Connection.Delivery

set_option autoImplicit false

/-!
# The two halves of `async_run`

Invariants of the run loop over every run. The writer is never left on
`write_cv_` with output pending, provided `async_run` started before the first
exec and every submission's calls succeed. The reader is never left on the socket
with results already in the session, provided no call on the send path reads
input; `PQflush` that does read strands them. Completing `async_run` does not
touch `result_handlers_`: only `~connection` cancels the handlers, and then every
exec still pending on its handler completes with `connection_failed`.
-/

namespace AsiofiedLibpq.Connection

open Session

theorem Writer.cancel_ne_idle (w : Writer) : w.cancel ≠ .idle := by
  cases w <;> simp [Writer.cancel]

theorem Writer.notify_ne_idle (w : Writer) : w.notify ≠ .idle := by
  cases w <;> simp [Writer.notify]

theorem Reader.cancel_ne_waitRead (r : Reader) : r.cancel ≠ .waitRead := by
  cases r <;> simp [Reader.cancel]

namespace Loop

@[simp] theorem finish_writer (l : Loop) : l.finish.1.writer = l.writer := by
  unfold finish; split <;> rfl

@[simp] theorem finish_reader (l : Loop) : l.finish.1.reader = l.reader := by
  unfold finish; split <;> rfl

/-- Settling never puts the writer back on `write_cv_`. -/
theorem settle_writer {l : Loop} (h : l.settle.1.writer = .idle) : l.writer = .idle := by
  unfold settle at h
  rw [finish_writer] at h
  split_ifs at h
  · exact absurd h (Writer.cancel_ne_idle _)
  · exact h

/-- Settling never puts the reader back on the socket. -/
theorem settle_reader {l : Loop} (h : l.settle.1.reader = .waitRead) : l.reader = .waitRead := by
  unfold settle at h
  rw [finish_reader] at h
  split_ifs at h
  · exact absurd h (Reader.cancel_ne_waitRead _)
  · exact h

/-- The writer waits on `write_cv_` again only once `PQflush` returned `0`. -/
theorem writerAwait_writer {l : Loop} {ret : Int} (h : (l.writerAwait ret).1.writer = .idle) :
    ret = 0 := by
  unfold writerAwait at h
  split_ifs at h with hc hr
  · cases settle_writer h
  · exact not_not.mp hr

theorem writerAwait_reader {l : Loop} {ret : Int} (h : (l.writerAwait ret).1.reader = .waitRead) :
    l.reader = .waitRead := by
  unfold writerAwait at h
  split_ifs at h
  · exact (settle_reader h :)
  all_goals exact h

theorem readerAwait_writer {l : Loop} (h : l.readerAwait.1.writer = .idle) : l.writer = .idle := by
  unfold readerAwait at h
  split_ifs at h
  · exact (settle_writer h :)
  · exact h

end Loop

namespace Session

@[simp] theorem queue_input (ss : Session) (cmds : List Msg) : (ss.queue cmds).input = ss.input := rfl
@[simp] theorem consume_out (ss : Session) (k : Nat) : (ss.consume k).out = ss.out := rfl
@[simp] theorem serve_out (ss : Session) : ss.serve.out = ss.out := by
  unfold serve; split <;> rfl
@[simp] theorem serve_input (ss : Session) : ss.serve.input = ss.input := by
  unfold serve; split <;> rfl

theorem transmit_input (ss : Session) (sent : Nat) : (ss.transmit sent false).input = ss.input := rfl

theorem pqFlush_input (ss : Session) {f : FlushIO} (hr : f.io.reads = false) :
    (ss.pqFlush f).1.input = ss.input := by
  unfold pqFlush; split <;> simp [hr, transmit_input]

/-- `PQflush` returns `0` only once the output buffer is empty. -/
theorem pqFlush_out (ss : Session) (f : FlushIO) (h : (ss.pqFlush f).2 = 0) :
    (ss.pqFlush f).1.out = [] := by
  unfold pqFlush at h ⊢
  by_cases hf : f.fails
  · simp [hf] at h
  · simp only [hf, Bool.false_eq_true, if_false] at h ⊢
    split_ifs at h with ho
    · exact List.isEmpty_iff.mp ho
    · cases h

end Session

namespace Conn

variable (s : Conn)

/-- The reader's loop leaves the session's other buffers as they were and its input empty. -/
theorem readerLoop_session : s.readerLoop.1.session = { s.session with input := [] } := by
  have hf := (drain_frame { s with session := { s.session with input := [] } } s.session.input).1
  dsimp only [readerLoop]; split_ifs <;> exact hf

theorem readerLoop_writer (h : s.readerLoop.1.loop.writer = .idle) : s.loop.writer = .idle := by
  have hf := (drain_frame { s with session := { s.session with input := [] } } s.session.input).2.1
  dsimp only [readerLoop] at h; split_ifs at h
  · rwa [hf] at h
  · exact Loop.readerAwait_writer (hf ▸ h)

end Conn

section Pending

/-- Every exec awaiting a handler that still waits has that handler queued. -/
def Conn.Pending (s : Conn) : Prop :=
  ∀ e, (s.execs e).phase = .awaiting → (s.execs e).handler.status = .waiting → e ∈ s.resultHandlers

variable {s : Conn}

theorem Conn.Pending.update {s' : Conn} (h : s.Pending) {e : Nat} {x : Exec}
    (he : s'.execs = Function.update s.execs e x) (hq : s.resultHandlers ⊆ s'.resultHandlers)
    (hx : x.phase = .awaiting → x.handler.status = .waiting → e ∈ s'.resultHandlers) :
    s'.Pending := by
  intro e' hp hw
  rw [he] at hp hw
  by_cases hee : e' = e
  · subst hee; rw [Function.update_same] at hp hw; exact hx hp hw
  · rw [Function.update_noteq hee] at hp hw; exact hq (h e' hp hw)

theorem Conn.Pending.handleHead (h : s.Pending) {hd : Nat} {rest : List Nat} (res : Msg)
    (hq : s.resultHandlers = hd :: rest) : (s.handleHead hd rest res).1.Pending := by
  unfold Conn.handleHead; split_ifs with hc
  · intro e hp hw
    by_cases he : e = hd
    · subst he; simp only [Function.update_same] at hw; rw [hc] at hw; cases hw
    · simp only [Function.update_noteq he] at hp hw
      have := hq ▸ h e hp hw
      exact (List.mem_cons.mp this).resolve_left he
  · exact h.update rfl (fun _ he => he) fun _ _ => hq ▸ List.mem_cons_self _ _

theorem Conn.Pending.drain (h : s.Pending) (held : List Msg) : (s.drain held).1.Pending := by
  induction held generalizing s with
  | nil => exact h
  | cons res rest ih =>
    have h₁ : (s.dispatch res).1.Pending := by
      unfold Conn.dispatch; split
      · exact h
      · exact h
      · exact h.handleHead _ ‹_›
    simp only [Conn.drain]; split_ifs
    · exact h₁
    · exact ih h₁

theorem Conn.Pending.readerLoop (h : s.Pending) : s.readerLoop.1.Pending := by
  have h₁ := Conn.Pending.drain (s := { s with session := { s.session with input := [] } }) h
    s.session.input
  dsimp only [Conn.readerLoop]; split_ifs <;> exact h₁

theorem Conn.Pending.destroy (h : s.Pending) : s.destroy.Pending := by
  intro e hp hw
  simp only [Conn.destroy] at hp hw
  split_ifs at hp hw with he
  · simp at hw
  · exact absurd (h e hp hw) he

theorem Conn.Pending.failSubmit (h : s.Pending) (req : Request) (cmds : List Msg) (io : SendIO)
    (rh : Handler) (ec : ErrorCode) : (s.failSubmit req cmds io rh ec).1.Pending :=
  h.update rfl (fun _ he => he) fun hp => by cases hp

theorem Conn.Pending.pushHandler (h : s.Pending) (req : Request) (cmds : List Msg) (io : SendIO)
    (rh : Handler) : (s.pushHandler req cmds io rh).1.Pending :=
  h.update rfl (fun _ he => List.mem_append_left _ he)
    fun _ _ => List.mem_append_right _ (List.mem_singleton_self _)

/-- Every step keeps every waiting handler of an awaiting exec queued. -/
theorem Conn.Pending.step (h : s.Pending) (a : Action) : (s.step a).1.Pending := by
  cases a with
  | startRun => simp only [Conn.step]; split_ifs; exacts [Conn.Pending.readerLoop h, h]
  | asyncQuery sendOk syncOk io =>
    simp only [Conn.step, Conn.asyncQuery]; split_ifs
    all_goals first | exact h | exact h.failSubmit _ _ _ _ _ | exact h.pushHandler _ _ _ _
  | asyncExecPipeline first n accepted syncOk io =>
    simp only [Conn.step, Conn.asyncExecPipeline]; split_ifs
    all_goals first | exact h | exact h.failSubmit _ _ _ _ _ | exact h.pushHandler _ _ _ _
  | readerResume k ok =>
    simp only [Conn.step, Conn.readerResume]; split_ifs
    all_goals first | exact h | exact Conn.Pending.readerLoop h
  | cancelExec e =>
    simp only [Conn.step]; split_ifs
    · exact h.update rfl (fun _ he => he) fun hp => by cases hp
    · exact h
  | resumeExec e =>
    simp only [Conn.step]; split_ifs
    · exact h.update rfl (fun _ he => he) fun hp => by cases hp
    · exact h
  | destroy => simp only [Conn.step]; split_ifs; exacts [h.destroy, h]
  | _ => simp only [Conn.step]; split_ifs <;> exact h

theorem Conn.Pending.run (h : s.Pending) (acts : List Action) : (s.run acts).1.Pending := by
  induction acts generalizing s with
  | nil => exact h
  | cons a acts ih => exact ih (h.step a)

theorem pending_run (acts : List Action) : (Conn.init.run acts).1.Pending :=
  Conn.Pending.run (fun _ hp => by cases hp) acts

end Pending

section Writer

/-- Every call a submission makes succeeds. -/
def Action.Succeeds : Action → Prop
  | .asyncQuery sendOk syncOk _ => sendOk = true ∧ syncOk = true
  | .asyncExecPipeline _ n accepted syncOk _ => n ≤ accepted ∧ syncOk = true
  | _ => True

instance : DecidablePred Action.Succeeds := fun a => by
  cases a <;> unfold Action.Succeeds <;> infer_instance

/-- The writer waits on `write_cv_` with no wake-up pending only while the output
buffer is empty. -/
def Conn.WriterArmed (s : Conn) : Prop := s.loop.writer = .idle → s.session.out = []

variable {s : Conn}

theorem Conn.WriterArmed.of_loop {s' : Conn} (h : s.WriterArmed)
    (hw : s'.loop.writer = .idle → s.loop.writer = .idle) (ho : s'.session.out = s.session.out) :
    s'.WriterArmed :=
  fun hi => ho ▸ h (hw hi)

theorem Conn.WriterArmed.pushHandler (req : Request) (cmds : List Msg) (io : SendIO)
    (rh : Handler) : (s.pushHandler req cmds io rh).1.WriterArmed :=
  fun hi => (Writer.notify_ne_idle _ hi).elim

theorem Conn.WriterArmed.settle {l : Loop} (h : s.WriterArmed) (hl : l.writer = .idle → s.loop.writer = .idle) :
    (s.withLoop l.settle).1.WriterArmed :=
  h.of_loop (fun hi => hl (Loop.settle_writer hi)) rfl

/-- Every step but a restart keeps the writer armed, provided its submission succeeds. -/
theorem Conn.WriterArmed.step (h : s.WriterArmed) {a : Action} (ha : a.Succeeds)
    (hs : a ≠ .startRun) : (s.step a).1.WriterArmed := by
  cases a with
  | startRun => exact absurd rfl hs
  | cancelRun =>
    simp only [Conn.step]; split_ifs
    · exact h.settle fun hi => (Writer.cancel_ne_idle _ hi).elim
    · exact h
  | asyncQuery sendOk syncOk io =>
    obtain ⟨rfl, rfl⟩ := ha
    simp only [Conn.step]; split_ifs; exacts [Conn.WriterArmed.pushHandler _ _ _ _, h]
  | asyncExecPipeline first n accepted syncOk io =>
    obtain ⟨hn, rfl⟩ := ha
    simp only [Conn.step, Conn.asyncExecPipeline, if_neg (Nat.not_lt.mpr hn), Bool.not_true,
      Bool.false_eq_true, if_false]
    split_ifs; exacts [Conn.WriterArmed.pushHandler _ _ _ _, h]
  | writerResume f =>
    simp only [Conn.step]; split_ifs
    · exact fun hi => Session.pqFlush_out _ _ (Loop.writerAwait_writer hi)
    · exact h
  | writerWaitFailed code =>
    simp only [Conn.step]; split_ifs
    · exact h.settle fun hi => by cases hi
    · exact h
  | serve =>
    simp only [Conn.step]; split_ifs
    · exact h.of_loop id (Session.serve_out _)
    · exact h
  | readerWake =>
    simp only [Conn.step]; split_ifs
    · exact h.of_loop id rfl
    · exact h
  | readerWaitFailed code =>
    simp only [Conn.step]; split_ifs
    · exact h.settle id
    · exact h
  | readerResume k ok =>
    simp only [Conn.step, Conn.readerResume]; split_ifs
    · exact h.of_loop (Conn.readerLoop_writer _) (by rw [Conn.readerLoop_session]; rfl)
    · exact h.settle id
    · exact h
  | cancelExec e => simp only [Conn.step]; split_ifs <;> exact h
  | resumeExec e => simp only [Conn.step]; split_ifs <;> exact h
  | destroy => simp only [Conn.step]; split_ifs <;> exact h

theorem Conn.WriterArmed.run (h : s.WriterArmed) {acts : List Action}
    (ha : ∀ a ∈ acts, a.Succeeds ∧ a ≠ .startRun) : (s.run acts).1.WriterArmed := by
  induction acts generalizing s with
  | nil => exact h
  | cons a acts ih =>
    obtain ⟨hs, hr⟩ := ha a (List.mem_cons_self _ _)
    exact ih (h.step hs hr) fun b hb => ha b (List.mem_cons_of_mem _ hb)

/-- With `async_run` started before the first exec, the writer is never left on
`write_cv_` with no wake-up pending while output waits to be sent. -/
theorem writer_armed_run {acts : List Action} (ha : ∀ a ∈ acts, a.Succeeds ∧ a ≠ .startRun) :
    (Conn.init.run (.startRun :: acts)).1.WriterArmed := by
  have h₀ : (Conn.init.step .startRun).1.WriterArmed := fun _ => by decide
  exact h₀.run ha

theorem writer_armed_after_flush :
    (∀ a ∈ [.asyncQuery true true ⟨0, false⟩, .writerResume ⟨false, ⟨1, false⟩⟩,
        .asyncExecPipeline 100 0 0 true ⟨0, false⟩, .writerResume ⟨false, ⟨5, false⟩⟩],
        Action.Succeeds a ∧ a ≠ .startRun) ∧
      (Conn.init.run [.startRun, .asyncQuery true true ⟨0, false⟩,
        .writerResume ⟨false, ⟨1, false⟩⟩, .asyncExecPipeline 100 0 0 true ⟨0, false⟩,
        .writerResume ⟨false, ⟨5, false⟩⟩]).1.WriterArmed :=
  ⟨by decide, writer_armed_run (by decide)⟩

end Writer

section Reader

/-- A call on the send path reads the socket into the session. -/
def Action.ReadsOnSend : Action → Prop
  | .asyncQuery _ _ io => io.reads = true
  | .asyncExecPipeline _ _ _ _ io => io.reads = true
  | .writerResume f => f.io.reads = true
  | _ => False

instance : DecidablePred Action.ReadsOnSend := fun a => by
  cases a <;> unfold Action.ReadsOnSend <;> infer_instance

/-- The reader waits on the socket only while the session holds no result. -/
def Conn.ReaderClear (s : Conn) : Prop := s.loop.reader = .waitRead → s.session.input = []

variable {s : Conn}

theorem Conn.ReaderClear.of_loop {s' : Conn} (h : s.ReaderClear)
    (hr : s'.loop.reader = .waitRead → s.loop.reader = .waitRead)
    (hi : s'.session.input = s.session.input) : s'.ReaderClear :=
  fun hw => hi ▸ h (hr hw)

theorem Conn.ReaderClear.settle {l : Loop} (h : s.ReaderClear)
    (hl : l.reader = .waitRead → s.loop.reader = .waitRead) : (s.withLoop l.settle).1.ReaderClear :=
  h.of_loop (fun hw => hl (Loop.settle_reader hw)) rfl

theorem Conn.ReaderClear.readerLoop (s : Conn) : s.readerLoop.1.ReaderClear := fun _ => by
  rw [Conn.readerLoop_session]

theorem Conn.ReaderClear.failSubmit (h : s.ReaderClear) (req : Request) (cmds : List Msg)
    {io : SendIO} (hio : io.reads = false) (rh : Handler) (ec : ErrorCode) :
    (s.failSubmit req cmds io rh ec).1.ReaderClear :=
  h.of_loop id (by simp [Conn.failSubmit, hio, Session.transmit_input])

theorem Conn.ReaderClear.pushHandler (h : s.ReaderClear) (req : Request) (cmds : List Msg)
    {io : SendIO} (hio : io.reads = false) (rh : Handler) :
    (s.pushHandler req cmds io rh).1.ReaderClear :=
  h.of_loop id (by simp [Conn.pushHandler, hio, Session.transmit_input])

/-- Every step keeps the reader clear, provided the send path reads nothing. -/
theorem Conn.ReaderClear.step (h : s.ReaderClear) {a : Action} (ha : ¬ a.ReadsOnSend) :
    (s.step a).1.ReaderClear := by
  cases a with
  | startRun => simp only [Conn.step]; split_ifs; exacts [Conn.ReaderClear.readerLoop _, h]
  | cancelRun =>
    simp only [Conn.step]; split_ifs
    · exact h.settle fun hw => (Reader.cancel_ne_waitRead _ hw).elim
    · exact h
  | asyncQuery sendOk syncOk io =>
    simp only [Action.ReadsOnSend, Bool.not_eq_true] at ha
    simp only [Conn.step, Conn.asyncQuery]; split_ifs
    all_goals first | exact h | exact h.failSubmit _ _ ha _ _ | exact h.pushHandler _ _ ha _
  | asyncExecPipeline first n accepted syncOk io =>
    simp only [Action.ReadsOnSend, Bool.not_eq_true] at ha
    simp only [Conn.step, Conn.asyncExecPipeline]; split_ifs
    all_goals first | exact h | exact h.failSubmit _ _ ha _ _ | exact h.pushHandler _ _ ha _
  | writerResume f =>
    simp only [Action.ReadsOnSend, Bool.not_eq_true] at ha
    simp only [Conn.step]; split_ifs
    · exact h.of_loop Loop.writerAwait_reader (Session.pqFlush_input _ ha)
    · exact h
  | writerWaitFailed code =>
    simp only [Conn.step]; split_ifs
    · exact h.settle id
    · exact h
  | serve =>
    simp only [Conn.step]; split_ifs
    · exact h.of_loop id (Session.serve_input _)
    · exact h
  | readerWake =>
    simp only [Conn.step]; split_ifs
    · exact fun hw => by cases hw
    · exact h
  | readerWaitFailed code =>
    simp only [Conn.step]; split_ifs
    · exact h.settle fun hw => by cases hw
    · exact h
  | readerResume k ok =>
    simp only [Conn.step, Conn.readerResume]; split_ifs
    · exact Conn.ReaderClear.readerLoop _
    · exact h.settle fun hw => by cases hw
    · exact h
  | cancelExec e => simp only [Conn.step]; split_ifs <;> exact h
  | resumeExec e => simp only [Conn.step]; split_ifs <;> exact h
  | destroy => simp only [Conn.step]; split_ifs <;> exact h

/-- While no call on the send path reads input, the reader waits on the socket
only with nothing left in the session. -/
theorem reader_clear_run {acts : List Action} (ha : ∀ a ∈ acts, ¬ a.ReadsOnSend) :
    (Conn.init.run acts).1.ReaderClear := by
  suffices ∀ s : Conn, s.ReaderClear → (s.run acts).1.ReaderClear from
    this _ fun hw => by cases hw
  induction acts with
  | nil => exact fun _ h => h
  | cons a acts ih =>
    exact fun s h => ih (fun b hb => ha b (List.mem_cons_of_mem _ hb)) _
      (h.step (ha a (List.mem_cons_self _ _)))

theorem reader_clear_partial_flush :
    (∀ a ∈ [.startRun, .asyncQuery true true ⟨0, false⟩, .writerResume ⟨false, ⟨1, false⟩⟩,
        .serve, .writerResume ⟨false, ⟨0, false⟩⟩], ¬ Action.ReadsOnSend a) ∧
      (Conn.init.run [.startRun, .asyncQuery true true ⟨0, false⟩,
        .writerResume ⟨false, ⟨1, false⟩⟩, .serve, .writerResume ⟨false, ⟨0, false⟩⟩]).1.ReaderClear :=
  ⟨by decide, reader_clear_run (by decide)⟩

/-- A `PQflush` that cannot send everything reads the socket: the query's result
moves into the session while the reader waits on the now empty socket. -/
theorem flush_read_strands_result :
    let s := (Conn.init.run [.startRun, .asyncQuery true true ⟨0, false⟩,
      .writerResume ⟨false, ⟨1, false⟩⟩, .serve, .writerResume ⟨false, ⟨0, true⟩⟩]).1
    s.loop.reader = .waitRead ∧ s.session.sock = [] ∧ s.session.input = [.query 0 0] := by
  decide

end Reader

theorem Conn.destroy_execs {s : Conn} {e : Nat} (he : e ∈ s.resultHandlers) :
    s.destroy.execs e = { s.execs e with handler := (s.execs e).handler.cancel } := by
  simp [Conn.destroy, he]

@[simp] theorem Conn.destroy_aborted (s : Conn) : s.destroy.aborted = s.aborted := rfl
@[simp] theorem Conn.destroy_resultHandlers (s : Conn) : s.destroy.resultHandlers = [] := rfl

/-- A run that ends when the readable wait fails, with exec 0 in flight. -/
def endedRun : List Action :=
  [.startRun, .asyncQuery true true ⟨0, false⟩, .readerWaitFailed 104,
    .writerResume ⟨false, ⟨100, false⟩⟩]

/-- After that run has completed, exec 0's handler is still queued and waiting,
and so is the handler of an exec submitted afterwards. -/
theorem run_end_keeps_handlers_waiting :
    let s := (Conn.init.run (endedRun ++ [.asyncQuery true true ⟨0, false⟩])).1
    s.loop.run = .finished .operationAborted ∧ s.resultHandlers = [0, 1] ∧
      (s.execs 0).handler.status = .waiting ∧ (s.execs 1).handler.status = .waiting := by
  decide

/-- `~connection` cancels every queued handler: an exec pending on a handler
that still waits is woken with its handler cancelled, and completes with
`connection_failed`. -/
theorem destroy_releases_pending {acts : List Action} {e : Nat}
    (hl : (Conn.init.run acts).1.live = true)
    (hp : ((Conn.init.run acts).1.execs e).phase = .awaiting)
    (hw : ((Conn.init.run acts).1.execs e).handler.status = .waiting) :
    let s := (Conn.init.run (acts ++ [.destroy])).1
    s.resultHandlers = [] ∧ (s.execs e).handler.status = .cancelled ∧
      (s.step (.resumeExec e)).2 = [.done e .connectionFailed none] := by
  have hs : (Conn.init.run (acts ++ [.destroy])).1 = (Conn.init.run acts).1.destroy := by
    simp [Conn.run_append, Conn.step, hl]
  have hx := Conn.destroy_execs (pending_run acts e hp hw)
  have ha : (Conn.init.run acts).1.aborted = false := by simp_all [Conn.live]
  simp only [hs]
  refine ⟨rfl, by simp [hx], ?_⟩
  simp [Conn.step, Conn.resumeExec, Exec.outcome, hx, hp, ha]

theorem ended_run_destroy_releases :
    (Conn.init.run endedRun).1.live = true ∧
      ((Conn.init.run endedRun).1.execs 0).phase = .awaiting ∧
      ((Conn.init.run endedRun).1.execs 0).handler.status = .waiting ∧
      let s := (Conn.init.run (endedRun ++ [.destroy])).1
      s.resultHandlers = [] ∧ (s.execs 0).handler.status = .cancelled ∧
        (s.step (.resumeExec 0)).2 = [.done 0 .connectionFailed none] :=
  have hl : (Conn.init.run endedRun).1.live = true := by decide
  have hp : ((Conn.init.run endedRun).1.execs 0).phase = .awaiting := by decide
  have hw : ((Conn.init.run endedRun).1.execs 0).handler.status = .waiting := by decide
  ⟨hl, hp, hw, destroy_releases_pending hl hp hw⟩

end AsiofiedLibpq.Connection
