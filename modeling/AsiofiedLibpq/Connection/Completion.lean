import AsiofiedLibpq.Connection.RunLoop

set_option autoImplicit false

/-!
# What `async_run` completes with

`async_run` waits for the first of its halves to complete, has the parallel group cancel
both, and once both have completed returns `ec1 ? ec1 : ec2`: the writer's error if it has
one, else the reader's. A cancelled writer always has one. Cancelled on `write_cv_`, it takes
the `operation_aborted` for a wake-up, flushes, and its next `co_await` completes it with
`operation_aborted`; cancelled on the socket, it returns that error at once. So the order
of completion decides nothing: `async_run` completes with the writer's error, which is
`operation_aborted` whenever the reader failed first.

The writer's flush loop `while (PQflush(...))` reads `-1` as "bytes remain": after a failed
flush it waits for writability and calls `PQflush` again.
-/

namespace AsiofiedLibpq.Connection

open Session

/-- The error `async_run` completed with, for its completion event. -/
def Event.runResult : Event → Option ErrorCode
  | .runDone ec => some ec
  | _ => none

/-- The completions of `async_run` in a trace, in order. -/
def runsOf (tr : List Event) : List ErrorCode := tr.filterMap Event.runResult

/-- What `async_run` completed with: its first completion in the trace. -/
def runResult (tr : List Event) : Option ErrorCode := (runsOf tr).head?

@[simp] theorem runsOf_nil : runsOf [] = [] := rfl
@[simp] theorem runsOf_append (tr tr' : List Event) :
    runsOf (tr ++ tr') = runsOf tr ++ runsOf tr' := List.filterMap_append _ _ _
@[simp] theorem runsOf_cons (ev : Event) (tr : List Event) :
    runsOf (ev :: tr) = ev.runResult.toList ++ runsOf tr := by
  cases h : ev.runResult <;> simp [runsOf, List.filterMap_cons, h]

theorem runResult_of_runsOf_nil {tr tr' : List Event} (h : runsOf tr = []) :
    runResult (tr ++ tr') = runResult tr' := by
  simp [runResult, h]

theorem runResult_of_runsOf_single {tr tr' : List Event} {ec : ErrorCode} (h : runsOf tr = [ec]) :
    runResult (tr ++ tr') = some ec := by
  simp [runResult, h]

section Reader

theorem runsOf_handleEvents (h : Nat) (addr : Option Nat) (m : Msg) :
    runsOf (Conn.handleEvents h addr m) = [] := by
  cases addr <;> rfl

theorem runsOf_dispatch (s : Conn) (m : Msg) : runsOf (s.dispatch m).2 = [] := by
  unfold Conn.dispatch
  split
  · rfl
  · rfl
  · unfold Conn.handleHead
    split_ifs <;> simp [runsOf_handleEvents, Event.runResult]

/-- The reader's inner loop emits no completion of `async_run`. -/
theorem runsOf_drain (s : Conn) (held : List Msg) : runsOf (s.drain held).2 = [] := by
  induction held generalizing s with
  | nil => rfl
  | cons m rest ih =>
    simp only [Conn.drain]
    split
    · exact runsOf_dispatch s m
    · simp [runsOf_dispatch, ih]

end Reader

namespace Loop

@[simp] theorem finish_cancelling (l : Loop) : l.finish.1.cancelling = l.cancelling := by
  unfold finish; split <;> rfl

@[simp] theorem finish_run_ne_running {l : Loop} (h : l.run ≠ .running) : l.finish = (l, []) := by
  unfold finish; split
  · exact absurd ‹l.run = _› h
  · rfl

/-- Once a half has completed, the group has cancelled both. -/
theorem settle_cancelling (l : Loop) :
    l.settle.1.cancelling = (l.cancelling || Writer.isDone l.writer || Reader.isDone l.reader) := by
  unfold settle
  cases hc : l.cancelling <;> cases hw : Writer.isDone l.writer <;>
    cases hr : Reader.isDone l.reader <;> simp [hc, hw, hr, cancelHalves]

/-- After the parallel group has cancelled both halves and before `async_run` resumes: the
writer has completed with `ec`, or will complete with `operation_aborted` at its next
resumption; the reader has completed or will at its next resumption; one of them has not. -/
structure Cancelled (l : Loop) (ec : ErrorCode) : Prop where
  running : l.run = .running
  cancelling : l.cancelling = true
  writer : l.writer = .done ec ∨ l.writer = .woken ∧ ec = .operationAborted
  reader : l.reader = .woken ∨ ∃ e, l.reader = .done e
  pending : l.writer = .woken ∨ l.reader = .woken
  failed : ec ≠ .success

/-- What a step of a cancelled `async_run` leaves: still cancelled with no completion, or
`async_run` completed with `ec`. -/
def Settles (ec : ErrorCode) (r : Loop × List Event) : Prop :=
  runsOf r.2 = [] ∧ r.1.Cancelled ec ∨ runsOf r.2 = [ec]

theorem Cancelled.stay {l l' : Loop} {ec : ErrorCode} {evs : List Event} (h : l.Cancelled ec)
    (hl : l' = l) (he : runsOf evs = []) : Settles ec (l', evs) :=
  .inl ⟨he, hl ▸ h⟩

/-- Settling a cancelled loop whose writer owes `ec`: `async_run` resumes, with `ec`, once
both halves have completed. -/
theorem settles_of {l : Loop} {ec : ErrorCode} (hr : l.run = .running) (hc : l.cancelling = true)
    (hw : l.writer = .done ec ∨ l.writer = .woken ∧ ec = .operationAborted)
    (hd : l.reader = .woken ∨ ∃ e, l.reader = .done e) (hf : ec ≠ .success) :
    Settles ec l.settle := by
  obtain ⟨w, r, run, c⟩ := l
  simp only at hr hc hw hd
  subst hr hc
  rcases hw with rfl | ⟨rfl, rfl⟩ <;> rcases hd with rfl | ⟨e, rfl⟩
  · exact .inl ⟨rfl, rfl, rfl, .inl rfl, .inl rfl, .inr rfl, hf⟩
  · exact .inr (by simp [settle, finish, hf, Event.runResult])
  · exact .inl ⟨rfl, rfl, rfl, .inr ⟨rfl, rfl⟩, .inl rfl, .inl rfl, hf⟩
  · exact .inl ⟨rfl, rfl, rfl, .inr ⟨rfl, rfl⟩, .inr ⟨e, rfl⟩, .inl rfl, hf⟩

/-- The first half to complete has the group cancel both. -/
theorem settle_first {l : Loop} (hc : l.cancelling = false)
    (h : (Writer.isDone l.writer || Reader.isDone l.reader) = true) : l.settle = l.cancelHalves.settle := by
  simp [settle, hc, h, cancelHalves]

/-- The reader completes first: the cancelled writer completes with `operation_aborted`, at
once if it was on the socket, else at its next resumption. -/
theorem settles_reader_first {l : Loop} {e : ErrorCode} (hr : l.run = .running)
    (hc : l.cancelling = false) (hw : l.writer = .idle ∨ l.writer = .woken ∨ l.writer = .waitWrite) :
    Settles .operationAborted { l with reader := .done e }.settle := by
  rw [settle_first (l := { l with reader := .done e }) hc (by simp [Reader.isDone])]
  refine settles_of hr rfl ?_ (.inr ⟨e, rfl⟩) (by decide)
  rcases hw with hw | hw | hw <;> simp [cancelHalves, hw, Writer.cancel]

/-- The writer's writable wait fails first: `async_run` completes with that error, once the
cancelled reader has completed. -/
theorem settles_writer_first {l : Loop} {code : Nat} (hr : l.run = .running)
    (hc : l.cancelling = false) (hd : l.reader = .waitRead ∨ l.reader = .woken) :
    Settles (.io code) { l with writer := .done (.io code) }.settle := by
  rw [settle_first (l := { l with writer := .done (.io code) }) hc (by simp [Writer.isDone])]
  refine settles_of hr rfl (.inl rfl) ?_ (fun h => by cases h)
  rcases hd with hd | hd <;> simp [cancelHalves, hd, Reader.cancel]

theorem Cancelled.notify {l : Loop} {ec : ErrorCode} (h : l.Cancelled ec) :
    { l with writer := l.writer.notify } = l := by
  obtain ⟨w, r, run, c⟩ := l
  rcases h.writer with hw | ⟨hw, -⟩ <;> (simp only at hw; subst hw; rfl)

theorem Cancelled.cancelHalves {l : Loop} {ec : ErrorCode} (h : l.Cancelled ec) :
    l.cancelHalves = l := by
  obtain ⟨w, r, run, c⟩ := l
  obtain ⟨-, hc, hw, hd, -, -⟩ := h
  simp only at hc hw hd
  subst hc
  rcases hw with rfl | ⟨rfl, -⟩ <;> rcases hd with rfl | ⟨e, rfl⟩ <;> rfl

/-- With one half still to resume, settling again changes nothing. -/
theorem Cancelled.settle {l : Loop} {ec : ErrorCode} (h : l.Cancelled ec) : l.settle = (l, []) := by
  obtain ⟨w, r, run, c⟩ := l
  obtain ⟨hr, hc, -, -, hp, -⟩ := h
  simp only at hr hc hp
  subst hr hc
  rcases hp with rfl | rfl <;> simp only [Loop.settle, Bool.not_true, Bool.false_and] <;>
    first | rfl | (cases w <;> rfl)

end Loop

/-- The reader's loop either stops the process at its `assert`, or drains and then does what
`readerAwait` does; it completes no `async_run` on its own. -/
theorem Conn.readerLoop_cases (s : Conn) :
    ((s.readerLoop).1.aborted = true ∧ (s.readerLoop).1.loop = s.loop ∧ runsOf (s.readerLoop).2 = []) ∨
      ((s.readerLoop).1.loop = s.loop.readerAwait.1 ∧
        runsOf (s.readerLoop).2 = runsOf s.loop.readerAwait.2) := by
  have hf := (drain_frame { s with session := { s.session with input := [] } } s.session.input).2.1
  dsimp only [Conn.readerLoop]
  split_ifs with ha
  · exact .inl ⟨ha, hf, runsOf_drain _ _⟩
  · exact .inr ⟨by simp [Conn.withLoop, hf], by simp [Conn.withLoop, hf, runsOf_drain]⟩

namespace Loop

/-- The reader's `co_await` on the socket: it suspends there, or, once the group has
cancelled, completes and leaves the group cancelled. -/
theorem readerAwait_cases (l : Loop) :
    l.readerAwait.1.cancelling = true ∨ l.readerAwait.1 = { l with reader := .waitRead } := by
  unfold readerAwait
  split_ifs with hc
  · exact .inl (by simp [settle_cancelling, hc])
  · exact .inr rfl

theorem writerAwait_cases (l : Loop) (ret : Int) :
    (l.writerAwait ret).1.cancelling = true ∨
      (l.writerAwait ret).1 = { l with writer := if ret ≠ 0 then .waitWrite else .idle } := by
  unfold writerAwait
  by_cases hc : l.cancelling
  · rw [if_pos hc]
    exact .inl (by simp [settle_cancelling, hc])
  · rw [if_neg hc]
    exact .inr rfl

end Loop

section Active

/-- While `async_run` runs and nothing has been cancelled, neither half has completed: each
is suspended, or about to resume. -/
def Conn.Active (s : Conn) : Prop :=
  s.live = true → s.loop.run = .running → s.loop.cancelling = false →
    (s.loop.writer = .idle ∨ s.loop.writer = .woken ∨ s.loop.writer = .waitWrite) ∧
      (s.loop.reader = .waitRead ∨ s.loop.reader = .woken)

variable {s : Conn}

theorem Conn.Active.of_cancelling {s' : Conn} (hc : s'.loop.cancelling = true) : s'.Active :=
  fun _ _ h => absurd (hc.symm.trans h) (by decide)

theorem Conn.Active.of_loop {s' : Conn} (h : s.Active) (hl : s'.live = true → s.live = true)
    (hloop : s'.loop = s.loop) : s'.Active := fun hl' => hloop ▸ h (hl hl')

/-- A half's completion has the group cancel. -/
theorem Conn.Active.settle {s' : Conn} {l : Loop} (hs : s'.loop = l.settle.1)
    (hd : (l.cancelling || Loop.Writer.isDone l.writer || Loop.Reader.isDone l.reader) = true) :
    s'.Active :=
  .of_cancelling (by rw [hs, Loop.settle_cancelling, hd])

/-- The reader's loop leaves it on the socket, or stops the process, or completes it after
the group has cancelled. -/
theorem Conn.Active.readerLoop
    (hw : s.loop.run = .running → s.loop.cancelling = false →
      s.loop.writer = .idle ∨ s.loop.writer = .woken ∨ s.loop.writer = .waitWrite) :
    s.readerLoop.1.Active := by
  rcases Conn.readerLoop_cases s with ⟨ha, -, -⟩ | ⟨hl, -⟩
  · intro hlive; simp [Conn.live, ha] at hlive
  · rcases Loop.readerAwait_cases s.loop with hc | he
    · exact .of_cancelling (hl ▸ hc)
    · intro _ hr hc
      rw [hl, he] at hr hc ⊢
      exact ⟨hw hr hc, .inl rfl⟩

/-- Every step keeps `async_run`'s halves uncompleted until the group cancels. -/
theorem Conn.Active.step (h : s.Active) (a : Action) : (s.step a).1.Active := by
  cases a with
  | startRun =>
    simp only [Conn.step]; split_ifs
    · exact Conn.Active.readerLoop fun _ _ => .inl rfl
    · exact h
  | cancelRun =>
    simp only [Conn.step]; split_ifs
    · exact .settle rfl (by simp [Loop.cancelHalves])
    · exact h
  | asyncQuery sendOk syncOk io =>
    simp only [Conn.step, Conn.asyncQuery]; split_ifs
    all_goals first
      | exact h.of_loop id rfl
      | exact fun hl hr hc => by
          obtain ⟨hw, hd⟩ := h hl hr hc
          refine ⟨?_, hd⟩
          rcases hw with hw | hw | hw <;> simp [Conn.pushHandler, hw, Writer.notify]
  | asyncExecPipeline first n accepted syncOk io =>
    simp only [Conn.step, Conn.asyncExecPipeline]; split_ifs
    all_goals first
      | exact h.of_loop id rfl
      | exact fun hl hr hc => by
          obtain ⟨hw, hd⟩ := h hl hr hc
          refine ⟨?_, hd⟩
          rcases hw with hw | hw | hw <;> simp [Conn.pushHandler, hw, Writer.notify]
  | writerResume f =>
    simp only [Conn.step]; split_ifs
    · simp only [Conn.writerResume, Conn.withLoop]
      rcases Loop.writerAwait_cases s.loop (s.session.pqFlush f).2 with hc | he
      · exact .of_cancelling hc
      · intro hl hr hc
        rw [he] at hr hc ⊢
        refine ⟨by split_ifs <;> simp, (h hl hr hc).2⟩
    · exact h
  | writerWaitFailed code =>
    simp only [Conn.step]; split_ifs
    · exact .settle rfl (by simp [Loop.Writer.isDone])
    · exact h
  | serve => simp only [Conn.step]; split_ifs <;> exact h.of_loop id rfl
  | readerWake =>
    simp only [Conn.step]; split_ifs
    · exact fun hl hr hc => ⟨(h hl hr hc).1, .inr rfl⟩
    · exact h
  | readerWaitFailed code =>
    simp only [Conn.step]; split_ifs
    · exact .settle rfl (by simp [Loop.Reader.isDone])
    · exact h
  | readerResume k ok =>
    simp only [Conn.step]; split_ifs with hg
    · cases ok
      · exact .settle rfl (by simp [Loop.Reader.isDone])
      · exact Conn.Active.readerLoop fun hr hc =>
          (h (by simp_all [Conn.live]) hr hc).1
    · exact h
  | cancelExec e => simp only [Conn.step]; split_ifs <;> exact h.of_loop id rfl
  | resumeExec e => simp only [Conn.step]; split_ifs <;> exact h.of_loop id rfl
  | destroy =>
    simp only [Conn.step]; split_ifs
    · intro hl; simp [Conn.live, Conn.destroy] at hl
    · exact h

theorem Conn.active_run (acts : List Action) : (Conn.init.run acts).1.Active := by
  suffices ∀ s : Conn, s.Active → (s.run acts).1.Active from this _ fun _ hr => by cases hr
  induction acts with
  | nil => exact fun _ h => h
  | cons a acts ih => exact fun s h => ih _ (h.step a)

end Active

section Cancelled

variable {s : Conn} {ec : ErrorCode}

/-- Every step of a cancelled `async_run` leaves it cancelled, or completes it with `ec`: only
the resumption of the half still pending can complete it. -/
theorem Conn.cancelled_step (h : s.loop.Cancelled ec) (a : Action) :
    Loop.Settles ec ((s.step a).1.loop, (s.step a).2) := by
  have hr := h.running
  have hc := h.cancelling
  cases a with
  | startRun => exact h.stay (by simp [Conn.step, hr]) (by simp [Conn.step, hr])
  | cancelRun =>
    simp only [Conn.step]; split_ifs
    · exact h.stay (by simp [Conn.withLoop, h.cancelHalves, h.settle]) (by
        simp [Conn.withLoop, h.cancelHalves, h.settle])
    · exact h.stay rfl rfl
  | asyncQuery sendOk syncOk io =>
    simp only [Conn.step, Conn.asyncQuery]; split_ifs
    all_goals first
      | exact h.stay rfl (by simp [Conn.failSubmit, Event.runResult])
      | exact h.stay h.notify (by simp [Conn.pushHandler, Event.runResult])
  | asyncExecPipeline first n accepted syncOk io =>
    simp only [Conn.step, Conn.asyncExecPipeline]; split_ifs
    all_goals first
      | exact h.stay rfl (by simp [Conn.failSubmit, Event.runResult])
      | exact h.stay h.notify (by simp [Conn.pushHandler, Event.runResult])
  | writerResume f =>
    rcases h.writer with hw | ⟨hw, rfl⟩
    · exact h.stay (by simp [Conn.step, hw]) (by simp [Conn.step, hw])
    · simp only [Conn.step]; split_ifs
      · simp only [Conn.writerResume, Conn.withLoop, Loop.writerAwait]
        rw [if_pos hc]
        exact Loop.settles_of (l := { s.loop with writer := .done .operationAborted }) hr hc
          (.inl rfl) h.reader h.failed
      · exact h.stay rfl rfl
  | writerWaitFailed code =>
    rcases h.writer with hw | ⟨hw, -⟩ <;> exact h.stay (by simp [Conn.step, hw]) (by simp [Conn.step, hw])
  | serve => simp only [Conn.step]; split_ifs <;> exact h.stay rfl rfl
  | readerWake =>
    rcases h.reader with hd | ⟨e, hd⟩ <;> exact h.stay (by simp [Conn.step, hd]) (by simp [Conn.step, hd])
  | readerWaitFailed code =>
    rcases h.reader with hd | ⟨e, hd⟩ <;> exact h.stay (by simp [Conn.step, hd]) (by simp [Conn.step, hd])
  | readerResume k ok =>
    rcases h.reader with hd | ⟨e, hd⟩
    · simp only [Conn.step]; split_ifs
      · cases ok
        · simp only [Conn.readerResume, Conn.withLoop, Bool.false_eq_true, if_false]
          exact Loop.settles_of (l := { s.loop with reader := .done .pqconsumeinputFailed }) hr hc
            h.writer (.inr ⟨_, rfl⟩) h.failed
        · simp only [Conn.readerResume, if_true]
          rcases Conn.readerLoop_cases { s with session := s.session.consume k } with
            ⟨-, hl, he⟩ | ⟨hl, he⟩
          · exact h.stay hl he
          · rw [Loop.readerAwait, if_pos hc] at hl he
            rcases Loop.settles_of (l := { s.loop with reader := .done .operationAborted }) hr hc
              h.writer (.inr ⟨_, rfl⟩) h.failed with ⟨he', hl'⟩ | he'
            · exact .inl ⟨he.trans he', hl ▸ hl'⟩
            · exact .inr (he.trans he')
      · exact h.stay rfl rfl
    · exact h.stay (by simp [Conn.step, hd]) (by simp [Conn.step, hd])
  | cancelExec e =>
    simp only [Conn.step]; split_ifs <;> exact h.stay rfl (by simp [Conn.cancelExec, Event.runResult])
  | resumeExec e =>
    simp only [Conn.step]; split_ifs <;> exact h.stay rfl (by simp [Conn.resumeExec, Event.runResult])
  | destroy => simp only [Conn.step]; split_ifs <;> exact h.stay rfl rfl

/-- From a cancelled `async_run`, whatever runs next, its first completion is with `ec`. -/
theorem Conn.cancelled_run (h : s.loop.Cancelled ec) (post : List Action) {r : ErrorCode}
    (hr : runResult (s.run post).2 = some r) : r = ec := by
  induction post generalizing s with
  | nil => cases hr
  | cons a post ih =>
    rw [Conn.run_cons] at hr
    rcases Conn.cancelled_step h a with ⟨he, h'⟩ | he
    · rw [runResult_of_runsOf_nil he] at hr
      exact ih h' hr
    · rw [runResult_of_runsOf_single he] at hr
      exact (Option.some.inj hr).symm

/-- A step that settles `async_run` on `ec` decides its first completion, whatever runs next. -/
theorem Conn.settles_run {a : Action} (h : Loop.Settles ec ((s.step a).1.loop, (s.step a).2))
    (post : List Action) {r : ErrorCode} (hr : runResult (s.run (a :: post)).2 = some r) :
    r = ec := by
  rw [Conn.run_cons] at hr
  rcases h with ⟨he, h'⟩ | he
  · rw [runResult_of_runsOf_nil he] at hr
    exact Conn.cancelled_run h' post hr
  · rw [runResult_of_runsOf_single he] at hr
    exact (Option.some.inj hr).symm

/-- The writer still to resume after the reader has completed: its resumption completes
`async_run`, with `operation_aborted`. -/
theorem Conn.cancelled_writerResume (h : s.loop.Cancelled ec) (hl : s.live = true)
    (hw : s.loop.writer = .woken) {e : ErrorCode} (hd : s.loop.reader = .done e) (f : FlushIO) :
    runsOf (s.step (.writerResume f)).2 = [ec] := by
  obtain ⟨-, rfl⟩ := h.writer.resolve_left (by rw [hw]; exact fun h => by cases h)
  simp [Conn.step, hl, hw, Conn.writerResume, Conn.withLoop, Loop.writerAwait, h.cancelling,
    Loop.settle, Loop.finish, h.running, hd, Event.runResult]

end Cancelled

section FirstFailure

/-- The failures that complete the reader of `async_run`: its readable wait, or
`PQconsumeInput`; with the error the reader completes with. -/
def Conn.readerFailure (s : Conn) : Action → Option ErrorCode
  | .readerWaitFailed code => if s.loop.reader = .waitRead then some (.io code) else none
  | .readerResume _ false => if s.loop.reader = .woken then some .pqconsumeinputFailed else none
  | _ => none

/-- The failure that completes the writer of `async_run`: its writable wait. -/
def Conn.writerFailure (s : Conn) : Action → Option ErrorCode
  | .writerWaitFailed code => if s.loop.writer = .waitWrite then some (.io code) else none
  | _ => none

variable {s : Conn}

/-- The reader fails first: the group cancels the writer, which completes with
`operation_aborted`, and the reader stays completed with its error. -/
theorem Conn.readerFailure_settles {a : Action} {e : ErrorCode} (hl : s.live = true)
    (hr : s.loop.run = .running) (hc : s.loop.cancelling = false) (hact : s.Active)
    (ha : s.readerFailure a = some e) :
    Loop.Settles .operationAborted ((s.step a).1.loop, (s.step a).2) ∧
      (s.step a).1.loop.reader = .done e ∧ (s.step a).1.live = true := by
  have hw := (hact hl hr hc).1
  have hreader : ∀ l : Loop, l.cancelling = false →
      (({ l with reader := .done e } : Loop).cancelHalves.settle).1.reader = .done e := by
    intro l hc'
    unfold Loop.settle
    rw [if_neg (by simp [Loop.cancelHalves])]
    unfold Loop.finish; split <;> rfl
  cases a with
  | readerWaitFailed code =>
    simp only [Conn.readerFailure] at ha
    split_ifs at ha with hd
    cases ha
    rw [Conn.step, if_pos (by simp [hl, hd])]
    refine ⟨Loop.settles_reader_first hr hc hw, ?_, hl⟩
    rw [Conn.withLoop, Loop.settle_first (l := { s.loop with reader := .done (.io code) }) hc
      (by simp [Loop.Reader.isDone])]
    exact hreader _ hc
  | readerResume k ok =>
    cases ok
    · simp only [Conn.readerFailure] at ha
      split_ifs at ha with hd
      cases ha
      rw [Conn.step, if_pos (by simp [hl, hd]), Conn.readerResume, if_neg Bool.false_ne_true]
      refine ⟨Loop.settles_reader_first hr hc hw, ?_, hl⟩
      rw [Conn.withLoop, Loop.settle_first
        (l := { s.loop with reader := .done .pqconsumeinputFailed }) hc (by simp [Loop.Reader.isDone])]
      exact hreader _ hc
    · cases ha
  | _ => cases ha

theorem Conn.writerFailure_settles {a : Action} {e : ErrorCode} (hl : s.live = true)
    (hr : s.loop.run = .running) (hc : s.loop.cancelling = false) (hact : s.Active)
    (ha : s.writerFailure a = some e) :
    Loop.Settles e ((s.step a).1.loop, (s.step a).2) := by
  cases a with
  | writerWaitFailed code =>
    simp only [Conn.writerFailure] at ha
    split_ifs at ha with hw
    cases ha
    rw [Conn.step, if_pos (by simp [hl, hw])]
    exact Loop.settles_writer_first hr hc (hact hl hr hc).2
  | _ => cases ha

end FirstFailure

/-- `async_run` completes with the writer's error, whichever half fails first. When the
reader fails first, with an error of its readable wait or with `pqconsumeinput_failed`, the
cancelled writer completes with `operation_aborted`, and so does `async_run`: at the writer's
next resumption at the latest, and never with the reader's error. When the writer's writable
wait fails first, `async_run` completes with that error. -/
theorem run_result_is_writer_error {pre : List Action}
    (hl : (Conn.init.run pre).1.live = true) (hr : (Conn.init.run pre).1.loop.run = .running)
    (hc : (Conn.init.run pre).1.loop.cancelling = false) :
    (∀ a e, (Conn.init.run pre).1.readerFailure a = some e →
      (∀ f, runResult ((Conn.init.run pre).1.run [a, .writerResume f]).2 = some .operationAborted) ∧
      ∀ post r, runResult ((Conn.init.run pre).1.run (a :: post)).2 = some r →
        r = .operationAborted) ∧
    ∀ a e, (Conn.init.run pre).1.writerFailure a = some e →
      ∀ post r, runResult ((Conn.init.run pre).1.run (a :: post)).2 = some r → r = e := by
  have hact := Conn.active_run pre
  refine ⟨fun a e ha => ?_, fun a e ha => Conn.settles_run (Conn.writerFailure_settles hl hr hc hact ha)⟩
  obtain ⟨hs, hd, hl'⟩ := Conn.readerFailure_settles hl hr hc hact ha
  refine ⟨fun f => ?_, Conn.settles_run hs⟩
  rw [Conn.run_cons, Conn.run_cons, Conn.run_nil]
  rcases hs with ⟨he, h'⟩ | he
  · rw [runResult_of_runsOf_nil he, List.append_nil, runResult,
      Conn.cancelled_writerResume h' hl'
        (h'.pending.resolve_right (by rw [hd]; exact fun h => by cases h)) hd]
    rfl
  · rw [runResult_of_runsOf_single he]

/-- Just after `async_run` starts, the readable wait fails with error 104: `async_run`
completes with `operation_aborted` as soon as the writer resumes. -/
theorem reader_failure_run_aborted :
    (Conn.init.run [.startRun]).1.live = true ∧ (Conn.init.run [.startRun]).1.loop.run = .running ∧
      (Conn.init.run [.startRun]).1.loop.cancelling = false ∧
      (Conn.init.run [.startRun]).1.readerFailure (.readerWaitFailed 104) = some (.io 104) ∧
      runResult ((Conn.init.run [.startRun]).1.run
        [.readerWaitFailed 104, .writerResume ⟨false, ⟨0, false⟩⟩]).2 = some .operationAborted :=
  have hl : (Conn.init.run [.startRun]).1.live = true := by decide
  have hr : (Conn.init.run [.startRun]).1.loop.run = .running := by decide
  have hc : (Conn.init.run [.startRun]).1.loop.cancelling = false := by decide
  have ha : (Conn.init.run [.startRun]).1.readerFailure (.readerWaitFailed 104) = some (.io 104) := by
    decide
  ⟨hl, hr, hc, ha, ((run_result_is_writer_error hl hr hc).1 _ _ ha).1 _⟩

/-- A failed `PQflush` does not end the writer: `while (PQflush(...))` reads `-1` as "bytes
remain". The writer waits for writability again, with nothing else changed and nothing
emitted, and its next resumption calls `PQflush` again, whatever that call returns. -/
theorem flush_failure_retried {s : Conn} {f : FlushIO} (hl : s.live = true)
    (hc : s.loop.cancelling = false) (hw : s.loop.writer = .woken ∨ s.loop.writer = .waitWrite)
    (hf : f.fails = true) :
    (s.step (.writerResume f)).1 = { s with loop := { s.loop with writer := .waitWrite } } ∧
      (s.step (.writerResume f)).2 = [] ∧
      ∀ f', (s.step (.writerResume f)).1.step (.writerResume f') =
        (s.step (.writerResume f)).1.writerResume f' := by
  have hs : s.step (.writerResume f) = ({ s with loop := { s.loop with writer := .waitWrite } }, []) := by
    rw [Conn.step, if_pos (by rcases hw with hw | hw <;> simp [hl, hw])]
    simp [Conn.writerResume, Session.pqFlush, hf, Loop.writerAwait, hc, Conn.withLoop]
  rw [hs]
  exact ⟨rfl, rfl, fun f' => by rw [Conn.step, if_pos (by simpa [Conn.live] using hl)]⟩

/-- After `async_run` starts and a query wakes the writer, `PQflush` fails: the writer is back
on the socket's writable wait, ready to flush again. -/
theorem failed_flush_rewaits :
    (Conn.init.run [.startRun, .asyncQuery true true ⟨0, false⟩]).1.live = true ∧
      (Conn.init.run [.startRun, .asyncQuery true true ⟨0, false⟩]).1.loop.cancelling = false ∧
      (Conn.init.run [.startRun, .asyncQuery true true ⟨0, false⟩]).1.loop.writer = .woken ∧
      ((Conn.init.run [.startRun, .asyncQuery true true ⟨0, false⟩]).1.step
        (.writerResume ⟨true, ⟨0, false⟩⟩)).1.loop.writer = .waitWrite :=
  have hl : (Conn.init.run [.startRun, .asyncQuery true true ⟨0, false⟩]).1.live = true := by decide
  have hc : (Conn.init.run [.startRun, .asyncQuery true true ⟨0, false⟩]).1.loop.cancelling =
      false := by decide
  have hw : (Conn.init.run [.startRun, .asyncQuery true true ⟨0, false⟩]).1.loop.writer = .woken := by
    decide
  ⟨hl, hc, hw, by rw [(flush_failure_retried hl hc (.inl hw) rfl).1]⟩

end AsiofiedLibpq.Connection
