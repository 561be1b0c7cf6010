import AsiofiedLibpq.Connection.Completion

set_option autoImplicit false

/-!
# `async_run` ends once cancelled

Once the parallel group has cancelled `async_run`'s halves, in every reachable state the
halves still to run are suspended with a completion already pending: the writer woken on
`write_cv_`, the reader woken on the socket. Their resumptions, in either order and
whatever `PQflush` and `PQconsumeInput` return, complete `async_run`, once, unless the
reader's `assert` stops the process first.

The run phase moves only forward between two starts: a step leaves it as it was and
completes nothing, or completes a running `async_run` and leaves it finished.
-/

namespace AsiofiedLibpq.Connection

open Session

namespace Loop

/-- What a step does to `async_run`: it leaves the run phase as it was and completes nothing,
or it completes a running `async_run` and leaves it finished. -/
def Moves (l : Loop) (r : Loop × List Event) : Prop :=
  r.1.run = l.run ∧ runsOf r.2 = [] ∨
    l.run = .running ∧ ∃ ec, r.1.run = .finished ec ∧ runsOf r.2 = [ec]

theorem Moves.stay {l l' : Loop} {evs : List Event} (hl : l'.run = l.run) (he : runsOf evs = []) :
    Moves l (l', evs) :=
  .inl ⟨hl, he⟩

theorem Moves.of_run_eq {l l' : Loop} {r : Loop × List Event} (h : l'.run = l.run)
    (hm : Moves l' r) : Moves l r := by
  rw [Moves, ← h]
  exact hm

theorem Moves.congr {l : Loop} {r r' : Loop × List Event} (hl : r.1.run = r'.1.run)
    (he : runsOf r.2 = runsOf r'.2) (hm : Moves l r') : Moves l r := by
  rw [Moves, hl, he]
  exact hm

theorem finish_moves (l : Loop) : Moves l l.finish := by
  unfold finish
  split
  next hr _ _ => exact .inr ⟨hr, _, rfl, rfl⟩
  next => exact .stay rfl rfl

theorem settle_moves (l : Loop) : Moves l l.settle :=
  (finish_moves _).of_run_eq (by split <;> rfl)

theorem writerAwait_moves (l : Loop) (ret : Int) : Moves l (l.writerAwait ret) := by
  unfold writerAwait
  split
  · exact (settle_moves _).of_run_eq rfl
  · exact .stay rfl rfl

theorem readerAwait_moves (l : Loop) : Moves l l.readerAwait := by
  unfold readerAwait
  split_ifs
  · exact (settle_moves _).of_run_eq rfl
  · exact .stay rfl rfl

/-- A loop that has not been cancelled waits in `readerAwait` without completing. -/
theorem readerAwait_of_not_cancelling {l : Loop} (hc : l.cancelling = false) :
    l.readerAwait = ({ l with reader := .waitRead }, []) := by
  rw [readerAwait, if_neg (by simp [hc])]

/-- A step of a cancelled `async_run` that completes nothing leaves it cancelled. -/
theorem Settles.cancelled {ec : ErrorCode} {l : Loop} {evs : List Event} (h : Settles ec (l, evs))
    (he : runsOf evs = []) : l.Cancelled ec :=
  h.elim (·.2) fun h' => absurd (h'.symm.trans he) (List.cons_ne_nil _ _)

end Loop

section Steps

variable {s : Conn}

theorem Conn.readerLoop_moves (s : Conn) : Loop.Moves s.loop (s.readerLoop.1.loop, s.readerLoop.2) := by
  rcases Conn.readerLoop_cases s with ⟨-, hl, he⟩ | ⟨hl, he⟩
  · exact .stay (by rw [hl]) he
  · exact (Loop.readerAwait_moves s.loop).congr (by rw [hl]) he

/-- Every step but a start leaves the run phase as it was and completes nothing, or completes
a running `async_run` and leaves it finished. -/
theorem Conn.step_moves {a : Action} (ha : a ≠ .startRun) :
    Loop.Moves s.loop ((s.step a).1.loop, (s.step a).2) := by
  cases a with
  | startRun => exact absurd rfl ha
  | cancelRun =>
    simp only [Conn.step]; split_ifs
    · exact (Loop.settle_moves _).of_run_eq rfl
    · exact .stay rfl rfl
  | asyncQuery sendOk syncOk io =>
    simp only [Conn.step, Conn.asyncQuery]; split_ifs <;> exact .stay rfl rfl
  | asyncExecPipeline first n accepted syncOk io =>
    simp only [Conn.step, Conn.asyncExecPipeline]; split_ifs <;> exact .stay rfl rfl
  | writerResume f =>
    simp only [Conn.step]; split_ifs
    · exact Loop.writerAwait_moves _ _
    · exact .stay rfl rfl
  | writerWaitFailed code =>
    simp only [Conn.step]; split_ifs
    · exact (Loop.settle_moves _).of_run_eq rfl
    · exact .stay rfl rfl
  | readerWaitFailed code =>
    simp only [Conn.step]; split_ifs
    · exact (Loop.settle_moves _).of_run_eq rfl
    · exact .stay rfl rfl
  | readerResume k ok =>
    simp only [Conn.step]; split_ifs
    · cases ok
      · exact (Loop.settle_moves _).of_run_eq rfl
      · exact Conn.readerLoop_moves _
    · exact .stay rfl rfl
  | serve | readerWake | cancelExec _ | resumeExec _ | destroy =>
    simp only [Conn.step]; split_ifs <;> exact .stay rfl rfl

/-- A start completes nothing, and leaves the group uncancelled unless the reader's `assert`
stops the process. -/
theorem Conn.startRun_calm (hg : (s.live && s.loop.run != .running) = true) :
    runsOf (s.step .startRun).2 = [] ∧
      ((s.step .startRun).1.live = true → (s.step .startRun).1.loop.cancelling = false) := by
  rw [Conn.step, if_pos hg, Conn.startRun]
  rcases Conn.readerLoop_cases { s with loop := ⟨.idle, .notStarted, .running, false⟩ } with
    ⟨ha, -, he⟩ | ⟨hl, he⟩
  · exact ⟨he, fun hl => by simp [Conn.live, ha] at hl⟩
  · rw [Loop.readerAwait_of_not_cancelling rfl] at hl he
    exact ⟨he, fun _ => by rw [hl]⟩

/-- Once the connection is gone or the process stopped, no step touches `async_run`, and
nothing brings either back. -/
theorem Conn.step_of_not_live (hl : s.live = false) (a : Action) :
    (s.step a).1.aborted = s.aborted ∧ (s.step a).1.destroyed = s.destroyed ∧
      (s.step a).1.loop = s.loop ∧ runsOf (s.step a).2 = [] := by
  cases a <;> simp only [Conn.step, hl, Bool.false_and, Bool.false_eq_true, if_false] <;>
    first | exact ⟨trivial, trivial, trivial, rfl⟩ | (split_ifs <;> exact ⟨rfl, rfl, rfl, rfl⟩)

theorem Conn.live_of_step {a : Action} (h : (s.step a).1.live = true) : s.live = true := by
  cases hl : s.live
  · obtain ⟨ha, hd, -⟩ := Conn.step_of_not_live hl a
    rw [Conn.live, ha, hd] at h
    exact hl ▸ h
  · rfl

/-- After a step that completes `async_run`, no step but a new start completes it again. -/
theorem Conn.step_after_completion {a b : Action} (ha : a ≠ .startRun) (hb : b ≠ .startRun)
    (he : runsOf (s.step a).2 ≠ []) : runsOf ((s.step a).1.step b).2 = [] := by
  rcases Conn.step_moves (s := s) ha with ⟨-, he'⟩ | ⟨-, ec, hf, -⟩
  · exact absurd he' he
  · rcases Conn.step_moves (s := (s.step a).1) hb with ⟨-, he''⟩ | ⟨hr, -⟩
    · exact he''
    · exact absurd (hf.symm.trans hr) (by simp)

end Steps

section Settling

/-- Once the group has cancelled, `async_run` waits on a half whose completion is pending. -/
def Conn.Settling (s : Conn) : Prop :=
  s.live = true → s.loop.run = .running → s.loop.cancelling = true → ∃ ec, s.loop.Cancelled ec

variable {s : Conn}

/-- The group's own cancellation: the writer on `write_cv_` is woken, one on the socket
completes with `operation_aborted`, and so does a reader on the socket. -/
theorem Loop.settles_cancelHalves {l : Loop} (hr : l.run = .running)
    (hw : l.writer = .idle ∨ l.writer = .woken ∨ l.writer = .waitWrite)
    (hd : l.reader = .waitRead ∨ l.reader = .woken) :
    Loop.Settles .operationAborted l.cancelHalves.settle := by
  refine Loop.settles_of hr rfl ?_ ?_ (by decide)
  · rcases hw with hw | hw | hw <;> simp [Loop.cancelHalves, hw, Writer.cancel]
  · rcases hd with hd | hd <;> simp [Loop.cancelHalves, hd, Reader.cancel]

/-- From a running `async_run` that nothing has cancelled, a step that has the group cancel
settles it. -/
theorem Conn.Active.settles {a : Action} (h : s.Active) (hl : s.live = true)
    (hr : s.loop.run = .running) (hc : s.loop.cancelling = false)
    (hc' : (s.step a).1.loop.cancelling = true) :
    ∃ ec, Loop.Settles ec ((s.step a).1.loop, (s.step a).2) := by
  have calm : (s.step a).1.loop.cancelling = s.loop.cancelling → False := fun he =>
    absurd (hc'.symm.trans (he.trans hc)) (by decide)
  cases a with
  | cancelRun =>
    rw [Conn.step, if_pos (by simp [hl, hr])]
    exact ⟨_, Loop.settles_cancelHalves hr (h hl hr hc).1 (h hl hr hc).2⟩
  | writerWaitFailed code =>
    by_cases hw : s.loop.writer = .waitWrite
    · exact ⟨_, Conn.writerFailure_settles (e := .io code) hl hr hc h (by simp [Conn.writerFailure, hw])⟩
    · exact (calm (by simp [Conn.step, hw])).elim
  | readerWaitFailed code =>
    by_cases hd : s.loop.reader = .waitRead
    · exact ⟨_, (Conn.readerFailure_settles (e := .io code) hl hr hc h
        (by simp [Conn.readerFailure, hd])).1⟩
    · exact (calm (by simp [Conn.step, hd])).elim
  | readerResume k ok =>
    by_cases hd : s.loop.reader = .woken
    · cases ok
      · exact ⟨_, (Conn.readerFailure_settles (e := .pqconsumeinputFailed) hl hr hc h
          (by simp [Conn.readerFailure, hd])).1⟩
      · refine (calm ?_).elim
        rw [Conn.step, if_pos (by simp [hl, hd]), Conn.readerResume, if_pos rfl]
        rcases Conn.readerLoop_cases { s with session := s.session.consume k } with
          ⟨-, hl', -⟩ | ⟨hl', -⟩
        · rw [hl']
        · rw [hl', Loop.readerAwait_of_not_cancelling hc]
    · exact (calm (by simp [Conn.step, hd])).elim
  | writerResume f =>
    refine (calm ?_).elim
    simp only [Conn.step]; split_ifs
    · simp only [Conn.writerResume, Conn.withLoop, Loop.writerAwait, hc]
      rfl
    · rfl
  | startRun => exact (calm (by simp [Conn.step, hr])).elim
  | asyncQuery sendOk syncOk io =>
    refine (calm ?_).elim
    simp only [Conn.step, Conn.asyncQuery]; split_ifs <;> rfl
  | asyncExecPipeline first n accepted syncOk io =>
    refine (calm ?_).elim
    simp only [Conn.step, Conn.asyncExecPipeline]; split_ifs <;> rfl
  | serve | readerWake | cancelExec _ | resumeExec _ | destroy =>
    refine (calm ?_).elim
    simp only [Conn.step]; split_ifs <;> rfl

/-- Every step keeps every cancelled `async_run` waiting on a pending half. -/
theorem Conn.Settling.step (h : s.Settling) (ha : s.Active) (a : Action) : (s.step a).1.Settling := by
  intro hl' hr' hc'
  by_cases hs : a = .startRun
  · subst hs
    by_cases hg : (s.live && s.loop.run != .running) = true
    · exact absurd ((Conn.startRun_calm hg).2 hl') (by rw [hc']; decide)
    · rw [Conn.step, if_neg hg] at hl' hr' hc' ⊢
      exact h hl' hr' hc'
  · have hl := Conn.live_of_step hl'
    rcases Conn.step_moves (s := s) hs with ⟨hrun, he⟩ | ⟨-, ec, hf, -⟩
    · have hr : s.loop.run = .running := hrun ▸ hr'
      cases hc : s.loop.cancelling
      · obtain ⟨ec, hs⟩ := ha.settles hl hr hc hc'
        exact ⟨ec, hs.cancelled he⟩
      · obtain ⟨ec, hcan⟩ := h hl hr hc
        exact ⟨ec, (Conn.cancelled_step hcan a).cancelled he⟩
    · exact absurd (hf.symm.trans hr') (by simp)

theorem Conn.settling_run (acts : List Action) : (Conn.init.run acts).1.Settling := by
  suffices ∀ s : Conn, s.Settling → s.Active → (s.run acts).1.Settling from
    this _ (fun _ hr => by cases hr) (fun _ hr => by cases hr)
  induction acts with
  | nil => exact fun _ h _ => h
  | cons a acts ih => exact fun s h ha => ih _ (h.step ha a) (ha.step a)

end Settling

section Resumptions

variable {s : Conn} {ec : ErrorCode}

theorem Loop.finish_halves (l : Loop) : l.finish.1.writer = l.writer ∧ l.finish.1.reader = l.reader := by
  unfold Loop.finish; split <;> exact ⟨rfl, rfl⟩

/-- Once the group has cancelled, settling is finishing. -/
theorem Loop.settle_of_cancelling {l : Loop} (hc : l.cancelling = true) : l.settle = l.finish := by
  rw [Loop.settle, if_neg (by simp [hc])]

theorem Conn.readerLoop_destroyed (s : Conn) : s.readerLoop.1.destroyed = s.destroyed := by
  have hd := (drain_frame { s with session := { s.session with input := [] } } s.session.input).2.2.1
  dsimp only [Conn.readerLoop]
  split_ifs
  · exact hd
  · exact hd

/-- The writer's resumption in a cancelled `async_run` completes it, or it had completed; the
reader is left as it was. -/
theorem Conn.writerResume_cancelled (h : s.loop.Cancelled ec) (hl : s.live = true) (f : FlushIO) :
    (s.step (.writerResume f)).1.loop.writer ≠ .woken ∧
      (s.step (.writerResume f)).1.loop.reader = s.loop.reader ∧
      (s.step (.writerResume f)).1.live = true := by
  rcases h.writer with hw | ⟨hw, -⟩
  · simp [Conn.step, hw, hl]
  · rw [Conn.step, if_pos (by simp [hl, hw])]
    refine ⟨?_, ?_, hl⟩ <;> simp [Conn.writerResume, Conn.withLoop, Loop.writerAwait, h.cancelling,
      Loop.settle_of_cancelling, Loop.finish_halves]

/-- The reader's resumption in a cancelled `async_run` completes it, or it had completed, or
the reader's `assert` stops the process; the writer is left as it was. -/
theorem Conn.readerResume_cancelled (h : s.loop.Cancelled ec) (hl : s.live = true) (k : Nat)
    (ok : Bool) :
    (s.step (.readerResume k ok)).1.aborted = true ∨
      (s.step (.readerResume k ok)).1.loop.reader ≠ .woken ∧
        (s.step (.readerResume k ok)).1.loop.writer = s.loop.writer ∧
        (s.step (.readerResume k ok)).1.live = true := by
  rcases h.reader with hd | ⟨e, hd⟩
  · rw [Conn.step, if_pos (by simp [hl, hd]), Conn.readerResume]
    cases ok
    · refine .inr ⟨?_, ?_, hl⟩ <;>
        simp [Conn.withLoop, h.cancelling, Loop.settle_of_cancelling, Loop.finish_halves]
    · rw [if_pos rfl]
      cases ha : ({ s with session := s.session.consume k } : Conn).readerLoop.1.aborted
      · rcases Conn.readerLoop_cases { s with session := s.session.consume k } with
          ⟨ha', -, -⟩ | ⟨hloop, -⟩
        · exact absurd (ha.symm.trans ha') (by decide)
        · refine .inr ⟨?_, ?_, ?_⟩
          · simp [hloop, Loop.readerAwait, h.cancelling, Loop.settle_of_cancelling, Loop.finish_halves]
          · simp [hloop, Loop.readerAwait, h.cancelling, Loop.settle_of_cancelling, Loop.finish_halves]
          · rw [Conn.live, ha, Conn.readerLoop_destroyed]
            simp only [Conn.live, Bool.and_eq_true] at hl
            simp [hl.1]
      · exact .inl rfl
  · exact .inr (by simp [Conn.step, hd, hl])

/-- In a cancelled `async_run`, the writer's resumption, then the reader's, complete it once,
unless the reader's `assert` stops the process. -/
theorem Conn.writer_then_reader (h : s.loop.Cancelled ec) (hl : s.live = true) (f : FlushIO)
    (k : Nat) (ok : Bool) :
    runsOf (s.run [.writerResume f, .readerResume k ok]).2 = [ec] ∨
      (s.run [.writerResume f, .readerResume k ok]).1.aborted = true ∧
        runsOf (s.run [.writerResume f, .readerResume k ok]).2 = [] := by
  simp only [Conn.run_cons, Conn.run_nil, List.append_nil, runsOf_append]
  rcases Conn.cancelled_step h (.writerResume f) with ⟨he₁, h₁⟩ | he₁
  · obtain ⟨hw₁, -, hl₁⟩ := Conn.writerResume_cancelled h hl f
    rw [he₁, List.nil_append]
    rcases Conn.cancelled_step h₁ (.readerResume k ok) with ⟨he₂, h₂⟩ | he₂
    · rcases Conn.readerResume_cancelled h₁ hl₁ k ok with ha | ⟨hd₂, hw₂, -⟩
      · exact .inr ⟨ha, he₂⟩
      · exact absurd h₂.pending (by rw [hw₂]; exact not_or.mpr ⟨hw₁, hd₂⟩)
    · exact .inl he₂
  · rw [he₁, Conn.step_after_completion (by simp) (by simp) (by rw [he₁]; simp)]
    exact .inl rfl

/-- In a cancelled `async_run`, the reader's resumption, then the writer's, complete it once,
unless the reader's `assert` stops the process. -/
theorem Conn.reader_then_writer (h : s.loop.Cancelled ec) (hl : s.live = true) (f : FlushIO)
    (k : Nat) (ok : Bool) :
    runsOf (s.run [.readerResume k ok, .writerResume f]).2 = [ec] ∨
      (s.run [.readerResume k ok, .writerResume f]).1.aborted = true ∧
        runsOf (s.run [.readerResume k ok, .writerResume f]).2 = [] := by
  simp only [Conn.run_cons, Conn.run_nil, List.append_nil, runsOf_append]
  rcases Conn.cancelled_step h (.readerResume k ok) with ⟨he₁, h₁⟩ | he₁
  · rw [he₁, List.nil_append]
    rcases Conn.readerResume_cancelled h hl k ok with ha | ⟨hd₁, -, hl₁⟩
    · have hnl : (s.step (.readerResume k ok)).1.live = false := by simp [Conn.live, ha]
      obtain ⟨ha', -, -, he₂⟩ := Conn.step_of_not_live hnl (.writerResume f)
      exact .inr ⟨ha'.trans ha, he₂⟩
    · rcases Conn.cancelled_step h₁ (.writerResume f) with ⟨he₂, h₂⟩ | he₂
      · obtain ⟨hw₂, hd₂, -⟩ := Conn.writerResume_cancelled h₁ hl₁ f
        exact absurd h₂.pending (by rw [hd₂]; exact not_or.mpr ⟨hw₂, hd₁⟩)
      · exact .inl he₂
  · rw [he₁, Conn.step_after_completion (by simp) (by simp) (by rw [he₁]; simp)]
    exact .inl rfl

end Resumptions

/-- Once the parallel group has cancelled `async_run`'s halves, in any run, resuming the
halves still pending, in either order and whatever `PQflush` and `PQconsumeInput` return,
completes `async_run` exactly once, unless the reader's `assert` stops the process first. -/
theorem cancelled_run_ends (pre : List Action) (hl : (Conn.init.run pre).1.live = true)
    (hr : (Conn.init.run pre).1.loop.run = .running)
    (hc : (Conn.init.run pre).1.loop.cancelling = true) (f : FlushIO) (k : Nat) (ok : Bool) :
    ∃ ec, ∀ post ∈ [[Action.writerResume f, .readerResume k ok],
        [.readerResume k ok, .writerResume f]],
      runsOf ((Conn.init.run pre).1.run post).2 = [ec] ∨
        ((Conn.init.run pre).1.run post).1.aborted = true ∧
          runsOf ((Conn.init.run pre).1.run post).2 = [] := by
  obtain ⟨ec, h⟩ := Conn.settling_run pre hl hr hc
  refine ⟨ec, fun post hp => ?_⟩
  simp only [List.mem_cons, List.mem_singleton, List.not_mem_nil, or_false] at hp
  rcases hp with rfl | rfl
  · exact Conn.writer_then_reader h hl f k ok
  · exact Conn.reader_then_writer h hl f k ok

/-- `async_run` started and then cancelled: the writer, woken on `write_cv_`, is still to
resume, and its resumption ends the run. -/
theorem start_cancel_ends :
    (Conn.init.run [.startRun, .cancelRun]).1.live = true ∧
      (Conn.init.run [.startRun, .cancelRun]).1.loop.run = .running ∧
      (Conn.init.run [.startRun, .cancelRun]).1.loop.cancelling = true ∧
      ∃ ec, ∀ post ∈ [[Action.writerResume ⟨false, ⟨0, false⟩⟩, .readerResume 0 true],
          [.readerResume 0 true, .writerResume ⟨false, ⟨0, false⟩⟩]],
        runsOf ((Conn.init.run [.startRun, .cancelRun]).1.run post).2 = [ec] ∨
          ((Conn.init.run [.startRun, .cancelRun]).1.run post).1.aborted = true ∧
            runsOf ((Conn.init.run [.startRun, .cancelRun]).1.run post).2 = [] :=
  ⟨rfl, rfl, rfl, cancelled_run_ends [.startRun, .cancelRun] rfl rfl rfl _ 0 true⟩

end AsiofiedLibpq.Connection
