import AsiofiedLibpq.Connection.Session

set_option autoImplicit false

/-!
# The connection engine

`asiofiedpq::connection` after a successful `async_connect`: the exec
operations `async_query` and `async_exec_pipeline`, the two halves of
`async_run`, and `~connection`. Everything runs on one executor, so a step
is one coroutine running from a resumption to its next suspension; `step`
takes the scheduler's choice of what runs next, with the answers the
environment gives on the way (which libpq calls succeed, how much the
socket takes), and returns the events the step emits.

Each exec is numbered in the order it was initiated; the handler it creates is
kept under that number, which is the shared object `result_handlers_` and the
exec's `rh` both point to.
-/

namespace AsiofiedLibpq.Connection

open Session

inductive ErrorCode
  | success
  | operationAborted
  | pqstatusFailed
  | pqsetnonblockingFailed
  | pqenterpipelinemodeFailed
  | connectionFailed
  | pqsendqueryparamsFailed
  | pqpipelinesyncFailed
  | pqconsumeinputFailed
  | io (code : Nat)
  deriving DecidableEq, Repr

/-- What an exec was initiated with: `async_query`, or `async_exec_pipeline`
over the `n` elements of caller storage from address `first`. -/
inductive Request
  | query
  | pipeline (first n : Nat)
  deriving DecidableEq, Repr

inductive Phase
  | unused
  | awaiting
  | done (ec : ErrorCode)
  deriving DecidableEq, Repr

structure Exec where
  request : Request
  handler : Handler
  phase : Phase
  deriving DecidableEq, Repr

def Exec.unused : Exec := ⟨.query, ⟨.waiting, .single none⟩, .unused⟩

def Exec.handled (x : Exec) (res : Msg) : Exec := { x with handler := (x.handler.handle res).1 }

/-- The exec resumes with its handler still `waiting`: a pipeline handler is
dumified, and the exec completes with `operation_aborted`. -/
def Exec.abort (x : Exec) : Exec :=
  let rh := match x.request with
    | .pipeline _ _ => x.handler.dumify
    | .query => x.handler
  { x with handler := rh, phase := .done .operationAborted }

def Exec.outcome (x : Exec) : ErrorCode × Option Msg :=
  if x.handler.status = .cancelled then (.connectionFailed, none)
  else match x.handler.slot with
    | .single r => (.success, r)
    | .pipeline _ _ _ => (.success, none)

/-- The writer half of `async_run`: `idle` while suspended on `write_cv_.async_wait`, `woken`
once that wait has completed and its resumption is pending, `waitWrite` while suspended on
`socket_.async_wait(wait_write)`. The reader is `waitRead` and `woken` likewise. -/
inductive Writer
  | notStarted
  | idle
  | woken
  | waitWrite
  | done (ec : ErrorCode)
  deriving DecidableEq, Repr

inductive Reader
  | notStarted
  | waitRead
  | woken
  | done (ec : ErrorCode)
  deriving DecidableEq, Repr

inductive RunPhase
  | notStarted
  | running
  | finished (ec : ErrorCode)
  deriving DecidableEq, Repr

def Writer.notify : Writer → Writer
  | .idle => .woken
  | w => w

/-- Cancellation reaching the writer: a pending `write_cv_` wait completes with
`operation_aborted`, which the writer takes for a wake-up; a pending socket
wait completes with `operation_aborted`, which it returns. -/
def Writer.cancel : Writer → Writer
  | .idle => .woken
  | .waitWrite => .done .operationAborted
  | w => w

def Reader.cancel : Reader → Reader
  | .waitRead => .done .operationAborted
  | r => r

/-- The state of `async_run`'s coroutines. `cancelling` is set once the parallel
group has emitted cancellation; from then on `co_composed` completes a half with
`operation_aborted` at its next `co_await`. -/
structure Loop where
  writer : Writer
  reader : Reader
  run : RunPhase
  cancelling : Bool
  deriving DecidableEq, Repr

/-- A connection: the execs and their handlers, `result_handlers_`, the caller
storage pipeline handlers write to, the session, and `async_run`. `aborted`
records that the reader's `assert` failed and the process stopped. -/
structure Conn where
  execs : Nat → Exec
  nextExec : Nat
  resultHandlers : List Nat
  storage : Nat → Option Msg
  session : Session
  loop : Loop
  destroyed : Bool
  aborted : Bool

/-- What a step lets an observer see: `result_handlers_.push(rh)` of exec `h`'s handler,
`rh->handle(res)`, the pipeline handler's assignment of `res` to the result member at `addr`,
`result_handlers_.pop()`, the reader's `assert(!result_handlers_.empty())` failing, exec `e`
completing with `ec` (and, for `async_query`, a result), and `async_run` completing. -/
inductive Event
  | push (h : Nat)
  | handle (h : Nat) (res : Msg)
  | write (h : Nat) (addr : Nat) (res : Msg)
  | pop (h : Nat)
  | assertFailed
  | done (e : Nat) (ec : ErrorCode) (result : Option Msg)
  | runDone (ec : ErrorCode)
  deriving DecidableEq, Repr

/-- The scheduler's choice of what runs next, with the environment's answers: whether
`PQsendQueryParams` (for how many of a pipeline's `n` queries) and `PQpipelineSync` succeed,
how many results `PQconsumeInput` reads or whether it fails, and an exec resuming after its
wait was cancelled, its handler still waiting, or after its handler signalled. -/
inductive Action
  | startRun
  | cancelRun
  | asyncQuery (sendOk syncOk : Bool) (io : SendIO)
  | asyncExecPipeline (first n accepted : Nat) (syncOk : Bool) (io : SendIO)
  | writerResume (f : FlushIO)
  | writerWaitFailed (code : Nat)
  | serve
  | readerWake
  | readerWaitFailed (code : Nat)
  | readerResume (k : Nat) (ok : Bool)
  | cancelExec (e : Nat)
  | resumeExec (e : Nat)
  | destroy
  deriving DecidableEq, Repr

namespace Loop

def idle : Loop := ⟨.notStarted, .notStarted, .notStarted, false⟩

def cancelHalves (l : Loop) : Loop :=
  { l with cancelling := true, writer := l.writer.cancel, reader := l.reader.cancel }

def Writer.isDone : Writer → Bool
  | .done _ => true
  | _ => false

def Reader.isDone : Reader → Bool
  | .done _ => true
  | _ => false

def finish (l : Loop) : Loop × List Event :=
  match l.run, l.writer, l.reader with
  | .running, .done ec₁, .done ec₂ =>
    let ec := if ec₁ ≠ .success then ec₁ else ec₂
    ({ l with run := .finished ec }, [.runDone ec])
  | _, _, _ => (l, [])

/-- `make_parallel_group(writer, reader).async_wait(wait_for_one{}, …)` after a
half completes: the first completion cancels both. -/
def settle (l : Loop) : Loop × List Event :=
  (if !l.cancelling && (Writer.isDone l.writer || Reader.isDone l.reader) then l.cancelHalves
    else l).finish

def writerAwait (l : Loop) (ret : Int) : Loop × List Event :=
  if l.cancelling then { l with writer := .done .operationAborted }.settle
  else ({ l with writer := if ret ≠ 0 then .waitWrite else .idle }, [])

def readerAwait (l : Loop) : Loop × List Event :=
  if l.cancelling then { l with reader := .done .operationAborted }.settle
  else ({ l with reader := .waitRead }, [])

end Loop

namespace Conn

def init : Conn :=
  ⟨fun _ => .unused, 0, [], fun _ => none, Session.empty, Loop.idle, false, false⟩

def withLoop (s : Conn) (r : Loop × List Event) : Conn × List Event :=
  ({ s with loop := r.1 }, r.2)

/-- A submission that returned an error before pushing a handler; what the
session accepted stays queued. The record keeps the handler the exec would have
made, which nothing ever reaches. -/
def failSubmit (s : Conn) (req : Request) (cmds : List Msg) (io : SendIO) (h : Handler)
    (ec : ErrorCode) : Conn × List Event :=
  let e := s.nextExec
  let ss := (s.session.queue cmds).transmit io.sent io.reads
  ({ s with
      nextExec := e + 1
      session := ss
      execs := Function.update s.execs e ⟨req, h, .done ec⟩ },
    [.done e ec none])

def pushHandler (s : Conn) (req : Request) (cmds : List Msg) (io : SendIO) (h : Handler) :
    Conn × List Event :=
  let e := s.nextExec
  let ss := (s.session.queue cmds).transmit io.sent io.reads
  ({ s with
      nextExec := e + 1
      session := ss
      loop := { s.loop with writer := s.loop.writer.notify }
      execs := Function.update s.execs e ⟨req, h, .awaiting⟩
      resultHandlers := s.resultHandlers ++ [e] },
    [.push e])

def asyncQuery (s : Conn) (sendOk syncOk : Bool) (io : SendIO) : Conn × List Event :=
  let e := s.nextExec
  let rh : Handler := ⟨.waiting, .single none⟩
  if !sendOk then s.failSubmit .query [] io rh .pqsendqueryparamsFailed
  else if !syncOk then s.failSubmit .query [.query e 0] io rh .pqpipelinesyncFailed
  else s.pushHandler .query [.query e 0, .sync] io rh

def asyncExecPipeline (s : Conn) (first n accepted : Nat) (syncOk : Bool) (io : SendIO) :
    Conn × List Event :=
  let e := s.nextExec
  let rh : Handler := ⟨.waiting, .pipeline first (first + n) 0⟩
  if accepted < n then
    s.failSubmit (.pipeline first n) (queries e accepted) io rh .pqsendqueryparamsFailed
  else if !syncOk then s.failSubmit (.pipeline first n) (queries e n) io rh .pqpipelinesyncFailed
  else s.pushHandler (.pipeline first n) (queries e n ++ [.sync]) io rh

def handleEvents (h : Nat) (addr : Option Nat) (res : Msg) : List Event :=
  .handle h res :: (addr.map fun a => .write h a res).toList

/-- The reader hands `res` to the handler `h` at the head of the queue, and pops
it if it completed. -/
def handleHead (s : Conn) (h : Nat) (rest : List Nat) (res : Msg) : Conn × List Event :=
  let addr := ((s.execs h).handler.handle res).2
  let s' := { s with
    execs := Function.update s.execs h ((s.execs h).handled res)
    storage := match addr with
      | some a => Function.update s.storage a (some res)
      | none => s.storage }
  if ((s.execs h).handled res).handler.status = .completed then
    ({ s' with resultHandlers := rest }, handleEvents h addr res ++ [.pop h])
  else (s', handleEvents h addr res)

def dispatch (s : Conn) (res : Msg) : Conn × List Event :=
  match res, s.resultHandlers with
  | .sync, _ => (s, [])
  | .query _ _, [] => ({ s with aborted := true }, [.assertFailed])
  | .query _ _, h :: rest => s.handleHead h rest res

def drain (s : Conn) : List Msg → Conn × List Event
  | [] => (s, [])
  | res :: rest =>
    let r₁ := s.dispatch res
    if r₁.1.aborted then r₁
    else
      let r₂ := r₁.1.drain rest
      (r₂.1, r₁.2 ++ r₂.2)

def readerLoop (s : Conn) : Conn × List Event :=
  let r₁ := { s with session := { s.session with input := [] } }.drain s.session.input
  if r₁.1.aborted then r₁
  else
    let r₂ := r₁.1.withLoop r₁.1.loop.readerAwait
    (r₂.1, r₁.2 ++ r₂.2)

def startRun (s : Conn) : Conn × List Event :=
  { s with loop := ⟨.idle, .notStarted, .running, false⟩ }.readerLoop

def writerResume (s : Conn) (f : FlushIO) : Conn × List Event :=
  let r := s.session.pqFlush f
  { s with session := r.1 }.withLoop (s.loop.writerAwait r.2)

def readerResume (s : Conn) (k : Nat) (ok : Bool) : Conn × List Event :=
  if ok then { s with session := s.session.consume k }.readerLoop
  else s.withLoop { s.loop with reader := .done .pqconsumeinputFailed }.settle

def cancelExec (s : Conn) (e : Nat) : Conn × List Event :=
  ({ s with execs := Function.update s.execs e (s.execs e).abort }, [.done e .operationAborted none])

def resumeExec (s : Conn) (e : Nat) : Conn × List Event :=
  let x := s.execs e
  ({ s with execs := Function.update s.execs e { x with phase := .done x.outcome.1 } },
    [.done e x.outcome.1 x.outcome.2])

def destroy (s : Conn) : Conn :=
  { s with
    execs := fun e =>
      if e ∈ s.resultHandlers then { s.execs e with handler := (s.execs e).handler.cancel }
      else s.execs e
    resultHandlers := []
    destroyed := true }

def live (s : Conn) : Bool := !s.destroyed && !s.aborted

def step (s : Conn) : Action → Conn × List Event
  | .startRun => if s.live && s.loop.run != .running then s.startRun else (s, [])
  | .cancelRun =>
    if s.live && s.loop.run == .running then s.withLoop s.loop.cancelHalves.settle else (s, [])
  | .asyncQuery sendOk syncOk io => if s.live then s.asyncQuery sendOk syncOk io else (s, [])
  | .asyncExecPipeline first n accepted syncOk io =>
    if s.live then s.asyncExecPipeline first n accepted syncOk io else (s, [])
  | .writerResume f =>
    if s.live && (s.loop.writer == .woken || s.loop.writer == .waitWrite) then s.writerResume f
    else (s, [])
  | .writerWaitFailed code =>
    if s.live && s.loop.writer == .waitWrite then
      s.withLoop { s.loop with writer := .done (.io code) }.settle
    else (s, [])
  | .serve => if s.live then ({ s with session := s.session.serve }, []) else (s, [])
  | .readerWake =>
    if s.live && s.loop.reader == .waitRead && !s.session.sock.isEmpty then
      ({ s with loop := { s.loop with reader := .woken } }, [])
    else (s, [])
  | .readerWaitFailed code =>
    if s.live && s.loop.reader == .waitRead then
      s.withLoop { s.loop with reader := .done (.io code) }.settle
    else (s, [])
  | .readerResume k ok => if s.live && s.loop.reader == .woken then s.readerResume k ok else (s, [])
  | .cancelExec e =>
    if !s.aborted && (s.execs e).phase == .awaiting && (s.execs e).handler.status == .waiting then
      s.cancelExec e
    else (s, [])
  | .resumeExec e =>
    if !s.aborted && (s.execs e).phase == .awaiting && (s.execs e).handler.status != .waiting then
      s.resumeExec e
    else (s, [])
  | .destroy => if s.live then (s.destroy, []) else (s, [])

section Frame

variable (s : Conn)

theorem handleHead_frame (h : Nat) (rest : List Nat) (res : Msg) :
    (s.handleHead h rest res).1.session = s.session ∧ (s.handleHead h rest res).1.loop = s.loop ∧
      (s.handleHead h rest res).1.destroyed = s.destroyed ∧
      (s.handleHead h rest res).1.nextExec = s.nextExec := by
  unfold handleHead; split_ifs <;> exact ⟨rfl, rfl, rfl, rfl⟩

theorem dispatch_frame (res : Msg) :
    (s.dispatch res).1.session = s.session ∧ (s.dispatch res).1.loop = s.loop ∧
      (s.dispatch res).1.destroyed = s.destroyed ∧ (s.dispatch res).1.nextExec = s.nextExec := by
  unfold dispatch; split
  · exact ⟨rfl, rfl, rfl, rfl⟩
  · exact ⟨rfl, rfl, rfl, rfl⟩
  · exact handleHead_frame ..

theorem drain_frame (held : List Msg) :
    (s.drain held).1.session = s.session ∧ (s.drain held).1.loop = s.loop ∧
      (s.drain held).1.destroyed = s.destroyed ∧ (s.drain held).1.nextExec = s.nextExec := by
  induction held generalizing s with
  | nil => exact ⟨rfl, rfl, rfl, rfl⟩
  | cons res rest ih =>
    obtain ⟨h₁, h₂, h₃, h₄⟩ := dispatch_frame s res
    obtain ⟨h₅, h₆, h₇, h₈⟩ := ih (s.dispatch res).1
    simp only [drain]
    split
    · exact ⟨h₁, h₂, h₃, h₄⟩
    · exact ⟨h₅.trans h₁, h₆.trans h₂, h₇.trans h₃, h₈.trans h₄⟩

end Frame

def run (s : Conn) : List Action → Conn × List Event
  | [] => (s, [])
  | a :: as =>
    let r₁ := s.step a
    let r₂ := run r₁.1 as
    (r₂.1, r₁.2 ++ r₂.2)

@[simp] theorem run_nil (s : Conn) : run s [] = (s, []) := rfl

@[simp] theorem run_cons (s : Conn) (a : Action) (as : List Action) :
    run s (a :: as) = ((run (s.step a).1 as).1, (s.step a).2 ++ (run (s.step a).1 as).2) := rfl

theorem run_append (s : Conn) (as bs : List Action) :
    run s (as ++ bs) = ((run (run s as).1 bs).1, (run s as).2 ++ (run (run s as).1 bs).2) := by
  induction as generalizing s with
  | nil => rfl
  | cons a as ih => simp [ih]

end Conn

end AsiofiedLibpq.Connection
