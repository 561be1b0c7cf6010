import AsiofiedLibpq.Connection.RunLoop

set_option autoImplicit false

/-!
# The handshake

`async_connect`: `PQconnectStart`, adopting the descriptor `PQsocket` reports
into the asio socket, the status and non-blocking checks, then the
`PQconnectPoll` loop, and `PQenterPipelineMode`. The environment answers every
libpq call and every wait; the model records the calls the coroutine makes, with
the descriptor each wait is made on.

The descriptor is read once, before the status check, and the loop polls before
it first waits; every wait is on that first descriptor, whatever `PQsocket`
reports after later polls. A bad start reports `-1`, which asio's reactor
refuses (`epoll_ctl` fails with `EBADF`), so `assign` throws before the status
is checked.
-/

namespace AsiofiedLibpq.Connection

inductive PollingStatus
  | failed
  | reading
  | writing
  | ok
  | active
  deriving DecidableEq, Repr

inductive WaitKind
  | read
  | write
  deriving DecidableEq, Repr

def PollingStatus.requested : PollingStatus → Option WaitKind
  | .reading => some .read
  | .writing => some .write
  | _ => none

/-- One `PQconnectPoll` call: its result, what `PQsocket` reports after it, and how the
wait the coroutine then makes completes. -/
structure Poll where
  status : PollingStatus
  socket : Int
  waitError : Option Nat
  deriving DecidableEq, Repr

/-- What libpq and the socket answer during one handshake: whether `PQstatus` after
`PQconnectStart` is `CONNECTION_BAD`, what `PQsocket` then reports, whether the reactor
registers a valid descriptor, and the answers of the later calls. -/
structure Env where
  startBad : Bool
  startSocket : Int
  assignOk : Bool
  nonblockingOk : Bool
  polls : List Poll
  enterPipelineOk : Bool
  deriving DecidableEq, Repr

inductive Call
  | assign (fd : Int)
  | poll
  | wait (kind : WaitKind) (fd : Int)
  | enterPipeline
  deriving DecidableEq, Repr

inductive LoopExit
  | returned (ec : ErrorCode)
  | broke
  | running
  deriving DecidableEq, Repr

/-- The `for (;;)` loop, waiting on the descriptor `fd` the socket holds. -/
def pollLoop (fd : Int) : List Poll → List Call × LoopExit
  | [] => ([], .running)
  | p :: ps =>
    match p.status.requested, p.waitError with
    | some k, some code => ([.poll, .wait k fd], .returned (.io code))
    | some k, none => (.poll :: .wait k fd :: (pollLoop fd ps).1, (pollLoop fd ps).2)
    | none, _ =>
      match p.status with
      | .failed => ([.poll], .returned .connectionFailed)
      | .ok => ([.poll], .broke)
      | _ => (.poll :: (pollLoop fd ps).1, (pollLoop fd ps).2)

/-- How `async_connect` ends: completing, `socket_.assign` throwing, or with its loop still
running when the environment's answers run out. -/
inductive Outcome
  | completed (ec : ErrorCode)
  | thrown
  | pending
  deriving DecidableEq, Repr

/-- Whether `socket_.assign` adopts the descriptor: asio's reactor refuses `-1`. -/
def Env.adopts (env : Env) : Bool := env.startSocket != -1 && env.assignOk

def asyncConnect (env : Env) : List Call × Outcome :=
  if !env.adopts then ([.assign env.startSocket], .thrown)
  else if env.startBad then ([.assign env.startSocket], .completed .pqstatusFailed)
  else if !env.nonblockingOk then ([.assign env.startSocket], .completed .pqsetnonblockingFailed)
  else
    let r := pollLoop env.startSocket env.polls
    match r.2 with
    | .returned ec => (.assign env.startSocket :: r.1, .completed ec)
    | .running => (.assign env.startSocket :: r.1, .pending)
    | .broke =>
      (.assign env.startSocket :: r.1 ++ [.enterPipeline],
        .completed (if env.enterPipelineOk then .success else .pqenterpipelinemodeFailed))

/-- The loop polls before it first waits, and waits on the descriptor adopted after
`PQconnectStart` even when `PQsocket` reports another; a bad start's `-1` is adopted before
the status is checked, and `assign` throws. -/
theorem connect_polls_before_waiting :
    asyncConnect ⟨false, 5, true, true, [⟨.ok, 5, none⟩], true⟩ =
        ([.assign 5, .poll, .enterPipeline], .completed .success) ∧
      asyncConnect ⟨false, 5, true, true, [⟨.writing, 7, none⟩, ⟨.ok, 7, none⟩], true⟩ =
        ([.assign 5, .poll, .wait .write 5, .poll, .enterPipeline], .completed .success) ∧
      asyncConnect ⟨true, -1, true, true, [], true⟩ = ([.assign (-1)], .thrown) := by
  decide

def Poll.calls (fd : Int) (p : Poll) : List Call :=
  .poll :: (p.status.requested.map fun k => .wait k fd).toList

def Poll.Continues (p : Poll) : Prop :=
  p.status = .active ∨ (p.status.requested.isSome ∧ p.waitError = none)

section Loop

variable (fd : Int)

theorem pollLoop_calls : ∀ ps : List Poll, ∃ n, (pollLoop fd ps).1 = (ps.take n).flatMap (Poll.calls fd)
  | [] => ⟨0, rfl⟩
  | p :: ps => by
    obtain ⟨n, hn⟩ := pollLoop_calls ps
    unfold pollLoop
    split
    · exact ⟨1, by simp_all [Poll.calls]⟩
    · exact ⟨n + 1, by simp_all [Poll.calls]⟩
    · split
      · exact ⟨1, by simp_all [Poll.calls]⟩
      · exact ⟨1, by simp_all [Poll.calls]⟩
      · exact ⟨n + 1, by simp_all [Poll.calls]⟩

theorem pollLoop_continues {p : Poll} (ps : List Poll) (h : p.Continues) :
    pollLoop fd (p :: ps) =
      ((p.calls fd) ++ (pollLoop fd ps).1, (pollLoop fd ps).2) := by
  obtain ⟨st, sock, we⟩ := p
  rcases h with h | ⟨hr, hw⟩
  · subst h; rfl
  · simp only at hr hw; subst hw
    cases st <;> simp_all [PollingStatus.requested, pollLoop, Poll.calls]

theorem pollLoop_failed {pre post : List Poll} {p : Poll} (hpre : ∀ q ∈ pre, q.Continues)
    (hp : p.status = .failed) : (pollLoop fd (pre ++ p :: post)).2 = .returned .connectionFailed := by
  induction pre with
  | nil =>
    obtain ⟨st, sock, we⟩ := p
    simp only at hp; subst hp
    rfl
  | cons q pre ih =>
    rw [List.cons_append, pollLoop_continues fd _ (hpre q (List.mem_cons_self _ _))]
    exact ih fun q' hq' => hpre q' (List.mem_cons_of_mem _ hq')

theorem pollLoop_broke : ∀ {ps : List Poll}, (pollLoop fd ps).2 = .broke →
    ∃ pre p post, ps = pre ++ p :: post ∧ (∀ q ∈ pre, q.Continues) ∧ p.status = .ok
  | [], h => by cases h
  | ⟨st, sock, we⟩ :: ps, h => by
    have step : (pollLoop fd ps).2 = .broke → Poll.Continues ⟨st, sock, we⟩ →
        ∃ pre p post, ⟨st, sock, we⟩ :: ps = pre ++ p :: post ∧ (∀ q ∈ pre, q.Continues) ∧
          p.status = .ok := fun h hc => by
      obtain ⟨pre, p, post, rfl, hpre, hp⟩ := pollLoop_broke h
      exact ⟨⟨st, sock, we⟩ :: pre, p, post, rfl, by simpa [hc] using hpre, hp⟩
    cases st <;> cases we <;> simp only [pollLoop, PollingStatus.requested] at h
    all_goals first
      | exact ⟨[], _, ps, rfl, by simp, rfl⟩
      | exact step h (by simp [Poll.Continues, PollingStatus.requested])
      | cases h

end Loop

/-- `async_connect` as the code performs it, a bad start apart: after adopting the first
descriptor it polls, then waits on that descriptor for the readiness the poll requested, and so
on, `PQenterPipelineMode` last; the first `PGRES_POLLING_FAILED` reached completes with
`connection_failed`; and it completes without error only after `PGRES_POLLING_OK` and a
successful `PQenterPipelineMode`. -/
structure Handshake (env : Env) : Prop where
  calls : ∃ n, (asyncConnect env).1 = .assign env.startSocket ::
      (env.polls.take n).flatMap (Poll.calls env.startSocket) ∨
    (asyncConnect env).1 = .assign env.startSocket ::
      (env.polls.take n).flatMap (Poll.calls env.startSocket) ++ [.enterPipeline]
  firstFailure : ∀ pre p post, env.polls = pre ++ p :: post → (∀ q ∈ pre, q.Continues) →
    p.status = .failed → env.adopts = true → env.startBad = false → env.nonblockingOk = true →
    (asyncConnect env).2 = .completed .connectionFailed
  success : (asyncConnect env).2 = .completed .success →
    (∃ pre p post, env.polls = pre ++ p :: post ∧ (∀ q ∈ pre, q.Continues) ∧ p.status = .ok) ∧
      env.enterPipelineOk = true ∧ (asyncConnect env).1.getLast? = some .enterPipeline

theorem pollLoop_returned (fd : Int) : ∀ {ps : List Poll} {ec : ErrorCode},
    (pollLoop fd ps).2 = .returned ec → ec ≠ .success
  | [], _, h => by cases h
  | ⟨st, sock, we⟩ :: ps, ec, h => by
    cases st <;> cases we <;> simp only [pollLoop, PollingStatus.requested] at h
    all_goals first
      | exact pollLoop_returned fd h
      | (simp only [LoopExit.returned.injEq] at h; subst h; simp)
      | cases h

theorem asyncConnect_success {env : Env} (h : (asyncConnect env).2 = .completed .success) :
    (pollLoop env.startSocket env.polls).2 = .broke ∧ env.enterPipelineOk = true ∧
      (asyncConnect env).1 = .assign env.startSocket :: (pollLoop env.startSocket env.polls).1 ++
        [.enterPipeline] := by
  unfold asyncConnect at h ⊢
  split_ifs at h ⊢
  all_goals simp only [Outcome.completed.injEq, reduceCtorEq] at h
  all_goals
    revert h
    cases hr : (pollLoop env.startSocket env.polls).2 with
    | returned ec => exact fun h => absurd (by simpa using h) (pollLoop_returned _ hr)
    | _ => simp_all

theorem handshake (env : Env) : Handshake env where
  calls := by
    obtain ⟨n, hn⟩ := pollLoop_calls env.startSocket env.polls
    unfold asyncConnect
    split_ifs <;> first | exact ⟨0, .inl rfl⟩ | skip
    all_goals
      refine ⟨n, ?_⟩
      dsimp only
      cases (pollLoop env.startSocket env.polls).2 <;> simp [hn]
  firstFailure := fun pre p post hps hpre hp ha hb hn => by
    have : (pollLoop env.startSocket (pre ++ p :: post)).2 = .returned .connectionFailed :=
      pollLoop_failed env.startSocket hpre hp
    rw [← hps] at this
    simp [asyncConnect, ha, hb, hn, this]
  success := fun hs => by
    obtain ⟨hb, he, hc⟩ := asyncConnect_success hs
    exact ⟨pollLoop_broke _ hb, he, by rw [hc, List.getLast?_concat]⟩

end AsiofiedLibpq.Connection
