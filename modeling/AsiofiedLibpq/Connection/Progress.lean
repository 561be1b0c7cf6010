import AsiofiedLibpq.Connection.Termination
import AsiofiedLibpq.Connection.Outcomes
import Mathlib.Data.List.Dedup

set_option autoImplicit false

/-!
# The network's part of a run completes every queued handler

The routing invariant says that the query results still to come are what the queued
handlers still owe. So `result_handlers_` is empty exactly when no query result is left
in libpq's buffers, at the server or on the socket, it lists the execs those results belong
to in the order they travel, and a handler can wait for ever only if something stops the
session from emptying.

Nothing in the engine does, as long as `async_run` runs and the send path never reads
input behind the reader's back: the writer, woken by every submission, flushes the output
buffer, the server answers what it received, and the reader, waiting on the socket with
nothing held, wakes on the answers and takes all of them. After that network schedule the
queue is empty, no `assert` has failed, and every exec still suspended finds its handler
completed, so its resumption returns success.
-/

namespace AsiofiedLibpq.Connection

open Session

theorem Action.Routable.succeeds {a : Action} (h : a.Routable) : a.Succeeds := by
  cases a <;> simp_all [Action.Routable, Action.Succeeds]

/-- The network's part of a run from `s`: one `PQflush` sends the whole output buffer, the
server answers every command it then holds, and the reader wakes and `PQconsumeInput` reads
every result on the socket. -/
def Conn.deliver (s : Conn) : List Action :=
  let m := s.session.server.length + s.session.out.length
  .writerResume ⟨false, ⟨s.session.out.length, false⟩⟩ :: List.replicate m .serve ++
    [.readerWake, .readerResume (s.session.sock.length + m) true]

section Deliver

variable {s : Conn}

theorem Session.serve_iterate (ss : Session) (k : Nat) :
    Session.serve^[k] ss =
      { ss with server := ss.server.drop k, sock := ss.sock ++ ss.server.take k } := by
  induction k generalizing ss with
  | zero => simp
  | succ k ih =>
    rw [Function.iterate_succ_apply, ih]
    obtain ⟨out, _ | ⟨m, rest⟩, sock, input⟩ := ss <;> simp [Session.serve]

theorem Conn.run_serve (hl : s.live = true) (k : Nat) :
    s.run (List.replicate k .serve) = ({ s with session := Session.serve^[k] s.session }, []) := by
  induction k generalizing s with
  | zero => rfl
  | succ k ih =>
    rw [List.replicate_succ, Conn.run_cons]
    simp only [Conn.step, hl, if_true]
    rw [ih (s := { s with session := s.session.serve }) hl]
    simp [Function.iterate_succ_apply]

/-- The writer's flush of the whole output buffer, in an uncancelled `async_run`: from a
wake-up or a writable socket it sends everything; parked on `write_cv_`, it has nothing to
send. -/
theorem Conn.flushAll_spec (hl : s.live = true) (hc : s.loop.cancelling = false)
    (hw : s.loop.writer = .idle ∨ s.loop.writer = .woken ∨ s.loop.writer = .waitWrite)
    (hW : s.WriterArmed) :
    let s₁ := (s.step (.writerResume ⟨false, ⟨s.session.out.length, false⟩⟩)).1
    s₁.session.out = [] ∧ s₁.session.server.length ≤ s.session.server.length + s.session.out.length ∧
      s₁.session.sock = s.session.sock ∧ s₁.session.input = s.session.input ∧ s₁.live = s.live ∧
      s₁.loop.reader = s.loop.reader ∧ s₁.destroyed = s.destroyed := by
  rcases hw with hw | hw | hw
  · simp [Conn.step, hw, hW hw]
  all_goals
    have hg : (s.live && (s.loop.writer == .woken || s.loop.writer == .waitWrite)) = true := by
      simp [hl, hw]
    simp only [Conn.step, hg, if_true]
    simp [Conn.writerResume, Session.pqFlush, Session.transmit, Loop.writerAwait, Conn.withLoop,
      hc, Conn.live]

/-- The reader's wake-up and a `PQconsumeInput` of at least what the socket holds leave
nothing on the socket and nothing in the session. -/
theorem Conn.readAll_spec (hl : s.live = true)
    (hr : s.loop.reader = .waitRead ∨ s.loop.reader = .woken) (hR : s.ReaderClear) {k : Nat}
    (hk : s.session.sock.length ≤ k) :
    let s₃ := (s.run [.readerWake, .readerResume k true]).1
    s₃.session.inFlight = s.session.server ++ s.session.out ∧ s₃.destroyed = s.destroyed := by
  have read : ∀ t : Conn, t.live = true → t.loop.reader = .woken → t.session = s.session →
      t.destroyed = s.destroyed →
      (t.step (.readerResume k true)).1.session.inFlight = s.session.server ++ s.session.out ∧
        (t.step (.readerResume k true)).1.destroyed = s.destroyed := fun t htl htr hts htd => by
    simp only [Conn.step, htl, htr, Conn.readerResume, beq_self_eq_true, Bool.and_self, if_true,
      Conn.readerLoop_destroyed, Conn.readerLoop_session, htd, and_true]
    simp [Session.inFlight, Session.consume, hts, List.drop_eq_nil_of_le hk]
  rcases hr with hr | hr
  · by_cases hs : s.session.sock = []
    · have hg : (s.step .readerWake).1 = s := by simp [Conn.step, hs]
      have hn : (s.step (.readerResume k true)).1 = s := by simp [Conn.step, hr]
      simp only [Conn.run_cons, hg, hn, Conn.run_nil, and_true]
      simp [Session.inFlight, hs, hR hr]
    · have hg : (s.step .readerWake).1 = { s with loop := { s.loop with reader := .woken } } := by
        simp [Conn.step, hl, hr, hs]
      simpa [Conn.run_cons, hg] using
        read { s with loop := { s.loop with reader := .woken } } hl rfl rfl rfl
  · have hg : (s.step .readerWake).1 = s := by simp [Conn.step, hr]
    simpa [Conn.run_cons, hg] using read s hl hr rfl rfl

theorem Conn.serveRead_spec (hl : s.live = true)
    (hr : s.loop.reader = .waitRead ∨ s.loop.reader = .woken) (hR : s.ReaderClear) {m k : Nat}
    (hm : s.session.server.length ≤ m) (hk : s.session.sock.length + m ≤ k) :
    let t := (s.run (List.replicate m .serve ++ [.readerWake, .readerResume k true])).1
    t.session.inFlight = s.session.out ∧ t.destroyed = s.destroyed := by
  rw [Conn.run_append, Conn.run_serve hl]
  have h := Conn.readAll_spec (s := { s with session := Session.serve^[m] s.session }) hl hr
    (fun h => by simpa [Session.serve_iterate] using hR h) (k := k)
    (by simp [Session.serve_iterate]; omega)
  simpa [Session.serve_iterate, List.drop_eq_nil_of_le hm] using h

/-- The network schedule from an uncancelled `async_run` empties the session. -/
theorem Conn.deliver_clears (hl : s.live = true) (hr : s.loop.run = .running)
    (hc : s.loop.cancelling = false) (hA : s.Active) (hW : s.WriterArmed) (hR : s.ReaderClear) :
    (s.run s.deliver).1.session.inFlight = [] ∧ (s.run s.deliver).1.destroyed = s.destroyed := by
  obtain ⟨hw, hrd⟩ := hA hl hr hc
  obtain ⟨ho, hsv, hsk, hin, hl₁, hrd₁, hd₁⟩ := Conn.flushAll_spec hl hc hw hW
  obtain ⟨hf, hd⟩ := Conn.serveRead_spec (hl₁.trans hl) (hrd₁ ▸ hrd)
    (fun h => hin ▸ hR (hrd₁ ▸ h)) hsv
    (k := s.session.sock.length + (s.session.server.length + s.session.out.length)) (by rw [hsk])
  simp only [Conn.deliver, List.cons_append, Conn.run_cons]
  exact ⟨hf.trans ho, hd.trans hd₁⟩

end Deliver

theorem Exec.owed_ne_nil {x : Exec} (e : Nat) (hw : x.handler.status = .waiting)
    (hlt : x.received < x.total) : x.owed e ≠ [] := by
  simp [Exec.owed, hw]
  omega

theorem Routed.queue_nil_iff {s : Conn} {tr : List Event} (h : Routed [] s tr)
    (hd : s.destroyed = false) :
    s.resultHandlers = [] ↔ s.session.inFlight.filter Msg.isQuery = [] := by
  have ha := h.aligned hd
  simp only [answers, List.nil_append] at ha
  rw [ha, Conn.owed, List.flatten_eq_nil_iff]
  constructor
  · intro hq
    simp [hq]
  · intro hall
    match hq : s.resultHandlers with
    | [] => rfl
    | e :: _ =>
      have he : e ∈ s.resultHandlers := hq ▸ List.mem_cons_self _ _
      obtain ⟨hw, hlt⟩ := h.queued e he
      exact absurd (hall _ (List.mem_map_of_mem _ he)) (Exec.owed_ne_nil e hw hlt)

def Msg.execOf : Msg → Option Nat
  | .query e _ => some e
  | .sync => none

theorem filterMap_execOf_owed (x : Exec) (e : Nat) :
    (x.owed e).filterMap Msg.execOf = List.replicate (x.owed e).length e := by
  unfold Exec.owed
  split_ifs
  · rw [List.filterMap_map, List.length_map, ← List.map_const']
    exact congrFun (List.filterMap_eq_map _) _
  · rfl

theorem filterMap_execOf_isQuery (l : List Msg) :
    (l.filter Msg.isQuery).filterMap Msg.execOf = l.filterMap Msg.execOf := by
  induction l with
  | nil => rfl
  | cons m l ih => cases m <;> simp [Msg.execOf, Msg.isQuery, ih, List.filter_cons]

theorem dedup_replicate_append {h : Nat} {l : List Nat} (hl : h ∉ l) :
    ∀ k, (List.replicate (k + 1) h ++ l).dedup = h :: l.dedup
  | 0 => List.dedup_cons_of_not_mem hl
  | k + 1 => by
    rw [List.replicate_succ, List.cons_append,
      List.dedup_cons_of_mem (List.mem_append_left _ (List.mem_replicate.mpr ⟨by omega, rfl⟩)),
      dedup_replicate_append hl k]

theorem dedup_owed (f : Nat → Exec) : ∀ {q : List Nat}, q.Nodup → (∀ e ∈ q, (f e).owed e ≠ []) →
    (((q.map fun e => (f e).owed e).flatten).filterMap Msg.execOf).dedup = q
  | [], _, _ => rfl
  | h :: q, hq, hne => by
    obtain ⟨hh, hq⟩ := List.nodup_cons.mp hq
    obtain ⟨k, hk⟩ : ∃ k, ((f h).owed h).length = k + 1 :=
      Nat.exists_eq_succ_of_ne_zero (by simpa using hne h (List.mem_cons_self _ _))
    have hout : h ∉ ((q.map fun e => (f e).owed e).flatten).filterMap Msg.execOf := fun hm => by
      obtain ⟨m, hm, hme⟩ := List.mem_filterMap.mp hm
      obtain ⟨l, hl, hm⟩ := List.mem_flatten.mp hm
      obtain ⟨e, he, rfl⟩ := List.mem_map.mp hl
      have := List.mem_filterMap.mpr ⟨m, hm, hme⟩
      rw [filterMap_execOf_owed, List.mem_replicate] at this
      exact hh (this.2 ▸ he)
    rw [List.map_cons, List.flatten_cons, List.filterMap_append, filterMap_execOf_owed, hk,
      dedup_replicate_append hout, dedup_owed f hq fun e he => hne e (List.mem_cons_of_mem _ he)]

theorem Routed.queue_eq_execsInFlight {s : Conn} {tr : List Event} (h : Routed [] s tr)
    (hd : s.destroyed = false) :
    s.resultHandlers = (s.session.inFlight.filterMap Msg.execOf).dedup := by
  have ha := h.aligned hd
  simp only [answers, List.nil_append] at ha
  rw [← filterMap_execOf_isQuery, ha, Conn.owed, dedup_owed s.execs (h.sorted.imp Nat.ne_of_lt)
    fun e he => Exec.owed_ne_nil e (h.queued e he).1 (h.queued e he).2]

/-- `async_run` started, then two execs submitted; no result has arrived yet. -/
def queuedRun : List Action :=
  [.startRun, .asyncQuery true true ⟨0, false⟩, .asyncExecPipeline 100 2 2 true ⟨0, false⟩]

/-- In every run whose submissions succeed over non-empty ranges, while the connection is
there, `result_handlers_` is empty exactly when no query result is still to come: none waits
in libpq's output buffer, at the server, on the socket or in the session. So no handler waits
for a result that will never arrive, and every result on its way has a handler to take it. -/
theorem queue_empty_iff_idle (acts : List Action) (ha : ∀ a ∈ acts, a.Routable)
    (hd : (Conn.init.run acts).1.destroyed = false) :
    (Conn.init.run acts).1.resultHandlers = [] ↔
      (Conn.init.run acts).1.session.inFlight.filter Msg.isQuery = [] :=
  (routed_run ha).queue_nil_iff hd

theorem queued_run_awaits_results :
    (∀ a ∈ queuedRun, a.Routable) ∧ (Conn.init.run queuedRun).1.destroyed = false ∧
      (Conn.init.run queuedRun).1.resultHandlers = [0, 1] ∧
      (Conn.init.run queuedRun).1.session.inFlight.filter Msg.isQuery ≠ [] :=
  ⟨by decide, rfl, rfl, fun h =>
    absurd ((queue_empty_iff_idle queuedRun (by decide) rfl).mpr h) (by decide)⟩

/-- In every run whose submissions succeed over non-empty ranges, while the connection is
there, `result_handlers_` lists the execs whose query results are still to come, each once and
in the order their results travel to the reader. -/
theorem queue_lists_execs_in_flight (acts : List Action) (ha : ∀ a ∈ acts, a.Routable)
    (hd : (Conn.init.run acts).1.destroyed = false) :
    (Conn.init.run acts).1.resultHandlers =
      ((Conn.init.run acts).1.session.inFlight.filterMap Msg.execOf).dedup :=
  (routed_run ha).queue_eq_execsInFlight hd

theorem queued_run_lists_execs :
    (∀ a ∈ queuedRun, a.Routable) ∧ (Conn.init.run queuedRun).1.destroyed = false ∧
      (Conn.init.run queuedRun).1.resultHandlers =
        ((Conn.init.run queuedRun).1.session.inFlight.filterMap Msg.execOf).dedup :=
  ⟨by decide, rfl, queue_lists_execs_in_flight queuedRun (by decide) rfl⟩

/-- In every run started with `async_run` whose submissions succeed over non-empty ranges and
never read input on the send path: from any moment `async_run` runs uncancelled on a live
connection, the network schedule leaves `result_handlers_` empty without the reader's
`assert` failing, and every exec still suspended finds its handler completed. -/
theorem delivery_completes_handlers (acts : List Action)
    (ha : ∀ a ∈ acts, a.Routable ∧ ¬ a.ReadsOnSend ∧ a ≠ .startRun) (s : Conn)
    (hs : s = (Conn.init.run (.startRun :: acts)).1) (hd : s.destroyed = false)
    (hr : s.loop.run = .running) (hc : s.loop.cancelling = false) :
    (s.run s.deliver).1.resultHandlers = [] ∧ Event.assertFailed ∉ (s.run s.deliver).2 ∧
      ∀ e, ((s.run s.deliver).1.execs e).phase = .awaiting →
        ((s.run s.deliver).1.execs e).handler.status = .completed := by
  have hR : Routed [] s (Conn.init.run (.startRun :: acts)).2 :=
    hs ▸ routed_run (List.forall_mem_cons.mpr ⟨trivial, fun a h => (ha a h).1⟩)
  have hO : Outcomes s ([] ++ (Conn.init.run (.startRun :: acts)).2) :=
    hs ▸ outcomes_init.run (.startRun :: acts)
  have hW : s.WriterArmed := by
    rw [hs, Conn.run_cons]
    exact Conn.WriterArmed.run (fun _ => by decide) fun a h => ⟨(ha a h).1.succeeds, (ha a h).2.2⟩
  have hC : s.ReaderClear := hs ▸ Conn.run_preserves (fun _ _ h hc => hc.step h)
    (fun hw => by cases hw) (List.forall_mem_cons.mpr ⟨id, fun a h => (ha a h).2.1⟩)
  have hl : s.live = true := by simp [Conn.live, hd, hR.notAborted]
  obtain ⟨hf, hd'⟩ := Conn.deliver_clears hl hr hc (hs ▸ Conn.active_run _) hW hC
  have hR' := hR.run fun a (h : a ∈ s.deliver) => by
    simp only [Conn.deliver, List.cons_append, List.mem_cons, List.mem_append,
      List.mem_replicate, List.not_mem_nil, or_false] at h
    rcases h with rfl | ⟨-, rfl⟩ | rfl | rfl <;> trivial
  have hdF : (s.run s.deliver).1.destroyed = false := hd'.trans hd
  have hq : (s.run s.deliver).1.resultHandlers = [] := (hR'.queue_nil_iff hdF).mpr (by simp [hf])
  refine ⟨hq, fun hm => hR'.noAssert (List.mem_append_right _ hm), fun e hp => ?_⟩
  have hO' := hO.run s.deliver
  cases hst : ((s.run s.deliver).1.execs e).handler.status with
  | completed => rfl
  | waiting => simpa [hq] using hR'.pending e hp hst
  | cancelled => simpa [hdF] using (hO'.cancelled e hst).1

theorem queued_run_drains :
    (Conn.init.run queuedRun).1.resultHandlers = [0, 1] ∧
      (∀ a ∈ queuedRun.tail, a.Routable ∧ ¬ a.ReadsOnSend ∧ a ≠ .startRun) ∧
      (Conn.init.run queuedRun).1.destroyed = false ∧
      (Conn.init.run queuedRun).1.loop.run = .running ∧
      (Conn.init.run queuedRun).1.loop.cancelling = false ∧
      ((Conn.init.run queuedRun).1.run (Conn.init.run queuedRun).1.deliver).1.resultHandlers = [] :=
  ⟨rfl, by decide, rfl, rfl, rfl,
    (delivery_completes_handlers queuedRun.tail (by decide) _ rfl rfl rfl rfl).1⟩

end AsiofiedLibpq.Connection
