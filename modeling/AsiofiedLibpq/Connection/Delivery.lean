import AsiofiedLibpq.Connection.Routing

set_option autoImplicit false

/-!
# What a run delivers to each exec

The routing invariant read off at the end of a run. While every submission
succeeds and every pipeline sends a query, a handler is handed exactly the
results of its own exec's queries, in send order, and nothing is lost on the
way: every result of a pushed handler's exec has been handed to it or is still
in flight. Handlers leave the queue in the order they were pushed; an exec that
completes without error holds its own results; and a pipeline handler assigns
only inside its own range, and nothing once its exec has completed.

Two failing runs close the module: an empty pipeline, whose handler is pushed
owing nothing, and a submission whose `PQpipelineSync` fails after its query
was queued, which pushes no handler for that query.
-/

namespace AsiofiedLibpq.Connection

def Msg.ofExec (e : Nat) : Msg → Bool
  | .query h _ => h == e
  | .sync => false

/-- What routing guarantees of the events `tr` of a run that ends in `s`: the reader never
reaches its assert with an empty queue; a handler is handed its own exec's results only, never
a sync marker, and in send order; until `~connection`, each result of an exec whose handler
was pushed has been handed to that handler or is still in flight; handlers leave the queue in
the order they were pushed; and an exec that completes without error holds exactly its own
results. -/
structure Delivered (s : Conn) (tr : List Event) : Prop where
  noAssert : Event.assertFailed ∉ tr
  ownOnly : ∀ h m, Event.handle h m ∈ tr → ∃ j, m = .query h j
  inSendOrder : ∀ e, handledBy e tr = queries e (s.execs e).received
  handedOrInFlight : s.destroyed = false → ∀ e ∈ pushesOf tr,
    handledBy e tr ++ s.session.inFlight.filter (Msg.ofExec e) = queries e (s.execs e).total
  completesInOrder : popsOf tr <+: pushesOf tr
  holdsOwn : ∀ e r, Event.done e .success r ∈ tr →
    match (s.execs e).request with
    | .query => r = some (.query e 0)
    | .pipeline first n => writesBy e tr = (List.range n).map fun j => (first + j, .query e j)

/-- What a pipeline's caller storage sees during the run: once an exec has completed, its
handler assigns nothing more, and a handler assigns only inside its own exec's range. -/
structure StorageSafe (s : Conn) (tr : List Event) : Prop where
  noWriteAfterDone : ∀ e ec r a m, ¬ [Event.done e ec r, .write e a m].Sublist tr
  inRange : ∀ e a m, Event.write e a m ∈ tr →
    ∃ first n, (s.execs e).request = .pipeline first n ∧ first ≤ a ∧ a < first + n

theorem mem_handledBy {e : Nat} {m : Msg} {tr : List Event} (hm : Event.handle e m ∈ tr) :
    m ∈ handledBy e tr :=
  List.mem_filterMap.mpr ⟨_, hm, by simp [Event.handleFor]⟩

theorem mem_writesBy {e a : Nat} {m : Msg} {tr : List Event} (hm : Event.write e a m ∈ tr) :
    (a, m) ∈ writesBy e tr :=
  List.mem_filterMap.mpr ⟨_, hm, by simp [Event.writeFor]⟩

theorem Exec.written_le_total {x : Exec} (hwf : x.Wf) : x.written ≤ x.total := by
  obtain ⟨req, ⟨st, slot⟩, ph⟩ := x
  match req, slot, hwf with
  | .query, .single _, _ => exact Nat.zero_le _
  | .pipeline first n, .pipeline cur last nDummy, ⟨hl, _, h₂, _⟩ =>
    simp only [Exec.written_pipeline, Exec.total_pipeline]; omega

theorem owed_filter_ofExec (x : Exec) (h e : Nat) :
    (x.owed h).filter (Msg.ofExec e) = if h = e then x.owed h else [] := by
  unfold Exec.owed
  by_cases hh : h = e <;> split_ifs <;> simp [List.filter_map, Function.comp_def, Msg.ofExec, hh]

theorem flatten_owed_filter (f : Nat → Exec) (e : Nat) :
    ∀ {q : List Nat}, q.Nodup →
      ((q.map fun h => (f h).owed h).flatten).filter (Msg.ofExec e) =
        if e ∈ q then (f e).owed e else []
  | [], _ => rfl
  | h :: q, hq => by
    obtain ⟨hh, hq⟩ := List.nodup_cons.mp hq
    rw [List.map_cons, List.flatten_cons, List.filter_append, owed_filter_ofExec,
      flatten_owed_filter f e hq]
    by_cases he : h = e
    · subst he
      simp [hh]
    · simp [he, Ne.symm he]

namespace Routed

variable {s : Conn} {tr : List Event}

theorem handed_or_inFlight (h : Routed [] s tr) (hd : s.destroyed = false) {e : Nat}
    (he : e ∈ pushesOf tr) :
    handledBy e tr ++ s.session.inFlight.filter (Msg.ofExec e) = queries e (s.execs e).total := by
  have hflt : s.session.inFlight.filter (Msg.ofExec e) =
      if e ∈ s.resultHandlers then (s.execs e).owed e else [] := by
    rw [← flatten_owed_filter s.execs e (h.sorted.imp Nat.ne_of_lt), ← Conn.owed, ← h.aligned hd,
      answers, List.nil_append, List.filter_filter]
    congr 1
    funext m
    cases m <;> simp [Msg.ofExec, Msg.isQuery]
  rw [hflt, h.handled e]
  rcases List.mem_append.mp ((h.fifo hd).symm ▸ he) with hp | hq
  · obtain ⟨hc, hr⟩ := h.poppedDone e hp
    rw [if_neg fun hq => (by rw [(h.queued e hq).1] at hc; cases hc), List.append_nil, hr]
  · obtain ⟨hw, hlt⟩ := h.queued e hq
    have hr := List.range'_append_1 0 (s.execs e).received ((s.execs e).total - (s.execs e).received)
    rw [Nat.zero_add, Nat.sub_add_cancel hlt.le] at hr
    rw [if_pos hq, Exec.owed, if_pos hw, queries, queries, ← List.map_append,
      List.range_eq_range', List.range_eq_range', hr]

theorem delivered (h : Routed [] s tr) : Delivered s tr where
  noAssert := h.noAssert
  ownOnly := fun e m hm => by
    have := h.handled e ▸ mem_handledBy hm
    obtain ⟨j, -, rfl⟩ := List.mem_map.mp this
    exact ⟨j, rfl⟩
  inSendOrder := h.handled
  handedOrInFlight := fun hd _ he => h.handed_or_inFlight hd he
  completesInOrder := h.popsPrefix
  holdsOwn := fun e r hm => by
    have hok := h.doneOk e r hm
    rw [h.written e]
    revert hok
    unfold Exec.writes
    split <;> simp_all

theorem storageSafe (h : Routed [] s tr) : StorageSafe s tr where
  noWriteAfterDone := h.doneWrites
  inRange := fun e a m hm => by
    have hw := h.written e ▸ mem_writesBy hm
    have hle := Exec.written_le_total (h.wf e)
    unfold Exec.writes at hw
    split at hw
    · rename_i first n hreq
      obtain ⟨j, hj, hja⟩ := List.mem_map.mp hw
      simp only [Prod.mk.injEq] at hja
      simp only [Exec.total, hreq, List.mem_range] at hle hj
      exact ⟨first, n, hreq, by omega, by omega⟩
    · simp at hw

end Routed

section Routable

variable {acts : List Action} (ha : ∀ a ∈ acts, a.Routable)
include ha

/-- Routing along every run whose submissions succeed and whose pipelines are
non-empty, with cancellations at any moment. -/
theorem run_delivered : Delivered (Conn.init.run acts).1 (Conn.init.run acts).2 :=
  (routed_run ha).delivered

theorem run_storage_safe : StorageSafe (Conn.init.run acts).1 (Conn.init.run acts).2 :=
  (routed_run ha).storageSafe

end Routable

def cancelledPipelineRun : List Action :=
  [.startRun, .asyncExecPipeline 100 2 2 true ⟨0, false⟩, .asyncQuery true true ⟨0, false⟩,
    .cancelExec 0, .writerResume ⟨false, ⟨100, false⟩⟩, .serve, .serve, .serve, .serve, .serve,
    .readerWake, .readerResume 10 true, .resumeExec 1]

theorem cancelled_pipeline_delivered :
    (∀ a ∈ cancelledPipelineRun, a.Routable) ∧
      Delivered (Conn.init.run cancelledPipelineRun).1 (Conn.init.run cancelledPipelineRun).2 :=
  ⟨by decide, run_delivered (by decide)⟩

theorem cancelled_pipeline_storage_safe :
    (∀ a ∈ cancelledPipelineRun, a.Routable) ∧
      StorageSafe (Conn.init.run cancelledPipelineRun).1 (Conn.init.run cancelledPipelineRun).2 :=
  ⟨by decide, run_storage_safe (by decide)⟩

def emptyPipelineRun : List Action :=
  [.startRun, .asyncExecPipeline 100 0 0 true ⟨0, false⟩, .asyncQuery true true ⟨0, false⟩,
    .writerResume ⟨false, ⟨100, false⟩⟩, .serve, .serve, .serve, .readerWake, .readerResume 10 true]

/-- An empty pipeline over `[100, 100)`, then a query: the empty pipeline pushes a handler with `first_ == last_` that owes nothing; the next
query's result goes to it, it assigns that result through `first_`, outside its range, and is
left waiting with `first_` past `last_`. -/
theorem empty_pipeline_takes_next_result :
    ((Conn.init.run emptyPipelineRun).1.execs 0).handler = ⟨.waiting, .pipeline 101 100 0⟩ ∧
      (Conn.init.run emptyPipelineRun).1.resultHandlers = [0, 1] ∧
      (Conn.init.run emptyPipelineRun).2 =
        [.push 0, .push 1, .handle 0 (.query 1 0), .write 0 100 (.query 1 0)] := by
  decide

/-- `PQpipelineSync` fails after exec 0's query was queued: no handler is pushed
for it, its result completes exec 1, and exec 1's own result then reaches the
assert. -/
theorem failed_sync_misroutes :
    (Conn.init.run [.startRun, .asyncQuery true false ⟨0, false⟩, .asyncQuery true true ⟨0, false⟩,
      .writerResume ⟨false, ⟨100, false⟩⟩, .serve, .readerWake, .readerResume 10 true,
      .resumeExec 1, .serve, .serve, .readerWake, .readerResume 10 true]).2 =
      [.done 0 .pqpipelinesyncFailed none, .push 1, .handle 1 (.query 0 0), .pop 1,
        .done 1 .success (some (.query 0 0)), .assertFailed] := by
  decide

end AsiofiedLibpq.Connection
