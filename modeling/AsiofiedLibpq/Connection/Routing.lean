import AsiofiedLibpq.Connection.Trace

set_option autoImplicit false

/-!
# Routing results to their handlers

The invariant behind every routing statement: the results still to come,
with the sync markers left out, are exactly what the queued handlers still
owe, handler after handler in queue order. A reader step takes the oldest
result, which is therefore owed by the handler at the head of the queue.

`Routed held s tr` says this of a state `s` reached with events `tr`, while
the reader holds `held`, the results it took from the session and has not
yet dispatched. It holds of every state a run reaches when every submission
succeeds and every pipeline sends at least one query.
-/

namespace AsiofiedLibpq.Connection

open Session

/-- Submissions whose `PQsendQueryParams` and `PQpipelineSync` calls all
succeed, over a non-empty range. -/
def Action.Routable : Action → Prop
  | .asyncQuery sendOk syncOk _ => sendOk = true ∧ syncOk = true
  | .asyncExecPipeline _ n accepted syncOk _ => 0 < n ∧ n ≤ accepted ∧ syncOk = true
  | _ => True

instance : DecidablePred Action.Routable := fun a => by
  cases a <;> unfold Action.Routable <;> infer_instance

/-- The answers in flight, sync markers dropped. -/
def answers (held : List Msg) (s : Conn) : List Msg :=
  (held ++ s.session.inFlight).filter Msg.isQuery

/-- What the queued handlers owe, in queue order. -/
def Conn.owed (s : Conn) : List Msg := (s.resultHandlers.map fun h => (s.execs h).owed h).flatten

structure Routed (held : List Msg) (s : Conn) (tr : List Event) : Prop where
  notAborted : s.aborted = false
  noAssert : Event.assertFailed ∉ tr
  sorted : s.resultHandlers.Pairwise (· < ·)
  bounded : ∀ e ∈ s.resultHandlers, e < s.nextExec
  fresh : ∀ e, s.nextExec ≤ e → s.execs e = .unused
  wf : ∀ e, (s.execs e).Wf
  queued : ∀ e ∈ s.resultHandlers,
    (s.execs e).handler.status = .waiting ∧ (s.execs e).received < (s.execs e).total
  queuedDone : ∀ e ∈ s.resultHandlers, (s.execs e).phase ≠ .awaiting → (s.execs e).Dummy
  live : ∀ e, (s.execs e).phase = .awaiting → (s.execs e).Live
  pending : ∀ e, (s.execs e).phase = .awaiting → (s.execs e).handler.status = .waiting →
    e ∈ s.resultHandlers
  result : ∀ e m, (s.execs e).handler.slot = .single (some m) → m = .query e 0
  aligned : s.destroyed = false → answers held s = s.owed
  handled : ∀ e, handledBy e tr = queries e (s.execs e).received
  written : ∀ e, writesBy e tr = (s.execs e).writes e
  fifo : s.destroyed = false → popsOf tr ++ s.resultHandlers = pushesOf tr
  popsPrefix : popsOf tr <+: pushesOf tr
  poppedDone : ∀ e ∈ popsOf tr,
    (s.execs e).handler.status = .completed ∧ (s.execs e).received = (s.execs e).total
  doneFinal : ∀ e ec r, .done e ec r ∈ tr → ∃ ec', (s.execs e).phase = .done ec'
  doneWrites : ∀ e ec r a m, ¬ [.done e ec r, .write e a m].Sublist tr
  doneOk : ∀ e r, .done e .success r ∈ tr →
    match (s.execs e).request with
    | .query => r = some (.query e 0)
    | .pipeline _ n => (s.execs e).written = n

theorem routed_init : Routed [] Conn.init [] where
  notAborted := rfl
  noAssert := List.not_mem_nil _
  sorted := List.Pairwise.nil
  bounded := by simp [Conn.init]
  fresh := fun _ _ => rfl
  wf := fun _ => by simp [Conn.init, Exec.unused]
  queued := by simp [Conn.init]
  queuedDone := by simp [Conn.init]
  live := by simp [Conn.init, Exec.unused]
  pending := by simp [Conn.init, Exec.unused]
  result := by simp [Conn.init, Exec.unused]
  aligned := fun _ => rfl
  handled := fun _ => rfl
  written := fun _ => rfl
  fifo := fun _ => rfl
  popsPrefix := List.prefix_refl _
  poppedDone := by simp
  doneFinal := by simp
  doneWrites := by simp
  doneOk := by simp

/-- An ordered pair of events in `tr ++ evs` lies in `tr`, straddles, or lies in `evs`. -/
theorem pair_sublist_append {x y : Event} {tr evs : List Event} (h : [x, y].Sublist (tr ++ evs)) :
    [x, y].Sublist tr ∨ (x ∈ tr ∧ y ∈ evs) ∨ [x, y].Sublist evs := by
  obtain ⟨l₁, l₂, hl, h₁, h₂⟩ := List.sublist_append_iff.mp h
  rcases l₁ with _ | ⟨_, _ | ⟨_, _ | ⟨_, _⟩⟩⟩ <;>
    simp only [List.nil_append, List.cons_append, List.cons.injEq, List.append_eq_nil] at hl
  · exact .inr (.inr (hl ▸ h₂))
  · obtain ⟨rfl, rfl⟩ := hl
    exact .inr (.inl ⟨List.singleton_sublist.mp h₁, List.singleton_sublist.mp h₂⟩)
  · obtain ⟨rfl, rfl, -, -⟩ := hl
    exact .inl h₁
  · simp at hl

namespace Routed

variable {held : List Msg} {s : Conn} {tr : List Event}

theorem done_not_awaiting (h : Routed held s tr) {e : Nat} {ec : ErrorCode} {r : Option Msg}
    (hm : .done e ec r ∈ tr) : (s.execs e).phase ≠ .awaiting := by
  obtain ⟨_, hp⟩ := h.doneFinal e ec r hm
  rw [hp]; exact fun h => by cases h

/-- A step that moves nothing the routing reads, and emits only `runDone`. -/
theorem frame {s' : Conn} {evs : List Event} (h : Routed held s tr)
    (he : s'.execs = s.execs) (hn : s'.nextExec = s.nextExec)
    (hq : s'.resultHandlers = s.resultHandlers) (ha : s'.aborted = s.aborted)
    (hd : s'.destroyed = s.destroyed) (hf : s'.session.inFlight = s.session.inFlight)
    (hev : ∀ ev ∈ evs, ev.Quiet) : Routed held s' (tr ++ evs) := by
  have nq : ∀ ev ∈ evs, ∀ x, ev = x → x.Quiet := fun ev h x hx => hx ▸ hev ev h
  have hnot : ∀ e ec r, Event.done e ec r ∉ evs := fun e ec r hm => by
    obtain ⟨_, h⟩ := nq _ hm _ rfl; cases h
  constructor <;> try simp only [he, hn, hq, ha, hd, answers, Conn.owed, hf, handledBy_append,
    writesBy_append, pushesOf_append, popsOf_append, handledBy_quiet hev, writesBy_quiet hev,
    pushesOf_quiet hev, popsOf_quiet hev, List.append_nil]
  all_goals first
    | exact h.notAborted | exact h.sorted | exact h.bounded | exact h.fresh | exact h.wf
    | exact h.queued | exact h.queuedDone | exact h.live | exact h.pending | exact h.result
    | exact h.aligned
    | exact h.handled | exact h.written | exact h.fifo | exact h.popsPrefix | exact h.poppedDone
    | skip
  · simp only [List.mem_append, not_or]
    exact ⟨h.noAssert, fun hm => by obtain ⟨_, h⟩ := nq _ hm _ rfl; cases h⟩
  · intro e ec r hm
    rcases List.mem_append.mp hm with hm | hm
    · exact h.doneFinal e ec r hm
    · exact absurd hm (hnot e ec r)
  · intro e ec r a m hs
    rcases pair_sublist_append hs with hs | ⟨_, hm⟩ | hs
    · exact h.doneWrites e ec r a m hs
    · obtain ⟨_, h⟩ := nq _ hm _ rfl; cases h
    · exact hnot e ec r (hs.subset (List.mem_cons_self _ _))
  · intro e r hm
    rcases List.mem_append.mp hm with hm | hm
    · exact h.doneOk e r hm
    · exact absurd hm (hnot e .success r)

theorem frame_nil (s' : Conn) (h : Routed held s tr)
    (he : s'.execs = s.execs) (hn : s'.nextExec = s.nextExec)
    (hq : s'.resultHandlers = s.resultHandlers) (ha : s'.aborted = s.aborted)
    (hd : s'.destroyed = s.destroyed) (hf : s'.session.inFlight = s.session.inFlight) :
    Routed held s' tr := by
  simpa using (h.frame he hn hq ha hd hf (List.forall_mem_nil _) : Routed held s' (tr ++ []))

theorem withLoop (h : Routed held s tr) (r : Loop × List Event) (hq : ∀ ev ∈ r.2, ev.Quiet) :
    Routed held (s.withLoop r).1 (tr ++ (s.withLoop r).2) :=
  h.frame rfl rfl rfl rfl rfl rfl hq

/-- The oldest answer in flight is owed by the handler at the head of the queue,
and is the next one it takes. -/
theorem head_owes {a b : Nat} (h : Routed (.query a b :: held) s tr) (hd : s.destroyed = false) :
    ∃ rest, s.resultHandlers = a :: rest ∧ b = (s.execs a).received ∧
      answers held s = ((s.execs a).handled (.query a b)).owed a ++
        (rest.map fun e => (s.execs e).owed e).flatten := by
  have hal := h.aligned hd
  simp only [answers, Conn.owed, List.cons_append, List.filter_cons, Msg.isQuery, if_true] at hal
  cases hq : s.resultHandlers with
  | nil => simp [hq] at hal
  | cons e rest =>
    obtain ⟨hw, hlt⟩ := h.queued e (by simp [hq])
    rw [hq, List.map_cons, List.flatten_cons, Exec.owed_handled (.query a b) (h.wf e) hw hlt] at hal
    simp only [List.cons_append, List.cons.injEq, Msg.query.injEq] at hal
    obtain ⟨⟨rfl, rfl⟩, hrest⟩ := hal
    exact ⟨rest, rfl, rfl, hrest⟩

section HandleEvents

variable (h e : Nat) (addr : Option Nat) (m : Msg)
open Conn

theorem handledBy_handleEvents :
    handledBy e (handleEvents h addr m) = if e = h then [m] else [] := by
  by_cases he : e = h
  · subst he; cases addr <;> simp [handleEvents, Event.handleFor]
  · cases addr <;> simp [handleEvents, Event.handleFor, he, Ne.symm he]

theorem writesBy_handleEvents :
    writesBy e (handleEvents h addr m) = if e = h then (addr.map fun a => (a, m)).toList else [] := by
  by_cases he : e = h
  · subst he; cases addr <;> simp [handleEvents, Event.writeFor]
  · cases addr <;> simp [handleEvents, Event.writeFor, he, Ne.symm he]

theorem pushesOf_handleEvents : pushesOf (handleEvents h addr m) = [] := by
  cases addr <;> rfl

theorem popsOf_handleEvents : popsOf (handleEvents h addr m) = [] := by
  cases addr <;> rfl

theorem mem_handleEvents {ev : Event} (hm : ev ∈ handleEvents h addr m) :
    ev = .handle h m ∨ ∃ a, addr = some a ∧ ev = .write h a m := by
  cases addr <;> simp_all [handleEvents]

end HandleEvents

/-- One pass of the reader's inner loop on an answer. -/
theorem dispatch_query {a b : Nat} (h : Routed (.query a b :: held) s tr)
    (hd : s.destroyed = false) :
    Routed held (s.dispatch (.query a b)).1 (tr ++ (s.dispatch (.query a b)).2) := by
  obtain ⟨rest, hq, hb, hans⟩ := h.head_owes hd
  have ha : a ∈ s.resultHandlers := hq ▸ List.mem_cons_self _ _
  have hin : ∀ e ∈ rest, e ∈ s.resultHandlers := fun e he => hq ▸ List.mem_cons_of_mem _ he
  have hsorted := h.sorted
  rw [hq, List.pairwise_cons] at hsorted
  obtain ⟨hw, hlt⟩ := h.queued a ha
  have hwfa := h.wf a
  obtain ⟨hwf', hr', hc', hs'⟩ := Exec.handled_spec (.query a b) hwfa hw hlt
  have hwr := Exec.handled_writes (.query a b) hwfa hw hlt a (by rw [hb])
  have hwl := Exec.handled_write_live (.query a b) hwfa hw hlt
  simp only [Conn.dispatch, hq, Conn.handleHead]
  set x' := (s.execs a).handled (.query a b) with hx'
  set addr := ((s.execs a).handler.handle (.query a b)).2
  set evs := Conn.handleEvents a addr (.query a b) with hevs
  set execs' := Function.update s.execs a x' with hexecs
  -- the head's record is replaced, the others are kept
  have cHead : execs' a = x' := Function.update_same _ _ _
  have cRest : ∀ e ∈ rest, execs' e = s.execs e := fun e he =>
    Function.update_noteq (fun hea => by have := hsorted.1 e he; omega) _ _
  have hrest : (rest.map fun e => (execs' e).owed e) = rest.map fun e => (s.execs e).owed e :=
    List.map_congr_left fun e he => by rw [cRest e he]
  have cQ : ∀ e ∈ rest,
      (execs' e).handler.status = .waiting ∧ (execs' e).received < (execs' e).total :=
    fun e he => cRest e he ▸ h.queued e (hin e he)
  have cQD : ∀ e ∈ rest, (execs' e).phase ≠ .awaiting → (execs' e).Dummy :=
    fun e he => cRest e he ▸ h.queuedDone e (hin e he)
  -- the events name the head only, and finish nothing
  have hnd : ∀ e ec r, Event.done e ec r ∉ evs := fun e ec r hm => by
    rcases mem_handleEvents _ _ _ hm with hm | ⟨_, _, hm⟩ <;> cases hm
  have cD : ∀ e ec r, Event.done e ec r ∈ tr ++ evs → Event.done e ec r ∈ tr := fun e ec r hm =>
    (List.mem_append.mp hm).resolve_right (hnd e ec r)
  have hnA : Event.assertFailed ∉ tr ++ evs := fun hm => by
    rcases List.mem_append.mp hm with hm | hm
    · exact h.noAssert hm
    · rcases mem_handleEvents _ _ _ hm with hm | ⟨_, _, hm⟩ <;> cases hm
  have cFresh : ∀ e, s.nextExec ≤ e → execs' e = .unused := fun e he =>
    (Function.update_noteq (by have := h.bounded a ha; omega) _ _).trans (h.fresh e he)
  have cWf : ∀ e, (execs' e).Wf :=
    (Function.forall_update_iff _ fun (_ : Nat) (x : Exec) => x.Wf).mpr ⟨hwf', fun e _ => h.wf e⟩
  have cLive : ∀ e, (execs' e).phase = .awaiting → (execs' e).Live :=
    (Function.forall_update_iff _ fun (_ : Nat) (x : Exec) => x.phase = .awaiting → x.Live).mpr
      ⟨fun hp => Exec.handled_live _ hwfa hw hlt (h.live a hp), fun e _ => h.live e⟩
  have cRes : ∀ e m', (execs' e).handler.slot = .single (some m') → m' = .query e 0 :=
    (Function.forall_update_iff _
        fun (e : Nat) (x : Exec) => ∀ m', x.handler.slot = .single (some m') → m' = .query e 0).mpr
      ⟨fun m' hs => by obtain ⟨rfl, h0⟩ := Exec.handled_single_slot _ hwfa hw hlt hs; rw [hb, h0],
        fun e _ => h.result e⟩
  have cH : ∀ e, handledBy e (tr ++ evs) = queries e (execs' e).received := fun e => by
    rw [hevs, hexecs, handledBy_append, h.handled e, handledBy_handleEvents,
      Function.update_apply]
    split_ifs with hea
    · subst hea; rw [hr', hb]; simp [queries, List.range_succ]
    · simp
  have cW : ∀ e, writesBy e (tr ++ evs) = (execs' e).writes e := fun e => by
    rw [hevs, hexecs, writesBy_append, h.written e, writesBy_handleEvents, Function.update_apply]
    split_ifs with hea
    · subst hea; rw [hwr]
    · simp
  have cDF : ∀ e ec r, Event.done e ec r ∈ tr ++ evs → ∃ ec', (execs' e).phase = .done ec' :=
    (Function.forall_update_iff _ fun (e : Nat) (x : Exec) =>
        ∀ ec r, Event.done e ec r ∈ tr ++ evs → ∃ ec', x.phase = .done ec').mpr
      ⟨fun ec r hm => h.doneFinal a ec r (cD a ec r hm),
        fun e _ ec r hm => h.doneFinal e ec r (cD e ec r hm)⟩
  -- a handler that writes is live, so its exec still awaits and has no `done` yet
  have cDW : ∀ e ec r a' m', ¬ [Event.done e ec r, .write e a' m'].Sublist (tr ++ evs) := by
    intro e ec r a' m' hs
    rcases pair_sublist_append hs with hs | ⟨hm₁, hm₂⟩ | hs
    · exact h.doneWrites e ec r a' m' hs
    · rcases mem_handleEvents _ _ _ hm₂ with hm₂ | ⟨a'', ha'', hm₂⟩
      · cases hm₂
      · cases hm₂
        exact hwl _ ha'' (h.queuedDone a ha (h.done_not_awaiting hm₁))
    · exact hnd e ec r (hs.subset (List.mem_cons_self _ _))
  have cOk : ∀ e r, Event.done e .success r ∈ tr ++ evs →
      match (execs' e).request with
      | .query => r = some (.query e 0)
      | .pipeline _ n => (execs' e).written = n :=
    (Function.forall_update_iff _ fun (e : Nat) (x : Exec) =>
        ∀ r, Event.done e .success r ∈ tr ++ evs → match x.request with
        | .query => r = some (.query e 0)
        | .pipeline _ n => x.written = n).mpr
      ⟨fun r hm => by
        have hm' := cD a _ r hm
        rw [hx', Exec.handled_request,
          Exec.handled_written_dummy _ (h.queuedDone a ha (h.done_not_awaiting hm'))]
        exact h.doneOk a r hm',
        fun e _ r hm => h.doneOk e r (cD e _ r hm)⟩
  -- a handler popped before has completed, so it is not the head
  have cPD : ∀ e ∈ popsOf tr,
      (execs' e).handler.status = .completed ∧ (execs' e).received = (execs' e).total :=
    fun e he => by
      have hpd := h.poppedDone e he
      have hea : e ≠ a := fun hea => by rw [hea, hw] at hpd; cases hpd.1
      rwa [show execs' e = s.execs e from Function.update_noteq hea _ _]
  split_ifs with hc
  · -- the handler completed and is popped
    rw [← List.append_assoc]
    refine { notAborted := h.notAborted, noAssert := by simpa using hnA, sorted := hsorted.2,
             bounded := fun e he => h.bounded e (hin e he), fresh := cFresh, wf := cWf,
             queued := cQ, queuedDone := cQD,
             live := cLive, pending := ?pending, result := cRes, aligned := ?aligned,
             handled := fun e => by simpa [Event.handleFor] using cH e,
             written := fun e => by simpa [Event.writeFor] using cW e,
             fifo := ?fifo, popsPrefix := ?popsPrefix, poppedDone := ?poppedDone,
             doneFinal := fun e ec r hm => cDF e ec r (by simpa using hm),
             doneWrites := ?doneWrites, doneOk := fun e r hm => cOk e r (by simpa using hm) }
    case pending =>
      exact (Function.forall_update_iff _ fun (e : Nat) (x : Exec) =>
          x.phase = .awaiting → x.handler.status = .waiting → e ∈ rest).mpr
        ⟨fun _ hw' => (by cases hc.symm.trans hw'),
          fun e hea hp hw' => (List.mem_cons.mp (hq ▸ h.pending e hp hw')).resolve_left hea⟩
    case aligned =>
      intro _
      simp only [answers, Conn.owed] at hans ⊢
      rw [hans, Exec.owed_of_ne_waiting a (by simp [hc]), List.nil_append, hrest]
    case fifo =>
      intro _
      simp [hevs, pushesOf_handleEvents, popsOf_handleEvents, ← h.fifo hd, hq, Event.pushed,
        Event.popped]
    case popsPrefix =>
      exact ⟨rest, by simp [hevs, pushesOf_handleEvents, popsOf_handleEvents, ← h.fifo hd, hq,
        Event.pushed, Event.popped]⟩
    case poppedDone =>
      intro e he
      simp only [popsOf_append, hevs, popsOf_handleEvents, popsOf_cons, Event.popped,
        Option.toList_some, popsOf_nil, List.nil_append, List.mem_append, List.mem_singleton,
        List.not_mem_nil, or_false] at he
      rcases he with he | rfl
      · exact cPD e he
      · show (execs' e).handler.status = .completed ∧ (execs' e).received = (execs' e).total
        rw [cHead, hr', hc'.mp hc]
        exact ⟨hc, rfl⟩
    case doneWrites =>
      intro e ec r a' m' hs
      rcases pair_sublist_append hs with hs | ⟨_, hm⟩ | hs
      · exact cDW e ec r a' m' hs
      · simp at hm
      · simp at hs
  · -- the handler still waits, at the head
    have hw' : x'.handler.status = .waiting := hs'.resolve_right hc
    have hlt' : x'.received < x'.total := by
      have : x'.total = (s.execs a).total := rfl
      have := hc'.not.mp hc
      omega
    refine { notAborted := h.notAborted, noAssert := hnA, sorted := List.pairwise_cons.mpr hsorted,
             bounded := fun e he => h.bounded e (hq ▸ he), fresh := cFresh, wf := cWf,
             queued := ?queued, queuedDone := ?queuedDone, live := cLive, pending := ?pending,
             result := cRes, aligned := ?aligned, handled := cH, written := cW, fifo := ?fifo,
             popsPrefix := by
               simpa [hevs, pushesOf_handleEvents, popsOf_handleEvents] using h.popsPrefix,
             poppedDone := fun e he => cPD e (by simpa [hevs, popsOf_handleEvents] using he),
             doneFinal := cDF, doneWrites := cDW, doneOk := cOk } <;> dsimp only
    case queued => exact List.forall_mem_cons.mpr ⟨cHead ▸ ⟨hw', hlt'⟩, cQ⟩
    case queuedDone =>
      exact List.forall_mem_cons.mpr
        ⟨cHead ▸ fun hp => Exec.handled_dummy _ hwfa hw hlt (h.queuedDone a ha hp) hw', cQD⟩
    case pending =>
      exact (Function.forall_update_iff _ fun (e : Nat) (x : Exec) =>
          x.phase = .awaiting → x.handler.status = .waiting → e ∈ a :: rest).mpr
        ⟨fun _ _ => List.mem_cons_self _ _, fun e _ hp hw'' => hq ▸ h.pending e hp hw''⟩
    case aligned =>
      intro _
      simp only [answers, Conn.owed, List.map_cons, List.flatten_cons, cHead, hrest] at hans ⊢
      exact hans
    case fifo =>
      intro _
      simp [hevs, pushesOf_handleEvents, popsOf_handleEvents, h.fifo hd, ← hq]

theorem dispatch {m : Msg} (h : Routed (m :: held) s tr) (hd : s.destroyed = false) :
    Routed held (s.dispatch m).1 (tr ++ (s.dispatch m).2) := by
  cases m with
  | query a b => exact h.dispatch_query hd
  | sync =>
    simp only [Conn.dispatch, List.append_nil]
    exact { h with aligned := fun hd => by simpa [answers, Msg.isQuery] using h.aligned hd }

/-- The reader's inner loop dispatches everything it took. -/
theorem drain (h : Routed held s tr) (hd : s.destroyed = false) :
    Routed [] (s.drain held).1 (tr ++ (s.drain held).2) := by
  induction held generalizing s tr with
  | nil => simpa [Conn.drain] using h
  | cons m rest ih =>
    have h₁ := h.dispatch hd
    simp only [Conn.drain, h₁.notAborted, Bool.false_eq_true, if_false, ← List.append_assoc]
    exact ih h₁ ((Conn.dispatch_frame s m).2.2.1.trans hd)

/-- Taking the session's input into the reader's hands keeps everything in flight. -/
theorem take_input (h : Routed [] s tr) :
    Routed s.session.input { s with session := { s.session with input := [] } } tr :=
  { h with aligned := fun hd => by simpa [answers, Session.inFlight] using h.aligned hd }

theorem readerLoop (h : Routed [] s tr) (hd : s.destroyed = false) :
    Routed [] s.readerLoop.1 (tr ++ s.readerLoop.2) := by
  have h₁ := h.take_input.drain hd
  unfold Conn.readerLoop
  rw [if_neg (by simp [h₁.notAborted])]
  simp only [Conn.withLoop, ← List.append_assoc]
  exact h₁.frame rfl rfl rfl rfl rfl rfl (Loop.readerAwait_quiet _)

theorem not_done_fresh (h : Routed held s tr) {e : Nat} (he : s.nextExec ≤ e) {ec : ErrorCode}
    {r : Option Msg} : .done e ec r ∉ tr := fun hm => by
  obtain ⟨_, hp⟩ := h.doneFinal e ec r hm
  rw [h.fresh e he] at hp
  cases hp

/-- A submission whose calls all succeeded: its commands are queued, and its
handler, owing exactly its queries, goes to the back of the queue. -/
theorem pushHandler (h : Routed [] s tr) {req : Request} {cmds : List Msg} {io : SendIO}
    {rh : Handler} (hwf : (⟨req, rh, .awaiting⟩ : Exec).Wf) (hw : rh.status = .waiting)
    (h0 : (⟨req, rh, .awaiting⟩ : Exec).received = 0)
    (hpos : 0 < (⟨req, rh, .awaiting⟩ : Exec).total)
    (hwr : (⟨req, rh, .awaiting⟩ : Exec).written = 0) (hlive : (⟨req, rh, .awaiting⟩ : Exec).Live)
    (hcmds : cmds.filter Msg.isQuery = queries s.nextExec (⟨req, rh, .awaiting⟩ : Exec).total) :
    Routed [] (s.pushHandler req cmds io rh).1 (tr ++ (s.pushHandler req cmds io rh).2) := by
  set e := s.nextExec
  set x : Exec := ⟨req, rh, .awaiting⟩
  have hfresh : s.execs e = .unused := h.fresh e le_rfl
  have hne : ∀ e' ∈ s.resultHandlers, e' ≠ e := fun e' he' => Nat.ne_of_lt (h.bounded e' he')
  have hupd : ∀ e', Function.update s.execs e x e' = if e' = e then x else s.execs e' :=
    fun e' => Function.update_apply ..
  have hold : ∀ e' ∈ s.resultHandlers, Function.update s.execs e x e' = s.execs e' :=
    fun e' he' => Function.update_noteq (hne e' he') _ _
  have hnd : ∀ e' ec r, e' = e → Event.done e' ec r ∉ tr := fun _ _ _ he' =>
    h.not_done_fresh (le_of_eq he'.symm)
  have hrest : (s.resultHandlers.map fun e' => (Function.update s.execs e x e').owed e') =
      s.resultHandlers.map fun e' => (s.execs e').owed e' :=
    List.map_congr_left fun e' he' => by rw [hold e' he']
  refine { notAborted := h.notAborted, noAssert := by simp [Conn.pushHandler, h.noAssert],
           sorted := ?sorted, bounded := ?bounded, fresh := ?fresh, wf := ?wf, queued := ?queued,
           queuedDone := ?queuedDone, live := ?live, pending := ?pending, result := ?result,
           aligned := ?aligned, handled := ?handled, written := ?written, fifo := ?fifo,
           popsPrefix := ?popsPrefix, poppedDone := ?poppedDone, doneFinal := ?doneFinal,
           doneWrites := ?doneWrites, doneOk := ?doneOk } <;> dsimp only [Conn.pushHandler]
  case sorted =>
    exact List.pairwise_append.mpr ⟨h.sorted, List.pairwise_singleton _ _,
      fun a ha b hb => by simp only [List.mem_singleton] at hb; subst hb; exact h.bounded a ha⟩
  case bounded =>
    intro e' he'
    rcases List.mem_append.mp he' with he' | he'
    · exact Nat.lt_succ_of_lt (h.bounded e' he')
    · simp only [List.mem_singleton] at he'; omega
  case fresh => intro e' he'; rw [Function.update_noteq (by omega)]; exact h.fresh e' (by omega)
  case wf => intro e'; rw [hupd]; split_ifs; exacts [hwf, h.wf e']
  case queued =>
    intro e' he'
    rcases List.mem_append.mp he' with he' | he'
    · rw [hold e' he']; exact h.queued e' he'
    · simp only [List.mem_singleton] at he'; subst he'
      rw [Function.update_same]; exact ⟨hw, by rw [h0]; exact hpos⟩
  case queuedDone =>
    intro e' he'
    rcases List.mem_append.mp he' with he' | he'
    · rw [hold e' he']; exact h.queuedDone e' he'
    · simp only [List.mem_singleton] at he'; subst he'
      rw [Function.update_same]; exact fun hp => absurd rfl hp
  case live => intro e'; rw [hupd]; split_ifs; exacts [fun _ => hlive, h.live e']
  case pending =>
    intro e' hp hw'
    rw [hupd] at hp hw'
    split_ifs at hp hw' with he'
    · exact List.mem_append_right _ (List.mem_singleton.mpr he')
    · exact List.mem_append_left _ (h.pending e' hp hw')
  case result =>
    intro e' m hs
    rw [hupd] at hs
    split_ifs at hs with he'
    · cases req <;> simp_all [x, Exec.Wf]
    · exact h.result e' m hs
  case aligned =>
    intro hd
    have hal := h.aligned hd
    simp only [answers, Conn.owed, List.nil_append, Session.transmit_inFlight,
      Session.queue_inFlight, List.filter_append, List.map_append, List.flatten_append,
      List.map_singleton, List.flatten_singleton, Function.update_same] at hal ⊢
    rw [hal, hcmds, hrest]
    simp [Exec.owed, x, hw, h0, queries, List.range_eq_range']
  case handled =>
    intro e'
    rw [handledBy_append, h.handled e', hupd]
    split_ifs with he'
    · subst he'; simp [hfresh, h0, Exec.unused, Event.handleFor, queries]
    · simp [Event.handleFor]
  case written =>
    intro e'
    rw [writesBy_append, h.written e', hupd]
    split_ifs with he'
    · subst he'
      simp only [hfresh, writesBy_cons, Event.writeFor, Option.toList_none, writesBy_nil]
      cases req <;> simp_all [Exec.writes, Exec.unused, x]
    · simp [Event.writeFor]
  case fifo => intro hd; simp [← h.fifo hd, Event.pushed, Event.popped]
  case popsPrefix =>
    simpa [Event.pushed, Event.popped] using h.popsPrefix.trans (List.prefix_append _ _)
  case poppedDone =>
    intro e' he'
    simp only [popsOf_append, popsOf_cons, Event.popped, Option.toList_none, popsOf_nil,
      List.append_nil] at he'
    have hpd := h.poppedDone e' he'
    rw [hupd, if_neg fun hee => by rw [hee, hfresh] at hpd; cases hpd.1]
    exact hpd
  case doneFinal =>
    intro e' ec r hm
    simp only [List.mem_append, List.mem_singleton, reduceCtorEq, or_false] at hm
    rw [hupd, if_neg (fun he' => hnd e' ec r he' hm)]
    exact h.doneFinal e' ec r hm
  case doneWrites =>
    intro e' ec r a m hs
    rcases pair_sublist_append hs with hs | ⟨_, hm⟩ | hs
    · exact h.doneWrites e' ec r a m hs
    · simp at hm
    · simpa using hs.subset (List.mem_cons_self _ _)
  case doneOk =>
    intro e' r hm
    simp only [List.mem_append, List.mem_singleton, reduceCtorEq, or_false] at hm
    rw [hupd, if_neg (fun he' => hnd e' .success r he' hm)]
    exact h.doneOk e' r hm

theorem queries_filter (e n : Nat) : (queries e n).filter Msg.isQuery = queries e n :=
  List.filter_eq_self.mpr fun m hm => by
    obtain ⟨j, -, rfl⟩ := List.mem_map.mp hm
    rfl

theorem asyncQuery (h : Routed [] s tr) (io : SendIO) :
    Routed [] (s.asyncQuery true true io).1 (tr ++ (s.asyncQuery true true io).2) :=
  h.pushHandler (by simp) rfl rfl Nat.one_pos rfl trivial rfl

theorem asyncExecPipeline (h : Routed [] s tr) {first n accepted : Nat} (io : SendIO)
    (hn : 0 < n) (ha : n ≤ accepted) :
    Routed [] (s.asyncExecPipeline first n accepted true io).1
      (tr ++ (s.asyncExecPipeline first n accepted true io).2) := by
  simp only [Conn.asyncExecPipeline, if_neg (Nat.not_lt.mpr ha), Bool.not_true,
    Bool.false_eq_true, if_false]
  exact h.pushHandler (by simp) rfl (by simp) hn (by simp) (by simp [Exec.Live])
    (by simp [queries_filter, Msg.isQuery])

/-- A step that replaces exec `e`'s record only, emitting `done e`. -/
theorem updateExec {e : Nat} {x' : Exec} {ec : ErrorCode} {r : Option Msg} (h : Routed [] s tr)
    (hph : (s.execs e).phase = .awaiting) (hwf : x'.Wf) (hdone : ∃ ec', x'.phase = .done ec')
    (hreq : x'.request = (s.execs e).request) (hrec : x'.received = (s.execs e).received)
    (hwr : x'.writes e = (s.execs e).writes e)
    (hq : e ∈ s.resultHandlers → x'.handler.status = .waiting ∧ x'.Dummy)
    (hc : (s.execs e).handler.status = .completed → x'.handler.status = .completed)
    (howed : x'.owed e = (s.execs e).owed e)
    (hres : ∀ m, x'.handler.slot = .single (some m) → m = .query e 0)
    (hok : ec = .success → match x'.request with
      | .query => r = some (.query e 0)
      | .pipeline _ n => x'.written = n) :
    Routed [] { s with execs := Function.update s.execs e x' } (tr ++ [.done e ec r]) := by
  have hupd : ∀ e', Function.update s.execs e x' e' = if e' = e then x' else s.execs e' :=
    fun e' => Function.update_apply ..
  have hnd : ∀ ec r, Event.done e ec r ∉ tr := fun ec r hm => h.done_not_awaiting hm hph
  have hlt : e < s.nextExec := Nat.lt_of_not_le fun he => by rw [h.fresh e he] at hph; cases hph
  have htot : x'.total = (s.execs e).total := by simp only [Exec.total, hreq]
  refine { notAborted := h.notAborted, noAssert := by simp [h.noAssert], sorted := h.sorted,
           bounded := h.bounded, fresh := ?fresh, wf := ?wf, queued := ?queued,
           queuedDone := ?queuedDone, live := ?live, pending := ?pending, result := ?result,
           aligned := ?aligned, handled := ?handled, written := ?written, fifo := ?fifo,
           popsPrefix := by simpa [Event.pushed, Event.popped] using h.popsPrefix,
           poppedDone := ?poppedDone, doneFinal := ?doneFinal,
           doneWrites := ?doneWrites, doneOk := ?doneOk } <;> dsimp only
  case fresh => intro e' he'; rw [Function.update_noteq (by omega)]; exact h.fresh e' he'
  case wf => intro e'; rw [hupd]; split_ifs; exacts [hwf, h.wf e']
  case queued =>
    intro e' he'; rw [hupd]; split_ifs with hee
    · subst hee; rw [hrec, htot]; exact ⟨(hq he').1, (h.queued e' he').2⟩
    · exact h.queued e' he'
  case queuedDone =>
    intro e' he'; rw [hupd]; split_ifs with hee
    · subst hee; exact fun _ => (hq he').2
    · exact h.queuedDone e' he'
  case live =>
    intro e'; rw [hupd]; split_ifs
    · obtain ⟨_, hp⟩ := hdone; rw [hp]; intro hp'; cases hp'
    · exact h.live e'
  case pending =>
    intro e' hp hw; rw [hupd] at hp hw; split_ifs at hp hw
    · obtain ⟨_, hp'⟩ := hdone; rw [hp'] at hp; cases hp
    · exact h.pending e' hp hw
  case result =>
    intro e' m; rw [hupd]; split_ifs with hee
    · subst hee; exact hres m
    · exact h.result e' m
  case aligned =>
    intro hd
    refine (h.aligned hd).trans (congrArg List.flatten (List.map_congr_left fun e' _ => ?_))
    dsimp only; rw [hupd]; split_ifs with hee
    · subst hee; exact howed.symm
    · rfl
  case handled =>
    intro e'; rw [handledBy_append, h.handled e', hupd]; split_ifs with hee
    · subst hee; simp [hrec, Event.handleFor]
    · simp [Event.handleFor]
  case written =>
    intro e'; rw [writesBy_append, h.written e', hupd]; split_ifs with hee
    · subst hee; simp [hwr, Event.writeFor]
    · simp [Event.writeFor]
  case fifo => intro hd; simpa [Event.pushed, Event.popped] using h.fifo hd
  case poppedDone =>
    intro e' he'
    simp only [popsOf_append, popsOf_cons, Event.popped, Option.toList_none, popsOf_nil,
      List.append_nil] at he'
    have hpd := h.poppedDone e' he'
    rw [hupd]; split_ifs with hee
    · subst hee; rw [hrec, htot]; exact ⟨hc hpd.1, hpd.2⟩
    · exact hpd
  case doneFinal =>
    intro e' ec' r' hm; rw [hupd]; split_ifs with hee
    · exact hdone
    · simp only [List.mem_append, List.mem_singleton, Event.done.injEq] at hm
      exact h.doneFinal e' ec' r' (hm.resolve_right fun ⟨he', _⟩ => hee he')
  case doneWrites =>
    intro e' ec' r' a m hs
    rcases pair_sublist_append hs with hs | ⟨_, hm⟩ | hs
    · exact h.doneWrites e' ec' r' a m hs
    · simp at hm
    · exact absurd hs.length_le (by simp)
  case doneOk =>
    intro e' r' hm; rw [hupd]; split_ifs with hee
    · subst hee
      simp only [List.mem_append, List.mem_singleton, Event.done.injEq] at hm
      obtain ⟨-, rfl, rfl⟩ := hm.resolve_left (hnd _ _)
      exact hok rfl
    · simp only [List.mem_append, List.mem_singleton, Event.done.injEq] at hm
      exact h.doneOk e' r' (hm.resolve_right fun ⟨he', _⟩ => hee he')

/-- Cancelling an awaiting exec dumifies its handler, which keeps its place and
what it owes. -/
theorem cancelExec {e : Nat} (h : Routed [] s tr) (hph : (s.execs e).phase = .awaiting)
    (hw : (s.execs e).handler.status = .waiting) :
    Routed [] (s.cancelExec e).1 (tr ++ (s.cancelExec e).2) := by
  have hin := h.pending e hph hw
  have hlt := (h.queued e hin).2
  have hl := h.live e hph
  obtain ⟨hwf, hrec, -, hw', hdm⟩ := Exec.abort_spec (h.wf e) hw hlt hl
  exact h.updateExec hph hwf ⟨_, rfl⟩ rfl hrec (Exec.abort_writes (h.wf e) hw hlt hl e)
    (fun _ => ⟨hw', hdm⟩) (fun hc => by rw [hw] at hc; cases hc) (Exec.abort_owed (h.wf e) hw hlt hl e)
    (fun m hs => h.result e m (Exec.abort_slot_single hs)) (fun hs => by cases hs)

/-- An exec whose handler has signalled resumes with the outcome it holds. -/
theorem resumeExec {e : Nat} (h : Routed [] s tr) (hph : (s.execs e).phase = .awaiting)
    (hw : (s.execs e).handler.status ≠ .waiting) :
    Routed [] (s.resumeExec e).1 (tr ++ (s.resumeExec e).2) :=
  h.updateExec hph (h.wf e) ⟨_, rfl⟩ rfl rfl rfl (fun hin => absurd (h.queued e hin).1 hw)
    id rfl (h.result e)
    (Exec.outcome_success (h.wf e) (h.live e hph) hw (h.result e))

/-- `~connection` cancels the queued handlers; their accounting stays. -/
theorem destroy (h : Routed [] s tr) : Routed [] s.destroy tr := by
  have hupd : ∀ e, s.destroy.execs e =
      if e ∈ s.resultHandlers then { s.execs e with handler := (s.execs e).handler.cancel }
      else s.execs e := fun _ => rfl
  refine { notAborted := h.notAborted, noAssert := h.noAssert, sorted := List.Pairwise.nil,
           bounded := by simp [Conn.destroy], fresh := ?fresh, wf := ?wf,
           queued := by simp [Conn.destroy], queuedDone := by simp [Conn.destroy], live := ?live,
           pending := ?pending,
           result := ?result, aligned := by simp [Conn.destroy], handled := ?handled,
           written := ?written, fifo := by simp [Conn.destroy], popsPrefix := h.popsPrefix,
           poppedDone := ?poppedDone, doneFinal := ?doneFinal, doneWrites := h.doneWrites,
           doneOk := ?doneOk }
  case fresh =>
    intro e he
    rw [hupd, if_neg fun hin => absurd (h.bounded e hin) (Nat.not_lt.mpr he)]
    exact h.fresh e he
  case wf =>
    intro e; rw [hupd]; split_ifs with hin
    · exact (Exec.cancel_spec (h.wf e) (h.queued e hin).1).1
    · exact h.wf e
  case live =>
    intro e; rw [hupd]; split_ifs with hin
    · exact fun hp => Exec.cancel_live (h.live e hp)
    · exact h.live e
  case pending =>
    intro e hp hw; rw [hupd] at hp hw; split_ifs at hp hw with hin
    · simp at hw
    · exact absurd (h.pending e hp hw) hin
  case result => intro e m; rw [hupd]; split_ifs <;> exact h.result e m
  case handled =>
    intro e; rw [hupd, h.handled e]; split_ifs with hin
    · rw [(Exec.cancel_spec (h.wf e) (h.queued e hin).1).2.1]
    · rfl
  case written =>
    intro e; rw [hupd, h.written e]; split_ifs with hin
    · rw [Exec.cancel_writes (h.wf e) (h.queued e hin).1]
    · rfl
  case poppedDone =>
    intro e he
    have hpd := h.poppedDone e he
    rw [hupd, if_neg fun hin => by rw [(h.queued e hin).1] at hpd; cases hpd.1]
    exact hpd
  case doneFinal => intro e ec r hm; rw [hupd]; split_ifs <;> exact h.doneFinal e ec r hm
  case doneOk =>
    intro e r hm; rw [hupd]; split_ifs with hin
    · have := h.doneOk e r hm
      rwa [(Exec.cancel_spec (h.wf e) (h.queued e hin).1).2.2]
    · exact h.doneOk e r hm

theorem destroyed_of_live {b : Bool} (hl : (s.live && b) = true) : s.destroyed = false := by
  simp_all [Conn.live]

/-- Every step keeps the routing invariant, provided its submissions succeed. -/
theorem step (h : Routed [] s tr) {a : Action} (ha : a.Routable) :
    Routed [] (s.step a).1 (tr ++ (s.step a).2) := by
  have stay : Routed [] s (tr ++ []) := by rwa [List.append_nil]
  cases a with
  | startRun =>
    simp only [Conn.step]; split_ifs with hg
    · exact (frame_nil { s with loop := ⟨.idle, .notStarted, .running, false⟩ } h
        rfl rfl rfl rfl rfl rfl).readerLoop (destroyed_of_live hg)
    · exact stay
  | cancelRun => simp only [Conn.step]; split_ifs; exacts [h.withLoop _ (Loop.settle_quiet _), stay]
  | asyncQuery sendOk syncOk io =>
    obtain ⟨rfl, rfl⟩ := ha
    simp only [Conn.step]; split_ifs; exacts [h.asyncQuery io, stay]
  | asyncExecPipeline first n accepted syncOk io =>
    obtain ⟨hn, hac, rfl⟩ := ha
    simp only [Conn.step]; split_ifs; exacts [h.asyncExecPipeline io hn hac, stay]
  | writerResume f =>
    simp only [Conn.step]; split_ifs
    · exact h.frame rfl rfl rfl rfl rfl (Session.pqFlush_inFlight _ _) (Loop.writerAwait_quiet _ _)
    · exact stay
  | writerWaitFailed code =>
    simp only [Conn.step]; split_ifs; exacts [h.withLoop _ (Loop.settle_quiet _), stay]
  | serve =>
    simp only [Conn.step]; split_ifs
    · exact h.frame rfl rfl rfl rfl rfl (Session.serve_inFlight _) (by simp)
    · exact stay
  | readerWake => simp only [Conn.step]; split_ifs; exacts [h.withLoop (_, []) (by simp), stay]
  | readerWaitFailed code =>
    simp only [Conn.step]; split_ifs; exacts [h.withLoop _ (Loop.settle_quiet _), stay]
  | readerResume k ok =>
    simp only [Conn.step]; split_ifs with hg
    · unfold Conn.readerResume; split_ifs
      · exact (frame_nil { s with session := s.session.consume k } h rfl rfl rfl rfl rfl
          (Session.consume_inFlight _ k)).readerLoop (destroyed_of_live hg)
      · exact h.withLoop _ (Loop.settle_quiet _)
    · exact stay
  | cancelExec e =>
    simp only [Conn.step]; split_ifs with hg
    · simp only [Bool.and_eq_true, beq_iff_eq] at hg
      exact h.cancelExec hg.1.2 hg.2
    · exact stay
  | resumeExec e =>
    simp only [Conn.step]; split_ifs with hg
    · simp only [Bool.and_eq_true, beq_iff_eq, bne_iff_ne] at hg
      exact h.resumeExec hg.1.2 hg.2
    · exact stay
  | destroy =>
    simp only [Conn.step]; split_ifs
    · simpa using h.destroy
    · exact stay

theorem run (h : Routed [] s tr) {acts : List Action} (ha : ∀ a ∈ acts, a.Routable) :
    Routed [] (s.run acts).1 (tr ++ (s.run acts).2) := by
  induction acts generalizing s tr with
  | nil => simpa using h
  | cons a acts ih =>
    rw [Conn.run_cons, ← List.append_assoc]
    exact ih (h.step (ha a (List.mem_cons_self _ _))) fun b hb => ha b (List.mem_cons_of_mem _ hb)

end Routed

/-- The routing invariant holds along every run whose submissions succeed. -/
theorem routed_run {acts : List Action} (ha : ∀ a ∈ acts, a.Routable) :
    Routed [] (Conn.init.run acts).1 (Conn.init.run acts).2 := by
  simpa using routed_init.run ha

end AsiofiedLibpq.Connection
