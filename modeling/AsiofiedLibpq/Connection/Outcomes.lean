import AsiofiedLibpq.Connection.Trace

set_option autoImplicit false

/-!
# What an exec's completion says about its handler

An exec of `async_query` or `async_exec_pipeline` resumes after its handler signalled, and
completes by the handler's status: `completed` gives success, `cancelled` gives
`connection_failed`. A handler completes only in `handle`, and the reader pops it in the same
pass; it is cancelled only by `~connection`, which cancels the handlers in
`result_handlers_`, all of them pushed there by a submission. So in every run, whatever
fails, an exec reports success only once the reader has popped its handler, and
`connection_failed` only after `~connection`, for a handler it had queued.
-/

namespace AsiofiedLibpq.Connection

/-- The invariant behind the outcomes, of a state `s` reached with events `tr`. -/
structure Outcomes (s : Conn) (tr : List Event) : Prop where
  completed : ∀ e, (s.execs e).handler.status = .completed → Event.pop e ∈ tr
  cancelled : ∀ e, (s.execs e).handler.status = .cancelled → s.destroyed = true ∧ Event.push e ∈ tr
  queued : ∀ e ∈ s.resultHandlers, Event.push e ∈ tr
  success : ∀ e r, Event.done e .success r ∈ tr → Event.pop e ∈ tr
  failed : ∀ e r, Event.done e .connectionFailed r ∈ tr → s.destroyed = true ∧ Event.push e ∈ tr

theorem Handler.handle_status (h : Handler) (m : Msg) :
    (h.handle m).1.status = h.status ∨ (h.handle m).1.status = .completed := by
  unfold Handler.handle
  split
  · exact .inr rfl
  · split_ifs <;> first | exact .inl rfl | exact .inr rfl

theorem Handler.dumify_status (h : Handler) : h.dumify.status = h.status := by
  unfold Handler.dumify
  split <;> rfl

@[simp] theorem Exec.abort_status (x : Exec) : x.abort.handler.status = x.handler.status := by
  unfold Exec.abort
  split
  · exact Handler.dumify_status _
  · rfl

/-- An exec's completion with the handler's outcome: success for a completed handler,
`connection_failed` for a cancelled one. -/
theorem Exec.outcome_status {x : Exec} (hw : x.handler.status ≠ .waiting) :
    (x.outcome.1 = .success → x.handler.status = .completed) ∧
      (x.outcome.1 = .connectionFailed → x.handler.status = .cancelled) := by
  unfold Exec.outcome
  split_ifs with hc
  · exact ⟨fun h => (by cases h), fun _ => hc⟩
  · refine ⟨fun _ => ?_, fun h => ?_⟩
    · cases hs : x.handler.status <;> simp_all
    · split at h <;> cases h

variable {s s' : Conn} {tr evs : List Event}

/-- A step keeps the invariant when what it completes or cancels, queues and reports is
accounted for by the state before it and the events it emits. -/
theorem Outcomes.of_step (h : Outcomes s tr) (hd : s.destroyed = true → s'.destroyed = true)
    (hcomp : ∀ e, (s'.execs e).handler.status = .completed →
      (s.execs e).handler.status = .completed ∨ Event.pop e ∈ evs)
    (hcanc : ∀ e, (s'.execs e).handler.status = .cancelled →
      (s.execs e).handler.status = .cancelled ∨ s'.destroyed = true ∧ e ∈ s.resultHandlers)
    (hq : ∀ e ∈ s'.resultHandlers, e ∈ s.resultHandlers ∨ Event.push e ∈ evs)
    (hdone : ∀ e ec r, Event.done e ec r ∈ evs →
      (ec = .success → (s.execs e).handler.status = .completed) ∧
        (ec = .connectionFailed → (s.execs e).handler.status = .cancelled)) :
    Outcomes s' (tr ++ evs) where
  completed e hc := (hcomp e hc).elim (fun h' => List.mem_append_left _ (h.completed e h'))
    (List.mem_append_right _)
  cancelled e hc := (hcanc e hc).elim
    (fun h' => ⟨hd (h.cancelled e h').1, List.mem_append_left _ (h.cancelled e h').2⟩)
    fun h' => ⟨h'.1, List.mem_append_left _ (h.queued e h'.2)⟩
  queued e he := (hq e he).elim (fun h' => List.mem_append_left _ (h.queued e h'))
    (List.mem_append_right _)
  success e r hm := (List.mem_append.mp hm).elim
    (fun h' => List.mem_append_left _ (h.success e r h'))
    fun h' => List.mem_append_left _ (h.completed e ((hdone e _ r h').1 rfl))
  failed e r hm := (List.mem_append.mp hm).elim
    (fun h' => ⟨hd (h.failed e r h').1, List.mem_append_left _ (h.failed e r h').2⟩)
    fun h' => have hc := h.cancelled e ((hdone e _ r h').2 rfl)
      ⟨hd hc.1, List.mem_append_left _ hc.2⟩

/-- A step that changes no handler, no queue and the connection's life, and reports nothing. -/
theorem Outcomes.frame (h : Outcomes s tr) (he : s'.execs = s.execs)
    (hd : s'.destroyed = s.destroyed) (hq : s'.resultHandlers = s.resultHandlers)
    (hev : ∀ e ec r, Event.done e ec r ∉ evs) : Outcomes s' (tr ++ evs) :=
  h.of_step (fun h' => hd ▸ h') (fun _ hc => .inl (he ▸ hc)) (fun _ hc => .inl (he ▸ hc))
    (fun _ he' => .inl (hq ▸ he')) fun e ec r hm => absurd hm (hev e ec r)

theorem Outcomes.congr (h : Outcomes s tr) (he : s'.execs = s.execs)
    (hd : s'.destroyed = s.destroyed) (hq : s'.resultHandlers = s.resultHandlers) :
    Outcomes s' tr := by
  simpa using (h.frame he hd hq (by simp) : Outcomes s' (tr ++ []))

theorem done_not_mem_handleEvents (h : Nat) (addr : Option Nat) (m : Msg) (e : Nat)
    (ec : ErrorCode) (r : Option Msg) : Event.done e ec r ∉ Conn.handleEvents h addr m := by
  cases addr <;> simp [Conn.handleEvents]

theorem Outcomes.handleHead (h : Outcomes s tr) {hd : Nat} {rest : List Nat} (m : Msg)
    (hq : s.resultHandlers = hd :: rest) :
    Outcomes (s.handleHead hd rest m).1 (tr ++ (s.handleHead hd rest m).2) := by
  have hcomp : ∀ e, ((Function.update s.execs hd ((s.execs hd).handled m)) e).handler.status =
      .completed → (s.execs e).handler.status = .completed ∨ e = hd := fun e hc => by
    by_cases he : e = hd
    · exact .inr he
    · rw [Function.update_noteq he] at hc
      exact .inl hc
  have hcanc : ∀ e, ((Function.update s.execs hd ((s.execs hd).handled m)) e).handler.status =
      .cancelled → (s.execs e).handler.status = .cancelled := fun e hc => by
    by_cases he : e = hd
    · subst he
      rw [Function.update_same] at hc
      rcases Handler.handle_status (s.execs e).handler m with hs | hs
      · exact hs ▸ hc
      · exact absurd (hs.symm.trans hc) (by decide)
    · rwa [Function.update_noteq he] at hc
  simp only [Conn.handleHead]
  split_ifs with hdone
  · refine h.of_step id (fun e hc => (hcomp e hc).imp_right fun he => by simp [he])
      (fun e hc => .inl (hcanc e hc)) (fun e he => .inl (by simp [hq, he])) fun e ec r hm => ?_
    simp only [List.mem_append, List.mem_singleton] at hm
    rcases hm with hm | hm
    · exact absurd hm (done_not_mem_handleEvents _ _ _ _ _ _)
    · cases hm
  · refine h.of_step id (fun e hc => ?_) (fun e hc => .inl (hcanc e hc))
      (fun e he => .inl (hq ▸ he)) fun e ec r hm => absurd hm (done_not_mem_handleEvents _ _ _ _ _ _)
    rcases hcomp e hc with hc' | rfl
    · exact .inl hc'
    · simp only [Function.update_same] at hc
      exact absurd hc hdone

theorem Outcomes.dispatch (h : Outcomes s tr) (m : Msg) :
    Outcomes (s.dispatch m).1 (tr ++ (s.dispatch m).2) := by
  unfold Conn.dispatch
  split
  · simpa using h
  · exact h.frame rfl rfl rfl (by simp)
  · exact h.handleHead _ ‹_›

theorem Outcomes.drain (h : Outcomes s tr) (held : List Msg) :
    Outcomes (s.drain held).1 (tr ++ (s.drain held).2) := by
  induction held generalizing s tr with
  | nil => simpa [Conn.drain] using h
  | cons m rest ih =>
    simp only [Conn.drain]
    split
    · exact h.dispatch m
    · simpa using ih (h.dispatch m)

/-- `async_run`'s own steps report no exec. -/
theorem Loop.done_not_mem_finish (l : Loop) (e : Nat) (ec : ErrorCode) (r : Option Msg) :
    Event.done e ec r ∉ l.finish.2 := by
  unfold Loop.finish
  split <;> simp

theorem Loop.done_not_mem_settle (l : Loop) (e : Nat) (ec : ErrorCode) (r : Option Msg) :
    Event.done e ec r ∉ l.settle.2 :=
  Loop.done_not_mem_finish _ e ec r

theorem Loop.done_not_mem_readerAwait (l : Loop) (e : Nat) (ec : ErrorCode) (r : Option Msg) :
    Event.done e ec r ∉ l.readerAwait.2 := by
  unfold Loop.readerAwait
  split
  · exact Loop.done_not_mem_settle _ e ec r
  · simp

theorem Outcomes.withLoop (h : Outcomes s tr) {r : Loop × List Event}
    (hev : ∀ e ec res, Event.done e ec res ∉ r.2) : Outcomes (s.withLoop r).1 (tr ++ (s.withLoop r).2) :=
  h.frame rfl rfl rfl hev

theorem Outcomes.readerLoop (h : Outcomes s tr) : Outcomes s.readerLoop.1 (tr ++ s.readerLoop.2) := by
  have hd := (h.congr rfl rfl rfl :
    Outcomes { s with session := { s.session with input := [] } } tr).drain s.session.input
  dsimp only [Conn.readerLoop]
  split_ifs
  · exact hd
  · rw [← List.append_assoc]
    exact hd.withLoop (Loop.done_not_mem_readerAwait _)

/-- The handler statuses after one exec's record is replaced. -/
theorem status_update {f : Nat → Exec} {e e' : Nat} {x : Exec} {st : Status}
    (h : (Function.update f e x e').handler.status = st) :
    (f e').handler.status = st ∨ e' = e ∧ x.handler.status = st := by
  by_cases he : e' = e
  · subst he
    rw [Function.update_same] at h
    exact .inr ⟨rfl, h⟩
  · rw [Function.update_noteq he] at h
    exact .inl h

/-- A new record with a waiting handler signals nothing. -/
theorem status_update_of_waiting {f : Nat → Exec} {e e' : Nat} {x : Exec} {st : Status}
    (hw : x.handler.status = .waiting) (hst : st ≠ .waiting)
    (h : (Function.update f e x e').handler.status = st) : (f e').handler.status = st :=
  (status_update h).resolve_right fun hx => hst (hx.2 ▸ hw)

/-- A record replaced with one of the same handler status. -/
theorem status_update_of_eq {f : Nat → Exec} {e e' : Nat} {x : Exec} {st : Status}
    (h : (Function.update f e x e').handler.status = st)
    (hx : x.handler.status = (f e).handler.status) : (f e').handler.status = st :=
  (status_update h).elim id fun ⟨he, h'⟩ => he ▸ hx ▸ h'

/-- A submission that failed records a waiting handler nothing reaches, and reports its
error. -/
theorem Outcomes.failSubmit (h : Outcomes s tr) {req : Request} {cmds : List Msg} {io : Session.SendIO}
    {hnd : Handler} {ec : ErrorCode} (hw : hnd.status = .waiting) (hs : ec ≠ .success)
    (hf : ec ≠ .connectionFailed) :
    Outcomes (s.failSubmit req cmds io hnd ec).1 (tr ++ (s.failSubmit req cmds io hnd ec).2) := by
  refine h.of_step id (fun _ hc => .inl (status_update_of_waiting hw (by decide) hc))
    (fun _ hc => .inl (status_update_of_waiting hw (by decide) hc)) (fun _ he => .inl he) ?_
  intro e ec' r hm
  simp only [Conn.failSubmit, List.mem_singleton, Event.done.injEq] at hm
  obtain ⟨-, rfl, -⟩ := hm
  exact ⟨fun h' => absurd h' hs, fun h' => absurd h' hf⟩

/-- A submission that succeeded pushes a waiting handler. -/
theorem Outcomes.pushHandler (h : Outcomes s tr) {req : Request} {cmds : List Msg}
    {io : Session.SendIO} {hnd : Handler} (hw : hnd.status = .waiting) :
    Outcomes (s.pushHandler req cmds io hnd).1 (tr ++ (s.pushHandler req cmds io hnd).2) := by
  refine h.of_step id (fun _ hc => .inl (status_update_of_waiting hw (by decide) hc))
    (fun _ hc => .inl (status_update_of_waiting hw (by decide) hc)) (fun e he => ?_) ?_
  · simp only [Conn.pushHandler, List.mem_append, List.mem_singleton] at he
    exact he.imp_right fun he => by simp [Conn.pushHandler, he]
  · intro e ec r hm
    simp [Conn.pushHandler] at hm

/-- An exec whose wait was cancelled dumifies its handler and reports `operation_aborted`. -/
theorem Outcomes.cancelExec (h : Outcomes s tr) (e : Nat) :
    Outcomes (s.cancelExec e).1 (tr ++ (s.cancelExec e).2) := by
  refine h.of_step id (fun _ hc => .inl (status_update_of_eq hc (Exec.abort_status _)))
    (fun _ hc => .inl (status_update_of_eq hc (Exec.abort_status _))) (fun _ he => .inl he) ?_
  intro e' ec r hm
  simp only [Conn.cancelExec, List.mem_singleton, Event.done.injEq] at hm
  obtain ⟨-, rfl, -⟩ := hm
  exact ⟨fun h' => (by cases h'), fun h' => (by cases h')⟩

/-- An exec whose handler signalled completes by its status. -/
theorem Outcomes.resumeExec (h : Outcomes s tr) {e : Nat}
    (hw : (s.execs e).handler.status ≠ .waiting) :
    Outcomes (s.resumeExec e).1 (tr ++ (s.resumeExec e).2) := by
  refine h.of_step id (fun _ hc => .inl (status_update_of_eq hc rfl))
    (fun _ hc => .inl (status_update_of_eq hc rfl)) (fun _ he => .inl he) ?_
  intro e' ec r hm
  simp only [Conn.resumeExec, List.mem_singleton, Event.done.injEq] at hm
  obtain ⟨rfl, rfl, -⟩ := hm
  exact Exec.outcome_status hw

/-- `~connection` cancels the queued handlers. -/
theorem Outcomes.destroy (h : Outcomes s tr) : Outcomes s.destroy (tr ++ []) := by
  refine h.of_step (fun _ => rfl) (fun e hc => .inl ?_) (fun e hc => ?_) (fun _ he => by
    simp [Conn.destroy] at he) (fun _ _ _ hm => by simp at hm)
  · simp only [Conn.destroy] at hc
    split_ifs at hc
    · simp at hc
    · exact hc
  · simp only [Conn.destroy] at hc ⊢
    split_ifs at hc with he
    · exact .inr ⟨trivial, he⟩
    · exact .inl hc

/-- Every step keeps the invariant. -/
theorem Outcomes.step (h : Outcomes s tr) (a : Action) :
    Outcomes (s.step a).1 (tr ++ (s.step a).2) :=
  Conn.step_cases (fun s r => ∀ tr, Outcomes s tr → Outcomes r.1 (tr ++ r.2))
    (fun s ss _ hq tr h => (h.congr rfl rfl rfl : Outcomes { s with session := ss } tr).withLoop
      fun _ _ _ hm => by obtain ⟨_, h⟩ := hq _ hm; cases h)
    (fun s ss l tr h =>
      (h.congr rfl rfl rfl : Outcomes { s with session := ss, loop := l } tr).readerLoop)
    (fun _ _ _ _ _ _ hw hec _ h => h.failSubmit hw (by rcases hec with rfl | rfl <;> decide)
      (by rcases hec with rfl | rfl <;> decide))
    (fun _ _ _ _ _ hw _ h => h.pushHandler hw) (fun _ e _ _ _ h => h.cancelExec e)
    (fun _ _ _ hw _ h => h.resumeExec hw) (fun _ _ h => h.destroy) s a tr h

/-- A property of a state and the events that led to it, kept by every step of some class of
actions, holds after every run of them. -/
theorem Conn.run_invariant {P : Conn → List Event → Prop} {Q : Action → Prop}
    (hstep : ∀ s tr a, Q a → P s tr → P (s.step a).1 (tr ++ (s.step a).2)) (h : P s tr)
    {acts : List Action} (ha : ∀ a ∈ acts, Q a) : P (s.run acts).1 (tr ++ (s.run acts).2) := by
  induction acts generalizing s tr with
  | nil => simpa using h
  | cons a acts ih =>
    simpa using ih (hstep s tr a (ha a (List.mem_cons_self _ _)) h) fun b hb =>
      ha b (List.mem_cons_of_mem _ hb)

/-- The same for a property of the state alone. -/
theorem Conn.run_preserves {P : Conn → Prop} {Q : Action → Prop}
    (hstep : ∀ s a, Q a → P s → P (s.step a).1) (h : P s) {acts : List Action}
    (ha : ∀ a ∈ acts, Q a) : P (s.run acts).1 :=
  @Conn.run_invariant s [] (fun s _ => P s) Q (fun s _ a hq h => hstep s a hq h) h acts ha

theorem Outcomes.run (h : Outcomes s tr) (acts : List Action) :
    Outcomes (s.run acts).1 (tr ++ (s.run acts).2) :=
  Conn.run_invariant (Q := fun _ => True) (fun _ _ a _ h => h.step a) h fun _ _ => trivial

theorem outcomes_init : Outcomes Conn.init [] where
  completed _ hc := by cases hc
  cancelled _ hc := by cases hc
  queued _ he := by cases he
  success _ _ hm := by cases hm
  failed _ _ hm := by cases hm

/-- In every run, whatever fails, an exec completes with success only once the reader has
handed its handler its last result and popped it, and with `connection_failed` only once
`~connection` has run, for an exec whose handler a submission had pushed. -/
theorem exec_outcomes (acts : List Action) (e : Nat) (r : Option Msg) :
    (Event.done e .success r ∈ (Conn.init.run acts).2 → Event.pop e ∈ (Conn.init.run acts).2) ∧
      (Event.done e .connectionFailed r ∈ (Conn.init.run acts).2 →
        (Conn.init.run acts).1.destroyed = true ∧ Event.push e ∈ (Conn.init.run acts).2) := by
  have h := outcomes_init.run acts
  rw [List.nil_append] at h
  exact ⟨h.success e r, h.failed e r⟩

/-- `async_query` sent, answered and read: it completes with success, its handler popped. -/
theorem query_success_popped :
    Event.done 0 .success (some (.query 0 0)) ∈ (Conn.init.run [.startRun,
        .asyncQuery true true ⟨2, false⟩, .serve, .serve, .readerWake, .readerResume 2 true,
        .resumeExec 0]).2 ∧
      Event.pop 0 ∈ (Conn.init.run [.startRun, .asyncQuery true true ⟨2, false⟩, .serve, .serve,
        .readerWake, .readerResume 2 true, .resumeExec 0]).2 :=
  have h : Event.done 0 .success (some (.query 0 0)) ∈ (Conn.init.run [.startRun,
      .asyncQuery true true ⟨2, false⟩, .serve, .serve, .readerWake, .readerResume 2 true,
      .resumeExec 0]).2 := by decide
  ⟨h, (exec_outcomes _ 0 _).1 h⟩

end AsiofiedLibpq.Connection
