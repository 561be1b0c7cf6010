import AsiofiedLibpq.Connection.Outcomes
import AsiofiedLibpq.Connection.Routing

set_option autoImplicit false

/-!
# The status of a result handler

`result_handler::status_` starts `waiting`, and the code sets it in two places only:
`complete()`, in the `handle` the reader calls on the handler at the front of
`result_handlers_`, and `cancel()`, in `~connection`, on every handler still queued. A
handler leaves the queue in the pass in which it completes, so every queued handler is
waiting: the reader hands results only to waiting handlers, never to one after the pass
that completed and popped it, and `~connection` cancels only waiting ones. A status therefore
leaves `waiting` at most once, to `completed` or `cancelled`, and never changes again, whatever
the scheduler and the environment do.
-/

namespace AsiofiedLibpq.Connection

/-- What a stretch of a run does to handler statuses: it changes none that has left
`waiting`; it hands results only to handlers waiting when it starts, and never to one after the
pass that completed and popped it; and a handler it pops has completed. -/
structure StatusStep (s s' : Conn) (evs : List Event) : Prop where
  keep : ∀ e, (s.execs e).handler.status ≠ .waiting →
    (s'.execs e).handler.status = (s.execs e).handler.status
  handled : ∀ h m, Event.handle h m ∈ evs → (s.execs h).handler.status = .waiting
  popped : ∀ h, Event.pop h ∈ evs → (s'.execs h).handler.status = .completed
  notAfterPop : ∀ h m, ¬ [Event.pop h, .handle h m].Sublist evs

theorem StatusStep.refl (s : Conn) : StatusStep s s [] :=
  ⟨fun _ _ => rfl, fun _ _ h => absurd h (List.not_mem_nil _),
    fun _ h => absurd h (List.not_mem_nil _), fun _ _ h => by cases List.sublist_nil.mp h⟩

theorem StatusStep.trans {s₁ s₂ s₃ : Conn} {evs₁ evs₂ : List Event} (h₁ : StatusStep s₁ s₂ evs₁)
    (h₂ : StatusStep s₂ s₃ evs₂) : StatusStep s₁ s₃ (evs₁ ++ evs₂) where
  keep e he := (h₂.keep e (by rwa [h₁.keep e he])).trans (h₁.keep e he)
  handled h m hm := (List.mem_append.mp hm).elim (h₁.handled h m) fun hm =>
    Decidable.byContradiction fun hw => hw ((h₁.keep h hw).symm.trans (h₂.handled h m hm))
  popped h hm := (List.mem_append.mp hm).elim
    (fun hm => (h₂.keep h (by rw [h₁.popped h hm]; decide)).trans (h₁.popped h hm)) (h₂.popped h)
  notAfterPop h m hs := by
    rcases pair_sublist_append hs with hs | ⟨hp, hm⟩ | hs
    · exact h₁.notAfterPop h m hs
    · exact absurd (h₂.handled h m hm) (by rw [h₁.popped h hp]; decide)
    · exact h₂.notAfterPop h m hs

/-- A stretch that keeps every status, and hands nothing to a handler and pops none. -/
theorem StatusStep.of_eq {s s' : Conn} {evs : List Event}
    (hs : ∀ e, (s'.execs e).handler.status = (s.execs e).handler.status)
    (hev : ∀ h m, Event.handle h m ∉ evs) (hpop : ∀ h, Event.pop h ∉ evs) : StatusStep s s' evs :=
  ⟨fun e _ => hs e, fun h m hm => absurd hm (hev h m), fun h hm => absurd hm (hpop h),
    fun h _ hsub => hpop h (hsub.subset (List.mem_cons_self _ _))⟩

theorem handle_not_mem_quiet {evs : List Event} (hq : ∀ ev ∈ evs, ev.Quiet) (h : Nat) (m : Msg) :
    Event.handle h m ∉ evs := fun hm => by
  obtain ⟨_, h⟩ := hq _ hm
  cases h

theorem pop_not_mem_quiet {evs : List Event} (hq : ∀ ev ∈ evs, ev.Quiet) (h : Nat) :
    Event.pop h ∉ evs := fun hm => by
  obtain ⟨_, h⟩ := hq _ hm
  cases h

/-- Replacing one exec's record by one with the same handler status moves no status. -/
theorem status_update_keep {f : Nat → Exec} {e : Nat} {x : Exec}
    (hx : x.handler.status = (f e).handler.status) (e' : Nat) :
    (Function.update f e x e').handler.status = (f e').handler.status := by
  rcases eq_or_ne e' e with rfl | hne
  · rw [Function.update_same, hx]
  · rw [Function.update_noteq hne]

/-- Every queued handler waits, once in the queue, and so does the record of every exec not
yet initiated. -/
structure QueueWaits (s : Conn) : Prop where
  queued : ∀ e ∈ s.resultHandlers, (s.execs e).handler.status = .waiting
  bounded : ∀ e ∈ s.resultHandlers, e < s.nextExec
  nodup : s.resultHandlers.Nodup
  fresh : ∀ e, s.nextExec ≤ e → (s.execs e).handler.status = .waiting

variable {s : Conn}

/-- A step that moves no status, queue or exec count, and hands nothing out. -/
theorem QueueWaits.frame (h : QueueWaits s) {s' : Conn} {evs : List Event}
    (hs : ∀ e, (s'.execs e).handler.status = (s.execs e).handler.status)
    (hq : s'.resultHandlers = s.resultHandlers) (hn : s'.nextExec = s.nextExec)
    (hev : ∀ h m, Event.handle h m ∉ evs) (hpop : ∀ h, Event.pop h ∉ evs) :
    QueueWaits s' ∧ StatusStep s s' evs :=
  ⟨⟨fun e he => (hs e).trans (h.queued e (hq ▸ he)), fun e he => hn ▸ h.bounded e (hq ▸ he),
      hq ▸ h.nodup, fun e he => (hs e).trans (h.fresh e (hn ▸ he))⟩, .of_eq hs hev hpop⟩

theorem QueueWaits.withLoop (h : QueueWaits s) {r : Loop × List Event}
    (hr : ∀ ev ∈ r.2, ev.Quiet) : QueueWaits (s.withLoop r).1 ∧ StatusStep s (s.withLoop r).1 (s.withLoop r).2 :=
  h.frame (fun _ => rfl) rfl rfl (handle_not_mem_quiet hr) (pop_not_mem_quiet hr)

/-- The reader hands a result to the waiting handler at the front, and pops it if it
completed. -/
theorem QueueWaits.handleHead (h : QueueWaits s) {hd : Nat} {rest : List Nat} (m : Msg)
    (hq : s.resultHandlers = hd :: rest) :
    QueueWaits (s.handleHead hd rest m).1 ∧
      StatusStep s (s.handleHead hd rest m).1 (s.handleHead hd rest m).2 := by
  have hw : (s.execs hd).handler.status = .waiting := h.queued hd (by simp [hq])
  have hlt : hd < s.nextExec := h.bounded hd (by simp [hq])
  have hne : ∀ e, e ≠ hd →
      (Function.update s.execs hd ((s.execs hd).handled m) e).handler.status =
        (s.execs e).handler.status := fun e he => by rw [Function.update_noteq he]
  have keep : ∀ e, (s.execs e).handler.status ≠ .waiting →
      (Function.update s.execs hd ((s.execs hd).handled m) e).handler.status =
        (s.execs e).handler.status := fun e he => hne e fun hh => he (hh ▸ hw)
  have handled : ∀ h' m' (evs : List Event), (∀ ev ∈ evs, ev = .pop hd) →
      Event.handle h' m' ∈ Conn.handleEvents hd ((s.execs hd).handler.handle m).2 m ++ evs →
        (s.execs h').handler.status = .waiting := fun h' m' evs hp hm => by
    rcases List.mem_append.mp hm with hm | hm
    · rcases Routed.mem_handleEvents hd _ m hm with hm | ⟨_, -, hm⟩ <;> cases hm
      exact hw
    · cases hp _ hm
  have hnp : ∀ h', Event.pop h' ∉ Conn.handleEvents hd ((s.execs hd).handler.handle m).2 m :=
    fun h' hm => by rcases Routed.mem_handleEvents hd _ m hm with hm | ⟨_, -, hm⟩ <;> cases hm
  -- the pop, if any, is the pass's last event
  have notAfter : ∀ h' m' (evs : List Event), (∀ ev ∈ evs, ev = .pop hd) →
      ¬ [Event.pop h', .handle h' m'].Sublist
        (Conn.handleEvents hd ((s.execs hd).handler.handle m).2 m ++ evs) := fun h' m' evs hp hs => by
    rcases pair_sublist_append hs with hs | ⟨hm, -⟩ | hs
    · exact hnp h' (hs.subset (List.mem_cons_self _ _))
    · exact hnp h' hm
    · cases hp _ (hs.subset (List.mem_cons_of_mem _ (List.mem_cons_self _ _)))
  have hfresh : ∀ e, s.nextExec ≤ e →
      (Function.update s.execs hd ((s.execs hd).handled m) e).handler.status = .waiting :=
    fun e he => (hne e (by omega)).trans (h.fresh e he)
  have hnd := h.nodup
  rw [hq, List.nodup_cons] at hnd
  unfold Conn.handleHead
  split_ifs with hc
  · refine ⟨⟨fun e he => ?_, fun e he => h.bounded e (by simp [hq, he]), hnd.2, hfresh⟩,
      keep, fun h' m' hm => handled h' m' [.pop hd] (by simp) hm, fun h' hm => ?_,
      fun h' m' => notAfter h' m' [.pop hd] (by simp)⟩
    · dsimp only at he ⊢
      exact (hne e fun hh => hnd.1 (hh ▸ he)).trans (h.queued e (by simp [hq, he]))
    · rcases List.mem_append.mp hm with hm | hm
      · exact absurd hm (hnp h')
      · rw [List.mem_singleton, Event.pop.injEq] at hm
        subst hm
        dsimp only
        rw [Function.update_same]
        exact hc
  · refine ⟨⟨fun e he => ?_, h.bounded, h.nodup, hfresh⟩, keep,
      fun h' m' hm => handled h' m' [] (by simp) (by simpa using hm),
      fun h' hm => absurd hm (hnp h'), fun h' m' hs => notAfter h' m' [] (by simp) (by simpa using hs)⟩
    dsimp only at he ⊢
    rcases eq_or_ne e hd with rfl | he'
    · rw [Function.update_same]
      rcases Handler.handle_status (s.execs e).handler m with hs | hs
      · exact hs.trans hw
      · exact absurd hs hc
    · exact (hne e he').trans (h.queued e he)

theorem QueueWaits.drain (h : QueueWaits s) (held : List Msg) :
    QueueWaits (s.drain held).1 ∧ StatusStep s (s.drain held).1 (s.drain held).2 := by
  have dispatch : ∀ {s : Conn} (m : Msg), QueueWaits s →
      QueueWaits (s.dispatch m).1 ∧ StatusStep s (s.dispatch m).1 (s.dispatch m).2 := fun m h => by
    unfold Conn.dispatch
    split
    · exact ⟨h, .refl _⟩
    · exact h.frame (fun _ => rfl) rfl rfl (fun _ _ hm => by simp at hm) fun _ hm => by simp at hm
    · exact h.handleHead _ ‹_›
  induction held generalizing s with
  | nil => exact ⟨h, .refl _⟩
  | cons m rest ih =>
    simp only [Conn.drain]
    split
    · exact dispatch m h
    · obtain ⟨h₁, t₁⟩ := dispatch m h
      obtain ⟨h₂, t₂⟩ := ih h₁
      exact ⟨h₂, t₁.trans t₂⟩

/-- Moving the session and the run loop keeps every status and hands nothing out. -/
theorem QueueWaits.withState (h : QueueWaits s) (ss : Session) (l : Loop) :
    QueueWaits { s with session := ss, loop := l } ∧
      StatusStep s { s with session := ss, loop := l } [] :=
  h.frame (fun _ => rfl) rfl rfl (fun _ _ hm => absurd hm (List.not_mem_nil _))
    fun _ hm => absurd hm (List.not_mem_nil _)

theorem QueueWaits.quiet (h : QueueWaits s) (ss : Session) {r : Loop × List Event}
    (hr : ∀ ev ∈ r.2, ev.Quiet) :
    QueueWaits ({ s with session := ss }.withLoop r).1 ∧
      StatusStep s ({ s with session := ss }.withLoop r).1 ({ s with session := ss }.withLoop r).2 :=
  h.frame (fun _ => rfl) rfl rfl (handle_not_mem_quiet hr) (pop_not_mem_quiet hr)

theorem QueueWaits.readerLoop (h : QueueWaits s) :
    QueueWaits s.readerLoop.1 ∧ StatusStep s s.readerLoop.1 s.readerLoop.2 := by
  obtain ⟨h₀, t₀⟩ := h.withState { s.session with input := [] } s.loop
  obtain ⟨h₁, t₁⟩ := h₀.drain s.session.input
  have t := t₀.trans t₁
  rw [List.nil_append] at t
  dsimp only [Conn.readerLoop]
  split_ifs
  · exact ⟨h₁, t⟩
  · obtain ⟨h₂, t₂⟩ := h₁.withLoop (Loop.readerAwait_quiet _)
    exact ⟨h₂, t.trans t₂⟩

/-- A submission records a waiting handler under the next exec number, and may queue it. -/
theorem QueueWaits.submit (h : QueueWaits s) {s' : Conn} {x : Exec} {evs : List Event}
    (hx : x.handler.status = .waiting) (hn : s'.nextExec = s.nextExec + 1)
    (he : s'.execs = Function.update s.execs s.nextExec x)
    (hq : s'.resultHandlers = s.resultHandlers ∨ s'.resultHandlers = s.resultHandlers ++ [s.nextExec])
    (hev : ∀ h m, Event.handle h m ∉ evs) (hpop : ∀ h, Event.pop h ∉ evs) :
    QueueWaits s' ∧ StatusStep s s' evs := by
  have hst : ∀ e, (s'.execs e).handler.status = (s.execs e).handler.status := fun e => by
    rw [he]
    rcases eq_or_ne e s.nextExec with rfl | hne
    · rw [Function.update_same, hx, h.fresh _ le_rfl]
    · rw [Function.update_noteq hne]
  have hmem : ∀ e ∈ s'.resultHandlers, e ∈ s.resultHandlers ∨ e = s.nextExec := fun e hm => by
    rcases hq with hq | hq <;> rw [hq] at hm <;> simp_all
  refine ⟨⟨fun e hm => ?_, fun e hm => ?_, ?_, fun e hm => (hst e).trans (h.fresh e (by omega))⟩,
    .of_eq hst hev hpop⟩
  · rcases hmem e hm with hm | rfl
    · exact (hst e).trans (h.queued e hm)
    · exact (hst _).trans (h.fresh _ le_rfl)
  · rcases hmem e hm with hm | rfl
    · exact hn ▸ Nat.lt_succ_of_lt (h.bounded e hm)
    · omega
  · rcases hq with hq | hq <;> rw [hq]
    · exact h.nodup
    · exact List.pairwise_append.mpr ⟨h.nodup, List.pairwise_singleton _ _,
        fun a ha b hb => (List.mem_singleton.mp hb) ▸ Nat.ne_of_lt (h.bounded a ha)⟩

/-- `~connection` cancels the queued handlers, all of them waiting. -/
theorem QueueWaits.destroy (h : QueueWaits s) :
    QueueWaits s.destroy ∧ StatusStep s s.destroy [] := by
  have hst : ∀ e, (s.execs e).handler.status ≠ .waiting →
      (s.destroy.execs e).handler.status = (s.execs e).handler.status := fun e hw => by
    simp only [Conn.destroy]
    rw [if_neg fun hm => hw (h.queued e hm)]
  refine ⟨⟨fun e hm => (by cases hm), fun e hm => (by cases hm), List.nodup_nil,
    fun e (he : s.nextExec ≤ e) => ?_⟩, ⟨hst, fun _ _ hm => (by cases hm), fun _ hm => (by cases hm),
    fun _ _ hs => (by cases List.sublist_nil.mp hs)⟩⟩
  simp only [Conn.destroy]
  rw [if_neg fun hm => absurd (h.bounded e hm) (by omega)]
  exact h.fresh e he

/-- Every step keeps the invariant, and changes statuses only as the code does. -/
theorem QueueWaits.step (h : QueueWaits s) (a : Action) :
    QueueWaits (s.step a).1 ∧ StatusStep s (s.step a).1 (s.step a).2 :=
  Conn.step_cases (fun s r => QueueWaits s → QueueWaits r.1 ∧ StatusStep s r.1 r.2)
    (fun _ ss _ hq h => h.quiet ss hq)
    (fun _ ss l h => by
      obtain ⟨h₀, t₀⟩ := h.withState ss l
      obtain ⟨h₁, t₁⟩ := h₀.readerLoop
      exact ⟨h₁, by simpa using t₀.trans t₁⟩)
    (fun _ _ _ _ _ _ hw _ h => h.submit hw rfl rfl (.inl rfl) (fun _ _ hm => by
      simp [Conn.failSubmit] at hm) fun _ hm => by simp [Conn.failSubmit] at hm)
    (fun _ _ _ _ _ hw h => h.submit hw rfl rfl (.inr rfl) (fun _ _ hm => by
      simp [Conn.pushHandler] at hm) fun _ hm => by simp [Conn.pushHandler] at hm)
    (fun _ _ _ _ h => h.frame (status_update_keep (Exec.abort_status _)) rfl rfl (fun _ _ hm => by
      simp [Conn.cancelExec] at hm) fun _ hm => by simp [Conn.cancelExec] at hm)
    (fun _ _ _ _ h => h.frame (status_update_keep rfl) rfl rfl (fun _ _ hm => by
      simp [Conn.resumeExec] at hm) fun _ hm => by simp [Conn.resumeExec] at hm)
    (fun _ h => h.destroy) s a h

theorem QueueWaits.run (h : QueueWaits s) (acts : List Action) :
    QueueWaits (s.run acts).1 ∧ StatusStep s (s.run acts).1 (s.run acts).2 := by
  induction acts generalizing s with
  | nil => exact ⟨h, .refl s⟩
  | cons a acts ih =>
    obtain ⟨h₁, t₁⟩ := h.step a
    obtain ⟨h₂, t₂⟩ := ih h₁
    exact ⟨h₂, t₁.trans t₂⟩

end AsiofiedLibpq.Connection
