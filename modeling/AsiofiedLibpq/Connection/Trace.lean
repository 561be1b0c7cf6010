import AsiofiedLibpq.Connection.Accounting

set_option autoImplicit false

/-!
# Reading a run's events

What a run's events say about one handler: the results `handle` passed it, the
assignments it made to caller storage, and the order of pushes and pops on
`result_handlers_`. A step of the run loop alone emits only `runDone`, which
none of these see.
-/

namespace AsiofiedLibpq.Connection

namespace Event

def handleFor (e : Nat) : Event → Option Msg
  | .handle h r => if h = e then some r else none
  | _ => none

def writeFor (e : Nat) : Event → Option (Nat × Msg)
  | .write h a r => if h = e then some (a, r) else none
  | _ => none

def pushed : Event → Option Nat
  | .push h => some h
  | _ => none

def popped : Event → Option Nat
  | .pop h => some h
  | _ => none

/-- Events the routing bookkeeping does not see. -/
def Quiet (ev : Event) : Prop := ∃ ec, ev = .runDone ec

end Event

/-- The results passed to the handler of exec `e`, in order. -/
def handledBy (e : Nat) (tr : List Event) : List Msg := tr.filterMap (Event.handleFor e)

/-- The assignments the handler of exec `e` made, in order. -/
def writesBy (e : Nat) (tr : List Event) : List (Nat × Msg) := tr.filterMap (Event.writeFor e)

def pushesOf (tr : List Event) : List Nat := tr.filterMap Event.pushed

def popsOf (tr : List Event) : List Nat := tr.filterMap Event.popped

@[simp] theorem handledBy_append (e : Nat) (tr tr' : List Event) :
    handledBy e (tr ++ tr') = handledBy e tr ++ handledBy e tr' := List.filterMap_append _ _ _
@[simp] theorem writesBy_append (e : Nat) (tr tr' : List Event) :
    writesBy e (tr ++ tr') = writesBy e tr ++ writesBy e tr' := List.filterMap_append _ _ _
@[simp] theorem pushesOf_append (tr tr' : List Event) :
    pushesOf (tr ++ tr') = pushesOf tr ++ pushesOf tr' := List.filterMap_append _ _ _
@[simp] theorem popsOf_append (tr tr' : List Event) :
    popsOf (tr ++ tr') = popsOf tr ++ popsOf tr' := List.filterMap_append _ _ _

@[simp] theorem handledBy_nil (e : Nat) : handledBy e [] = [] := rfl
@[simp] theorem writesBy_nil (e : Nat) : writesBy e [] = [] := rfl
@[simp] theorem pushesOf_nil : pushesOf [] = [] := rfl
@[simp] theorem popsOf_nil : popsOf [] = [] := rfl

@[simp] theorem handledBy_cons (e : Nat) (ev : Event) (tr : List Event) :
    handledBy e (ev :: tr) = (ev.handleFor e).toList ++ handledBy e tr := by
  cases h : ev.handleFor e <;> simp [handledBy, List.filterMap_cons, h]
@[simp] theorem writesBy_cons (e : Nat) (ev : Event) (tr : List Event) :
    writesBy e (ev :: tr) = (ev.writeFor e).toList ++ writesBy e tr := by
  cases h : ev.writeFor e <;> simp [writesBy, List.filterMap_cons, h]
@[simp] theorem pushesOf_cons (ev : Event) (tr : List Event) :
    pushesOf (ev :: tr) = ev.pushed.toList ++ pushesOf tr := by
  cases h : ev.pushed <;> simp [pushesOf, List.filterMap_cons, h]
@[simp] theorem popsOf_cons (ev : Event) (tr : List Event) :
    popsOf (ev :: tr) = ev.popped.toList ++ popsOf tr := by
  cases h : ev.popped <;> simp [popsOf, List.filterMap_cons, h]

section Quiet

variable {evs : List Event} (hq : ∀ ev ∈ evs, ev.Quiet)
include hq

theorem handledBy_quiet (e : Nat) : handledBy e evs = [] :=
  List.filterMap_eq_nil_iff.mpr fun ev h => by obtain ⟨_, rfl⟩ := hq ev h; rfl
theorem writesBy_quiet (e : Nat) : writesBy e evs = [] :=
  List.filterMap_eq_nil_iff.mpr fun ev h => by obtain ⟨_, rfl⟩ := hq ev h; rfl
theorem pushesOf_quiet : pushesOf evs = [] :=
  List.filterMap_eq_nil_iff.mpr fun ev h => by obtain ⟨_, rfl⟩ := hq ev h; rfl
theorem popsOf_quiet : popsOf evs = [] :=
  List.filterMap_eq_nil_iff.mpr fun ev h => by obtain ⟨_, rfl⟩ := hq ev h; rfl

end Quiet

namespace Loop

theorem finish_quiet (l : Loop) : ∀ ev ∈ l.finish.2, ev.Quiet := by
  unfold finish
  split <;> simp [Event.Quiet]

theorem settle_quiet (l : Loop) : ∀ ev ∈ l.settle.2, ev.Quiet := finish_quiet _

theorem writerAwait_quiet (l : Loop) (ret : Int) : ∀ ev ∈ (l.writerAwait ret).2, ev.Quiet := by
  unfold writerAwait
  split
  · exact settle_quiet _
  · simp

theorem readerAwait_quiet (l : Loop) : ∀ ev ∈ l.readerAwait.2, ev.Quiet := by
  unfold readerAwait
  split
  · exact settle_quiet _
  · simp

end Loop

end AsiofiedLibpq.Connection

/-! ## What a step can do

A step moves the session and the run loop, emitting only `runDone`; or runs the reader's
loop from the top after moving them; or is a submission that failed or succeeded, with a
waiting handler; or resumes an awaiting exec, its handler still waiting or not; or is
`~connection`. An invariant of the events so far is proved once for each kind. -/

namespace AsiofiedLibpq.Connection

theorem Conn.step_cases (P : Conn → Conn × List Event → Prop)
    (quiet : ∀ s (ss : Session) (r : Loop × List Event), (∀ ev ∈ r.2, ev.Quiet) →
      P s ({ s with session := ss }.withLoop r))
    (reader : ∀ s (ss : Session) (l : Loop), P s { s with session := ss, loop := l }.readerLoop)
    (fail : ∀ s req cmds io (hnd : Handler) ec, hnd.status = .waiting →
      ec = .pqsendqueryparamsFailed ∨ ec = .pqpipelinesyncFailed →
        P s (s.failSubmit req cmds io hnd ec))
    (push : ∀ s req cmds io (hnd : Handler), hnd.status = .waiting →
      P s (s.pushHandler req cmds io hnd))
    (cancel : ∀ s e, (s.execs e).phase = .awaiting → (s.execs e).handler.status = .waiting →
      P s (s.cancelExec e))
    (resume : ∀ s e, (s.execs e).phase = .awaiting → (s.execs e).handler.status ≠ .waiting →
      P s (s.resumeExec e))
    (destroy : ∀ s, P s (s.destroy, [])) (s : Conn) (a : Action) : P s (s.step a) := by
  have stay : P s (s, []) := quiet s s.session (s.loop, []) (by simp)
  cases a with
  | startRun =>
    simp only [Conn.step]; split_ifs
    exacts [reader s s.session _, stay]
  | cancelRun | writerWaitFailed _ | readerWaitFailed _ =>
    simp only [Conn.step]; split_ifs
    exacts [quiet s s.session _ (Loop.settle_quiet _), stay]
  | asyncQuery sendOk syncOk io =>
    simp only [Conn.step, Conn.asyncQuery]; split_ifs
    all_goals first
      | exact fail _ _ _ _ _ _ rfl (by simp) | exact push _ _ _ _ _ rfl | exact stay
  | asyncExecPipeline first n accepted syncOk io =>
    simp only [Conn.step, Conn.asyncExecPipeline]; split_ifs
    all_goals first
      | exact fail _ _ _ _ _ _ rfl (by simp) | exact push _ _ _ _ _ rfl | exact stay
  | writerResume f =>
    simp only [Conn.step]; split_ifs
    exacts [quiet s _ _ (Loop.writerAwait_quiet _ _), stay]
  | serve =>
    simp only [Conn.step]; split_ifs
    exacts [quiet s s.session.serve (s.loop, []) (by simp), stay]
  | readerWake =>
    simp only [Conn.step]; split_ifs
    exacts [quiet s s.session ({ s.loop with reader := .woken }, []) (by simp), stay]
  | readerResume k ok =>
    simp only [Conn.step]; split_ifs
    · unfold Conn.readerResume
      split_ifs
      exacts [reader s _ s.loop, quiet s s.session _ (Loop.settle_quiet _)]
    · exact stay
  | cancelExec e | resumeExec e =>
    simp only [Conn.step]; split_ifs with hg
    · simp only [Bool.and_eq_true, Bool.not_eq_true', beq_iff_eq, bne_iff_ne, ne_eq] at hg
      first | exact cancel s e hg.1.2 hg.2 | exact resume s e hg.1.2 hg.2
    · exact stay
  | destroy =>
    simp only [Conn.step]; split_ifs
    exacts [destroy s, stay]

end AsiofiedLibpq.Connection
