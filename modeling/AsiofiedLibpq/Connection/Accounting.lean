import AsiofiedLibpq.Connection.Engine

set_option autoImplicit false

/-!
# What a handler has taken and still owes

For an exec, `total` is how many results its handler takes, `received` how
many it has taken, and `written` how many of them a pipeline handler assigned
to caller storage. While the handler waits, `owed` lists the results it still
takes, in order. These are read off the handler's own fields: a dumified
pipeline handler counts its remaining results in `n_dummy_`, a live one in
`last_ - first_`.

`handle` moves `received` on by one and completes the handler exactly at the
last result; `dumify` keeps `received`; `cancel` keeps both counts.
-/

namespace AsiofiedLibpq.Connection

namespace Exec

def total (x : Exec) : Nat :=
  match x.request with
  | .query => 1
  | .pipeline _ n => n

def received (x : Exec) : Nat :=
  match x.request, x.handler.slot with
  | .query, .single r => if r.isSome then 1 else 0
  | .pipeline first n, .pipeline cur _ nDummy =>
    if x.handler.status = .completed then n else if nDummy = 0 then cur - first else n - nDummy
  | _, _ => 0

def written (x : Exec) : Nat :=
  match x.request, x.handler.slot with
  | .pipeline first _, .pipeline cur _ _ => cur - first
  | _, _ => 0

/-- The results the handler of exec `e` still takes, while it waits. -/
def owed (x : Exec) (e : Nat) : List Msg :=
  if x.handler.status = .waiting then (List.range' x.received (x.total - x.received)).map (.query e)
  else []

/-- The assignments its handler made: the `j`-th result to the `j`-th element. -/
def writes (x : Exec) (e : Nat) : List (Nat × Msg) :=
  match x.request with
  | .pipeline first _ => (List.range x.written).map fun j => (first + j, .query e j)
  | .query => []

/-- The handler fits the request, and a pipeline handler's iterators stay in its range. -/
def Wf (x : Exec) : Prop :=
  match x.request, x.handler.slot with
  | .query, .single r => (r.isSome = true ↔ x.handler.status = .completed)
  | .pipeline first n, .pipeline cur last nDummy =>
    last = first + n ∧ first ≤ cur ∧ cur ≤ last ∧ nDummy ≤ last - cur ∧
      (x.handler.status = .completed → nDummy = 0)
  | _, _ => False

/-- A dumified pipeline handler, which swallows what it takes. -/
def Dummy (x : Exec) : Prop :=
  match x.handler.slot with
  | .pipeline _ _ nDummy => nDummy ≠ 0
  | .single _ => True

/-- A handler whose exec still awaits it: a pipeline handler writes and completes
only when its iterators meet. -/
def Live (x : Exec) : Prop :=
  match x.request, x.handler.slot with
  | .pipeline first n, .pipeline cur _ nDummy =>
    nDummy = 0 ∧ (x.handler.status = .completed → cur = first + n)
  | _, _ => True

@[simp] theorem total_query (h : Handler) (ph : Phase) : total ⟨.query, h, ph⟩ = 1 := rfl
@[simp] theorem total_pipeline (first n : Nat) (h : Handler) (ph : Phase) :
    total ⟨.pipeline first n, h, ph⟩ = n := rfl

@[simp] theorem received_single (st : Status) (r : Option Msg) (ph : Phase) :
    received ⟨.query, ⟨st, .single r⟩, ph⟩ = if r.isSome then 1 else 0 := rfl
@[simp] theorem received_pipeline (first n : Nat) (st : Status) (cur last nDummy : Nat) (ph : Phase) :
    received ⟨.pipeline first n, ⟨st, .pipeline cur last nDummy⟩, ph⟩ =
      if st = .completed then n else if nDummy = 0 then cur - first else n - nDummy := rfl

@[simp] theorem written_pipeline (first n : Nat) (st : Status) (cur last nDummy : Nat) (ph : Phase) :
    written ⟨.pipeline first n, ⟨st, .pipeline cur last nDummy⟩, ph⟩ = cur - first := rfl

@[simp] theorem wf_single (st : Status) (r : Option Msg) (ph : Phase) :
    Wf ⟨.query, ⟨st, .single r⟩, ph⟩ ↔ (r.isSome = true ↔ st = .completed) := Iff.rfl
@[simp] theorem wf_pipeline (first n : Nat) (st : Status) (cur last nDummy : Nat) (ph : Phase) :
    Wf ⟨.pipeline first n, ⟨st, .pipeline cur last nDummy⟩, ph⟩ ↔
      last = first + n ∧ first ≤ cur ∧ cur ≤ last ∧ nDummy ≤ last - cur ∧
        (st = .completed → nDummy = 0) := Iff.rfl

@[simp] theorem handled_request (x : Exec) (m : Msg) : (x.handled m).request = x.request := rfl
@[simp] theorem handled_phase (x : Exec) (m : Msg) : (x.handled m).phase = x.phase := rfl

theorem owed_of_ne_waiting {x : Exec} (e : Nat) (h : x.handler.status ≠ .waiting) : x.owed e = [] :=
  if_neg h

/-- A dumified handler assigns nothing. -/
theorem handled_written_dummy {x : Exec} (m : Msg) (hd : x.Dummy) :
    (x.handled m).written = x.written := by
  obtain ⟨req, ⟨st, slot⟩, ph⟩ := x
  cases slot with
  | single r => cases req <;> rfl
  | pipeline cur last nDummy =>
    simp only [Dummy] at hd
    simp only [handled, Handler.handle_dummy _ _ _ _ _ hd]
    cases req <;> rfl

section Handle

variable {x : Exec} (m : Msg)
variable (hwf : x.Wf) (hw : x.handler.status = .waiting) (hlt : x.received < x.total)
include hwf hw hlt

theorem handled_spec :
    (x.handled m).Wf ∧ (x.handled m).received = x.received + 1 ∧
      ((x.handled m).handler.status = .completed ↔ x.received + 1 = x.total) ∧
      ((x.handled m).handler.status = .waiting ∨ (x.handled m).handler.status = .completed) := by
  obtain ⟨req, ⟨st, slot⟩, ph⟩ := x
  cases hw
  match req, slot, hwf with
  | .query, .single r, hwf =>
    have hr : r = none := by simpa using hwf
    subst hr
    simp [handled, Handler.handle_single]
  | .pipeline first n, .pipeline cur last nDummy, ⟨hl, h₁, h₂, h₃, _⟩ =>
    subst hl
    simp only [received_pipeline, total_pipeline, reduceCtorEq, if_false] at hlt ⊢
    by_cases hd : nDummy = 0
    · subst hd
      simp only [handled, Handler.handle_live]
      split_ifs <;> simp_all <;> omega
    · simp only [handled, Handler.handle_dummy _ _ _ _ _ hd]
      split_ifs <;> simp_all <;> omega

/-- The handler owes the result it takes now, then what it owes after. -/
theorem owed_handled (e : Nat) : x.owed e = .query e x.received :: (x.handled m).owed e := by
  obtain ⟨-, hr, hc, hs⟩ := handled_spec m hwf hw hlt
  have ht : (x.handled m).total = x.total := rfl
  obtain ⟨k, hk⟩ : ∃ k, x.total - x.received = k + 1 := ⟨_, (Nat.succ_pred_eq_of_pos (by omega)).symm⟩
  simp only [owed, hw, if_true, hk, List.range'_succ, List.map_cons, List.cons.injEq, true_and]
  rcases hs with hs | hs
  · rw [if_pos hs, hr, ht]
    congr 2
    omega
  · have : k = 0 := by have := hc.mp hs; omega
    simp [hs, this]

theorem handled_writes (e : Nat) (hm : m = .query e x.received) :
    (x.handled m).writes e = x.writes e ++ ((x.handler.handle m).2.map fun a => (a, m)).toList := by
  obtain ⟨req, ⟨st, slot⟩, ph⟩ := x
  cases hw
  match req, slot, hwf with
  | .query, .single _, _ => rfl
  | .pipeline first n, .pipeline cur last nDummy, ⟨_, h₁, _⟩ =>
    simp only [received_pipeline, reduceCtorEq, if_false] at hm
    by_cases hd : nDummy = 0
    · subst hd
      simp only [if_true] at hm
      simp only [handled, Handler.handle_live, writes]
      have hc : cur + 1 - first = cur - first + 1 := by omega
      split_ifs <;> simp [written, hc, List.range_succ, hm] <;> omega
    · simp only [handled, Handler.handle_dummy _ _ _ _ _ hd, writes]
      split_ifs <;> simp [written]

/-- A single-query handler stores the result it is handed, its only one. -/
theorem handled_single_slot {m' : Msg} (h : (x.handled m).handler.slot = .single (some m')) :
    m' = m ∧ x.received = 0 := by
  obtain ⟨req, ⟨st, slot⟩, ph⟩ := x
  cases hw
  match req, slot, hwf with
  | .query, .single r, hwf =>
    have hr : r = none := by simpa using hwf
    subst hr
    simp only [handled, Handler.handle_single, Slot.single.injEq, Option.some.injEq] at h
    exact ⟨h.symm, rfl⟩
  | .pipeline _ _, .pipeline cur last nDummy, _ =>
    simp only [handled, Handler.handle] at h
    split_ifs at h <;> simp [Handler.complete] at h

/-- Only a live pipeline handler writes. -/
theorem handled_write_live (a : Nat) (h : (x.handler.handle m).2 = some a) : ¬ x.Dummy := by
  obtain ⟨req, ⟨st, slot⟩, ph⟩ := x
  cases slot with
  | single r => simp [Handler.handle] at h
  | pipeline cur last nDummy =>
    by_cases hd : nDummy = 0
    · simp [Dummy, hd]
    · simp [Handler.handle_dummy _ _ _ _ _ hd] at h

theorem handled_live (hl : x.Live) : (x.handled m).Live := by
  obtain ⟨req, ⟨st, slot⟩, ph⟩ := x
  cases hw
  match req, slot, hwf, hl with
  | .query, .single _, _, _ => trivial
  | .pipeline first n, .pipeline cur last nDummy, ⟨hl', _⟩, ⟨hd, _⟩ =>
    subst hd hl'
    simp only [handled, Handler.handle_live, Live]
    split_ifs <;> simp_all

/-- A dumified handler that still waits after `handle` is still dumified. -/
theorem handled_dummy (hd : x.Dummy) (hw' : (x.handled m).handler.status = .waiting) :
    (x.handled m).Dummy := by
  obtain ⟨req, ⟨st, slot⟩, ph⟩ := x
  cases slot with
  | single r => trivial
  | pipeline cur last nDummy =>
    simp only [Dummy] at hd
    simp only [handled, Handler.handle_dummy _ _ _ _ _ hd, Dummy] at hw' ⊢
    split_ifs at hw' with h
    exact h

end Handle

@[simp] theorem abort_request (x : Exec) : x.abort.request = x.request := rfl
@[simp] theorem abort_total (x : Exec) : x.abort.total = x.total := rfl
@[simp] theorem abort_phase (x : Exec) : x.abort.phase = .done .operationAborted := rfl

/-- `abort` keeps a single-query handler's stored result, and gives a pipeline handler none. -/
theorem abort_slot_single {x : Exec} {r : Option Msg} (h : x.abort.handler.slot = .single r) :
    x.handler.slot = .single r := by
  obtain ⟨req, ⟨st, slot⟩, ph⟩ := x
  cases req <;> cases slot <;> simp_all [abort, Handler.dumify]

section Abort

variable {x : Exec} (hwf : x.Wf) (hw : x.handler.status = .waiting) (hlt : x.received < x.total)
include hwf hw hlt

/-- `dumify` hands the count of what is still owed over to `n_dummy_`: the
accounting is unchanged and the handler swallows from now on. -/
theorem abort_spec (hl : x.Live) :
    x.abort.Wf ∧ x.abort.received = x.received ∧ x.abort.written = x.written ∧
      x.abort.handler.status = .waiting ∧ x.abort.Dummy := by
  obtain ⟨req, ⟨st, slot⟩, ph⟩ := x
  cases hw
  match req, slot, hwf, hl with
  | .query, .single _, hwf, _ => exact ⟨hwf, rfl, rfl, rfl, trivial⟩
  | .pipeline first n, .pipeline cur last nDummy, ⟨hl', h₁, h₂, _⟩, ⟨hd, _⟩ =>
    subst hd hl'
    simp only [received_pipeline, total_pipeline, reduceCtorEq, if_false, if_true] at hlt
    have hpos : first + n - cur ≠ 0 := by omega
    simp only [abort, Handler.dumify, Dummy, received_pipeline, written_pipeline, wf_pipeline,
      reduceCtorEq, if_false, if_true, hpos]
    exact ⟨⟨trivial, h₁, h₂, le_rfl, False.elim⟩, by omega, trivial, trivial, hpos⟩

theorem abort_owed (hl : x.Live) (e : Nat) : x.abort.owed e = x.owed e := by
  obtain ⟨-, hr, -, hw', -⟩ := abort_spec hwf hw hlt hl
  simp only [owed, hw, hw', hr, abort_total]

theorem abort_writes (hl : x.Live) (e : Nat) : x.abort.writes e = x.writes e := by
  obtain ⟨-, -, hwr, -⟩ := abort_spec hwf hw hlt hl
  simp only [writes, abort_request, hwr]

end Abort

section Cancel

variable {x : Exec} (hwf : x.Wf) (hw : x.handler.status = .waiting)
include hwf hw

/-- `~connection`'s `cancel()` keeps the accounting. -/
theorem cancel_spec :
    ({ x with handler := x.handler.cancel } : Exec).Wf ∧
      ({ x with handler := x.handler.cancel } : Exec).received = x.received ∧
      ({ x with handler := x.handler.cancel } : Exec).written = x.written := by
  obtain ⟨req, ⟨st, slot⟩, ph⟩ := x
  cases hw
  match req, slot, hwf with
  | .query, .single r, hwf => simp_all [Handler.cancel, written]
  | .pipeline first n, .pipeline cur last nDummy, ⟨hl, h₁, h₂, h₃, _⟩ =>
    subst hl
    simp_all [Handler.cancel]

theorem cancel_writes (e : Nat) : ({ x with handler := x.handler.cancel } : Exec).writes e = x.writes e := by
  obtain ⟨-, -, hwr⟩ := cancel_spec hwf hw
  simp only [writes, hwr]

end Cancel

theorem cancel_live {x : Exec} (hl : x.Live) : ({ x with handler := x.handler.cancel } : Exec).Live := by
  obtain ⟨req, ⟨st, slot⟩, ph⟩ := x
  cases req <;> cases slot <;> simp_all [Live, Handler.cancel]

/-- An exec that completes without error holds its own results: its single query's
result, or a result assigned to every element of its range. -/
theorem outcome_success {x : Exec} {e : Nat} (hwf : x.Wf) (hl : x.Live)
    (hw : x.handler.status ≠ .waiting)
    (hres : ∀ m, x.handler.slot = .single (some m) → m = .query e 0)
    (hs : x.outcome.1 = .success) :
    match x.request with
    | .query => x.outcome.2 = some (.query e 0)
    | .pipeline _ n => x.written = n := by
  obtain ⟨req, ⟨st, slot⟩, ph⟩ := x
  have hc : st = .completed := by cases st <;> simp_all [outcome]
  subst hc
  match req, slot, hwf, hl with
  | .query, .single r, hwf, _ =>
    obtain ⟨m, rfl⟩ := Option.isSome_iff_exists.mp (by simpa using hwf)
    simpa [outcome] using hres m rfl
  | .pipeline first n, .pipeline cur last nDummy, _, ⟨_, hcur⟩ =>
    simp [hcur rfl]

end Exec

end AsiofiedLibpq.Connection
