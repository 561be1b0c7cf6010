import Mathlib.Logic.Function.Basic
import Mathlib.Data.List.Basic

set_option autoImplicit false

/-!
# Result handlers

`connection::result_handler` and its two concrete handlers, the
`single_query_result_handler` of `async_query` and the
`pipeline_result_handler` of `async_exec_pipeline`. A pipeline handler's
iterators `first_` and `last_` point into storage the caller owns; the model
keeps them as addresses of that storage, and `handle` reports the address it
assigns the result to.

A result is identified by what it answers: `query e j` is the result of the
`j`-th query that exec `e` sent, `sync` a `PGRES_PIPELINE_SYNC`. The reader
looks only at the status, so the identity is bookkeeping for the statements.
-/

namespace AsiofiedLibpq.Connection

/-- `result_handler::status`. -/
inductive Status
  | waiting
  | completed
  | cancelled
  deriving DecidableEq, Repr

/-- A protocol message: a command in the output buffer, or the result that answers it. -/
inductive Msg
  | query (e j : Nat)
  | sync
  deriving DecidableEq, Repr

/-- Whether `PQresultStatus` is anything but `PGRES_PIPELINE_SYNC`. -/
def Msg.isQuery : Msg → Bool
  | .query _ _ => true
  | .sync => false

/-- The queries `0, …, k - 1` of exec `e`, in send order. -/
def queries (e k : Nat) : List Msg := (List.range k).map (.query e)

/-- The handler's own fields besides its status. -/
inductive Slot
  /-- `single_query_result_handler::result_`. -/
  | single (result : Option Msg)
  /-- `pipeline_result_handler::first_`, `last_`, `n_dummy_`. -/
  | pipeline (first last nDummy : Nat)
  deriving DecidableEq, Repr

structure Handler where
  status : Status
  slot : Slot
  deriving DecidableEq, Repr

namespace Handler

/-- `result_handler::complete`; the `cv_.cancel_one()` that wakes the exec is
the exec's resumption step. -/
def complete (h : Handler) : Handler := { h with status := .completed }

/-- `result_handler::cancel`. -/
def cancel (h : Handler) : Handler := { h with status := .cancelled }

/-- `handle(res)`, with the address `first_->result = res` assigns to. -/
def handle (h : Handler) (res : Msg) : Handler × Option Nat :=
  match h.slot with
  | .single _ => ({ h with slot := .single (some res) }.complete, none)
  | .pipeline first last nDummy =>
    if nDummy ≠ 0 then
      let h' := { h with slot := .pipeline first last (nDummy - 1) }
      (if nDummy - 1 = 0 then h'.complete else h', none)
    else
      let h' := { h with slot := .pipeline (first + 1) last 0 }
      (if first + 1 = last then h'.complete else h', some first)

/-- `pipeline_result_handler::dumify`: `n_dummy_ = std::distance(first_, last_)`.
`first_` passes `last_` only after `handle` has already assigned through `last_`,
so the distance is never negative where behaviour is defined. -/
def dumify (h : Handler) : Handler :=
  match h.slot with
  | .pipeline first last _ => { h with slot := .pipeline first last (last - first) }
  | .single _ => h

@[simp] theorem complete_status (h : Handler) : h.complete.status = .completed := rfl
@[simp] theorem complete_slot (h : Handler) : h.complete.slot = h.slot := rfl
@[simp] theorem cancel_status (h : Handler) : h.cancel.status = .cancelled := rfl
@[simp] theorem cancel_slot (h : Handler) : h.cancel.slot = h.slot := rfl

theorem handle_single (status : Status) (r : Option Msg) (m : Msg) :
    handle ⟨status, .single r⟩ m = (⟨.completed, .single (some m)⟩, none) := rfl

theorem handle_dummy (status : Status) (first last nDummy : Nat) (m : Msg) (h : nDummy ≠ 0) :
    handle ⟨status, .pipeline first last nDummy⟩ m =
      (⟨if nDummy - 1 = 0 then .completed else status, .pipeline first last (nDummy - 1)⟩,
        none) := by
  simp only [handle, h, ne_eq, not_false_eq_true, if_true]
  split <;> rfl

theorem handle_live (status : Status) (first last : Nat) (m : Msg) :
    handle ⟨status, .pipeline first last 0⟩ m =
      (⟨if first + 1 = last then .completed else status, .pipeline (first + 1) last 0⟩,
        some first) := by
  simp only [handle, ne_eq, not_true_eq_false, if_false]
  split <;> rfl

end Handler

end AsiofiedLibpq.Connection
