import AsiofiedLibpq.Connection.Handler

set_option autoImplicit false

/-!
# The libpq session and the wire

libpq's output and input buffers, and between them the server and the socket.
Commands leave `out` in order, the server answers each with one result in the
order it received them, and results wait on the socket until a read moves
them into the session's input, where `PQgetResult` returns them without
further input. Every move takes a prefix of one list to the end of the next,
so the concatenation `inFlight` is what every step but a submission or a
`PQgetResult` keeps.
-/

namespace AsiofiedLibpq.Connection

/-- libpq's output buffer `out` of commands not yet sent, the commands the server holds
unanswered, the results on the socket, and the results read into the session. -/
structure Session where
  out : List Msg
  server : List Msg
  sock : List Msg
  input : List Msg
  deriving DecidableEq, Repr

namespace Session

def empty : Session := ⟨[], [], [], []⟩

/-- Everything sent and not yet returned by `PQgetResult`, oldest first. -/
def inFlight (ss : Session) : List Msg := ss.input ++ ss.sock ++ ss.server ++ ss.out

def queue (ss : Session) (cmds : List Msg) : Session := { ss with out := ss.out ++ cmds }

/-- A call on libpq's non-blocking send path sends the first `sent` commands and,
when `reads`, reads whatever input the socket holds into the session. -/
def transmit (ss : Session) (sent : Nat) (reads : Bool) : Session :=
  let ss' := { ss with out := ss.out.drop sent, server := ss.server ++ ss.out.take sent }
  if reads then { ss' with sock := [], input := ss'.input ++ ss'.sock } else ss'

structure SendIO where
  sent : Nat
  reads : Bool
  deriving DecidableEq, Repr

structure FlushIO where
  fails : Bool
  io : SendIO
  deriving DecidableEq, Repr

/-- `PQflush`: `-1` on failure, otherwise `0` once the output buffer is empty and `1`
while bytes remain; only a call that cannot send everything reads input. -/
def pqFlush (ss : Session) (f : FlushIO) : Session × Int :=
  if f.fails then (ss, -1)
  else
    let ss' := ss.transmit f.io.sent (f.io.reads && !(ss.out.drop f.io.sent).isEmpty)
    (ss', if ss'.out.isEmpty then 0 else 1)

def serve (ss : Session) : Session :=
  match ss.server with
  | [] => ss
  | m :: rest => { ss with server := rest, sock := ss.sock ++ [m] }

def consume (ss : Session) (k : Nat) : Session :=
  { ss with sock := ss.sock.drop k, input := ss.input ++ ss.sock.take k }

@[simp] theorem queue_inFlight (ss : Session) (cmds : List Msg) :
    (ss.queue cmds).inFlight = ss.inFlight ++ cmds := by
  simp [queue, inFlight]

@[simp] theorem transmit_inFlight (ss : Session) (sent : Nat) (reads : Bool) :
    (ss.transmit sent reads).inFlight = ss.inFlight := by
  cases reads <;> simp [transmit, inFlight]

@[simp] theorem pqFlush_inFlight (ss : Session) (f : FlushIO) :
    (ss.pqFlush f).1.inFlight = ss.inFlight := by
  unfold pqFlush; split <;> simp

@[simp] theorem serve_inFlight (ss : Session) : ss.serve.inFlight = ss.inFlight := by
  unfold serve; split <;> simp_all [inFlight]

@[simp] theorem consume_inFlight (ss : Session) (k : Nat) : (ss.consume k).inFlight = ss.inFlight := by
  simp [consume, inFlight]

end Session

end AsiofiedLibpq.Connection
