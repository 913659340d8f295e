import LicodeClient.Ledger
import LicodeClient.Tasks

/-!
Requests and their acks. The client runs against a server that acks the publish
and subscribe requests it receives on a session, each once and in order
(`Served`). The two queues hold the requests that were sent on the current
session and whose ack has not been taken in, and every ack is stored on the
stream it was sent for, exactly as long as requests are made while the session
accepts them and a new session is opened only when both queues are empty
(`matched_iff`).
-/
namespace LicodeClient
open LicodeClient.Table LicodeClient.Program LicodeClient.Run

/-- The requests that the server has received on a session: those of the frames
    that are written and of the one that is being written. -/
def WebsocketSession.received (s : WebsocketSession) : List Request :=
  (s.written ++ if s.writing then s.queue.take 1 else []).filterMap Packet.request

/-- The client and what its server has done: how many requests it has acked on
    each session, and the acks whose tasks have not run, each with its session
    and the request it answers. -/
structure Served where
  world : World
  answered : Nat → Nat := fun _ => 0
  acks : List (Nat × Request) := []

/-- The ack that an event delivers. -/
def ackOf (w : World) : Event → Option (Nat × Kind)
  | .read k (some frame) => (w.ackRead k frame).map (k,·)
  | _ => none

namespace Served

/-- The request that the next ack on a session answers, when that ack is of the
    right kind. -/
def answer (s : Served) (k : Nat) (kind : Kind) : Option Request :=
  (s.world.session k).received[s.answered k]?.filter (·.kind = kind)

/-- A step of the client; an ack is delivered only when it answers a request. -/
def step (nl : Nlohmann) (s : Served) (e : Event) : Option Served :=
  match ackOf s.world e with
  | some (k,kind) =>
    (s.answer k kind).bind fun r =>
      (LicodeClient.step nl s.world e).map fun w =>
        if w.crashed = none then ⟨w,Function.update s.answered k (s.answered k + 1),s.acks ++ [(k,r)]⟩
        else { s with world := w }
  | none =>
    (LicodeClient.step nl s.world e).map fun w =>
      { s with
        world := w
        acks := match bookingOf s.world e with
          | .taken _ => s.acks.tail
          | _ => s.acks }

/-- What the server does leaves the client's own step as it is. -/
theorem step_world {nl : Nlohmann} {s s' : Served} {e : Event} (taken : s.step nl e = some s') :
    LicodeClient.step nl s.world e = some s'.world := by
  unfold step at taken
  split at taken
  · obtain ⟨r,-,taken⟩ := Option.bind_eq_some_iff.mp taken
    obtain ⟨w,moved,rfl⟩ := Option.map_eq_some_iff.mp taken
    rw [moved]
    split <;> rfl
  · obtain ⟨w,moved,rfl⟩ := Option.map_eq_some_iff.mp taken
    exact moved

/-- The requests sent on the current session whose ack has not been taken in, in
    the order in which they were sent. -/
def unacked (s : Served) : List Request :=
  match s.world.signaling.websocket with
  | none => []
  | some c => (s.acks.filter (·.1 = c)).map (·.2) ++ (s.world.session c).requests.drop (s.answered c)

end Served

/-- The requests of a session. -/
def Ledger.row (l : Ledger) (k : Nat) : List Request := l.requests[k]?.getD []

/-- The client's books and the server's. -/
structure Books where
  ledger : Ledger
  answered : Nat → Nat
  acks : List (Nat × Request)

namespace Books

def unacked (b : Books) : List Request :=
  match b.ledger.websocket with
  | none => []
  | some c => (b.acks.filter (·.1 = c)).map (·.2) ++ (b.ledger.row c).drop (b.answered c)

def Agree (b : Books) : Prop := ∀ kind, b.ledger.pending kind = b.unacked.filter (·.kind = kind)

/-- What the books keep as long as they agree: every ack that waits is one of the
    current session, and all requests of the others are answered. -/
structure Kept (b : Books) : Prop where
  latest : b.ledger.requests.length = b.ledger.websocket.elim 0 (· + 1)
  aligned : b.ledger.acks = b.acks.map (·.2.kind)
  bounded : ∀ k, b.answered k ≤ (b.ledger.row k).length
  current : ∀ a ∈ b.acks, b.ledger.websocket = some a.1
  settled : ∀ k, b.ledger.websocket ≠ some k → (b.ledger.row k).length ≤ b.answered k

theorem Kept.exist {b : Books} (kept : b.Kept) {c : Nat} (current : b.ledger.websocket = some c) :
    c < b.ledger.requests.length := by
  have latest := kept.latest
  simp only [current,Option.elim_some] at latest
  omega

end Books

/-! ### Runs -/

namespace Served

def books (s : Served) : Books := ⟨s.world.ledger,s.answered,s.acks⟩

end Served

/-- A client with a server that has answered nothing yet. -/
def Served.init (token : LicodeToken) : Served := { world := World.init token }

end LicodeClient
