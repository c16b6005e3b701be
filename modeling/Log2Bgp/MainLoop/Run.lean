import Log2Bgp.Lib.MapOps
import Log2Bgp.Rib.Lemmas.Peers
import Log2Bgp.Update.Lemmas.Message

/-!
# Runs of the main loop

Messages that arrive between the passes of the main loop, and the changes of the RIB that they ask for.
-/

namespace Log2Bgp

open Lib

/-! ## Arrivals -/

/-- A message of a session that is up. -/
inductive SessionMessage where
  | update (body : UpdateBody)
  | keepalive
deriving DecidableEq

/-- A message together with the peer that sends it, the connection it is read from and the time. -/
structure Arrival where
  peer : Nat
  conn : Nat := 0
  now : TimeT
  message : SessionMessage
deriving DecidableEq

/-- What arrives until the main loop makes its next pass, in order, and the time of that pass. -/
structure Cycle where
  arrivals : List Arrival
  now : TimeT
deriving DecidableEq

/-- The body that is queued, with its receipt. -/
def Arrival.received (a : Arrival) : List Received :=
  match a.message with
  | .update body => [(body, ⟨a.peer, a.conn, .established⟩)]
  | .keepalive => []

/-- What a peer has in its queue after the arrivals. -/
def receivedFrom (i : Nat) (arrivals : List Arrival) : List Received :=
  (arrivals.filter (·.peer = i)).flatMap Arrival.received

/-- A message announces, or it withdraws. -/
def SessionMessage.OneKind : SessionMessage → Prop
  | .update body => body.withdrawn = [] ∨ body.attribs = [] ∧ body.nlri = []
  | .keepalive => True

instance (m : SessionMessage) : Decidable m.OneKind := by
  cases m with
  | update body => exact inferInstanceAs (Decidable (_ ∨ _))
  | keepalive => exact isTrue trivial

/-! ## The run of the code -/

namespace Bgp

/-- The peer's thread reads a message. -/
def arrive (b : Bgp) (a : Arrival) : Checked Bgp :=
  match a.message with
  | .update body => b.receive a.now a.peer a.conn .update body.encode []
  | .keepalive => b.receive a.now a.peer a.conn .keepalive [] []

def arriveAll : List Arrival → Bgp → Checked Bgp
  | [], b => .ok b
  | a :: rest, b => do
      let b ← b.arrive a
      arriveAll rest b

/-- A cycle: messages arrive, and the main loop makes a pass. -/
def cycle (b : Bgp) (c : Cycle) : Checked Bgp := do
  let b ← arriveAll c.arrivals b
  b.mainLoop c.now

def cycles : List Cycle → Bgp → Checked Bgp
  | [], b => .ok b
  | c :: rest, b => do
      let b ← b.cycle c
      cycles rest b

/-! ## What the messages ask for -/

/-- The identifier of a peer. -/
def idOf (b : Bgp) (i : Nat) : UInt32 := b.ids[i]?.getD 0

end Bgp

/-- The announcements of received bodies. -/
def putsOf (now : TimeT) (bgpId : UInt32) (ms : List Received) : List (MapOp PrefixEntry Route) :=
  (announcedAll now bgpId ms).map fun r => .put r.entry r

/-- Their withdrawals. -/
def delsOf (now : TimeT) (bgpId : UInt32) (ms : List Received) : List (MapOp PrefixEntry Route) :=
  (withdrawalsAll now bgpId ms).map fun r => .del r.entry

/-- The changes that a message asks for. A message of one kind asks for puts or for deletions. -/
def Arrival.ops (b : Bgp) (now : TimeT) (a : Arrival) : List (MapOp PrefixEntry Route) :=
  putsOf now (b.idOf a.peer) a.received ++ delsOf now (b.idOf a.peer) a.received

/-- The changes of a cycle, in the order of the messages. -/
def Cycle.ops (b : Bgp) (c : Cycle) : List (MapOp PrefixEntry Route) := c.arrivals.flatMap (Arrival.ops b c.now)

/-! ## Sessions that stay up -/

namespace Bgp

/-- The established peers have identifiers of their own. -/
def DistinctEstablished (b : Bgp) : Prop :=
  ∀ (i j : Nat) (p q : BgpPeer), b.threadQ[i]? = some p → b.threadQ[j]? = some q →
    p.state = .established → q.state = .established → p.bgpId = q.bgpId → i = j

/-- Nothing is queued. -/
structure Idle (b : Bgp) : Prop where
  queues : b.queues = {}
  inQueues : ∀ p ∈ b.threadQ, p.inQueue = []

/-- Messages come from established peers only, and no hold timer runs out: each time the main loop looks
at an established peer, it has been heard of in time. -/
def StaysUp : List Cycle → Bgp → Prop
  | [], _ => True
  | c :: rest, b =>
      (∀ a ∈ c.arrivals, ∃ p, b.threadQ[a.peer]? = some p ∧ p.state = .established) ∧
        (∀ b', arriveAll c.arrivals b = .ok b' →
          ∀ p ∈ b'.threadQ, p.state = .established → p.InTime c.now) ∧
        ∀ b', b.cycle c = .ok b' → StaysUp rest b'

instance StaysUp.decidable : (cs : List Cycle) → (b : Bgp) → Decidable (StaysUp cs b)
  | [], _ => isTrue trivial
  | c :: rest, b =>
      have hrest : DecidablePred (StaysUp rest) := StaysUp.decidable rest
      have hfrom : ∀ a : Arrival, Decidable (∃ p, b.threadQ[a.peer]? = some p ∧ p.state = .established) :=
        fun a => decidable_of_iff (b.threadQ[a.peer]?.any (·.state = .established) = true) (by
          simp [Option.any_eq_true])
      inferInstanceAs (Decidable (_ ∧ _ ∧ _))

/-! ## The RIB that the messages ask for -/

/-- Applies the announcements and withdrawals one by one in the order they were sent in. -/
def sequential (cs : List Cycle) (b : Bgp) : BgpAdjRib :=
  applyOps (cs.map (Cycle.ops b)).flatten b.adjRibIn

/-- The last cycle that changes a key withdraws it, and then announces it again. -/
def ReannouncedLast (cs : List Cycle) (b : Bgp) (k : PrefixEntry) : Prop :=
  ReversedLast k (cs.map (Cycle.ops b))

end Bgp

end Log2Bgp
