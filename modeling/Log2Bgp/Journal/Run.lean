import Log2Bgp.Daemon.Lemmas.Recorded
import Log2Bgp.Lib.Journal
import Log2Bgp.Model.Report

/-!
# The log of updates

What the daemon hands to the dumper while `dumper on` is in force, as changes of the RIB.
-/

namespace Log2Bgp

open Lib

/-- A call of `translate_and_dump_update`. -/
structure DumpCall where
  flag : NlriParse
  route : Route
deriving DecidableEq, Repr

/-- The change of the RIB that a call tells of. -/
def DumpCall.op (c : DumpCall) : MapOp PrefixEntry Route :=
  match c.flag with
  | .update => .put c.route.entry c.route
  | .withdraw => .del c.route.entry

def DumpCall.apply (rib : BgpAdjRib) (c : DumpCall) : BgpAdjRib := c.op.apply rib

/-- `translate_and_dump_update` returns: there is a text for the origin. -/
def DumpCall.returns (c : DumpCall) : Bool := (originText c.route.update.origin).toOption.isSome

namespace Bgp

/-- The call in `peer_entry`, which comes before the peer is looked up. -/
def peerEntryDump (r : Route) : List DumpCall := [⟨.update, r⟩]

/-- The call in `withdraw`, of the route that it found. -/
def withdrawDump (b : Bgp) (r : Route) : List DumpCall :=
  match b.adjRibIn[r.entry]? with
  | none => []
  | some old => [⟨.withdraw, old⟩]

end Bgp

namespace Daemon

/-- The calls of a step while the dumper is on. `flush_peer` makes none. -/
def dumpCalls (s : Daemon) : DaemonAction → List DumpCall
  | .procAdjRibIn =>
      match s.bgp.queues.adjRibInQ with
      | [] => []
      | r :: _ => Bgp.peerEntryDump r
  | .procAdjRibWdraw =>
      match s.bgp.queues.adjRibInWdrawQ with
      | [] => []
      | r :: _ => s.bgp.withdrawDump r
  | _ => []

/-- A step of the daemon with the dumper on or off, where no call of the dumper faults. -/
def dumpStep (on : Bool) (s : Daemon) (a : DaemonAction) : Option Daemon :=
  if on ∧ (s.dumpCalls a).all DumpCall.returns = false then none else s.step a

/-- A step whose change of the RIB, if there is any, is one that it hands to the dumper: nothing is found
to flush, and the peer of an update is known, or its route is in the RIB already. -/
def Logged (s : Daemon) : DaemonAction → Prop
  | .flush i => (s.threads i).phase = .flushing →
      ∀ p ∈ s.bgp.threadQ[i]?, ∀ r ∈ s.bgp.routes, r.bgpId ≠ p.bgpId
  | .procAdjRibIn => ∀ r ∈ s.bgp.queues.adjRibInQ.head?, r.update.origin < 3 →
      s.bgp.Knows r.bgpId ∨ s.bgp.adjRibIn[r.entry]? = some r
  | _ => True

instance (s : Daemon) : DecidablePred s.Logged
  | .flush i => inferInstanceAs (Decidable (_ → ∀ p ∈ s.bgp.threadQ[i]?, _))
  | .procAdjRibIn =>
      inferInstanceAs (Decidable (∀ r ∈ s.bgp.queues.adjRibInQ.head?, _ →
        r.bgpId ∈ s.bgp.ids ∨ s.bgp.adjRibIn[r.entry]? = some r))
  | .thread _ _ | .procInQ _ _ | .procAdjRibWdraw => isTrue trivial

end Daemon

/-- The daemon with its dumper and the calls since that was last switched on. -/
abbrev DumpJournal := Journal Daemon DumpCall BgpAdjRib

namespace DumpJournal

/-- Steps of the daemon, and commands that switch the dumper. -/
abbrev step : DumpJournal → JournalAction DaemonAction → Option DumpJournal :=
  Journal.step Daemon.dumpStep Daemon.dumpCalls fun s => s.bgp.adjRibIn

/-- While the dumper is on, the RIB is what the calls make of the one at its switching on. -/
abbrev Replays : DumpJournal → Prop := Journal.Replays DumpCall.apply fun s : Daemon => s.bgp.adjRibIn

/-- The dumper is off. -/
def start (s : Daemon) : DumpJournal := { state := s, on := false, reports := [], base := ∅ }

end DumpJournal

end Log2Bgp
