import Log2Bgp.Daemon.Lemmas.Recorded
import Log2Bgp.Database.Lemmas.History
import Log2Bgp.Lib.Overwrites

/-!
# The RIB and its history

The daemon next to queries of its history, in any order, and what the changes that its steps make to the
RIB say of both.
-/

namespace Log2Bgp

open Lib

/-- The change that a step makes to the RIB. -/
def Daemon.changes (s : Daemon) : DaemonAction → List (MapOp PrefixEntry Route)
  | .flush i =>
      match s.bgp.threadQ[i]? with
      | none => []
      | some p => ((findFirst (fun r : Route => r.bgpId = p.bgpId) s.bgp.adjRibIn).map fun e => .del e.1).toList
  | .procAdjRibIn =>
      match s.bgp.queues.adjRibInQ with
      | [] => []
      | r :: _ => if (s.bgp.getPeerByUint32tBgpId r.bgpId).isSome then [.put r.entry r] else []
  | .procAdjRibWdraw =>
      match s.bgp.queues.adjRibInWdrawQ with
      | [] => []
      | r :: _ => if s.bgp.adjRibIn[r.entry]?.isSome then [.del r.entry] else []
  | _ => []

/-- The daemon with the changes that were made so far. They are bookkeeping: no function of the code
reads them. -/
structure Chronicle where
  daemon : Daemon
  changes : List (MapOp PrefixEntry Route) := []

/-- A step of the daemon, or a query of the history by the command line or the API. -/
inductive ChronicleAction where
  | daemon (a : DaemonAction)
  | query (fuel : Nat) (entry : BgpUpdate)
deriving DecidableEq, Repr

namespace Chronicle

def step (s : Chronicle) : ChronicleAction → Option Chronicle
  | .daemon a => (s.daemon.step a).map fun d => { daemon := d, changes := s.changes ++ s.daemon.changes a }
  | .query fuel entry => (s.daemon.bgp.db.dbGetEntries fuel entry).map fun answer =>
      { s with daemon := { s.daemon with bgp := { s.daemon.bgp with db := answer.2 } } }

/-- An instance without routes, whose database is freshly opened. -/
def Start (maxRecords : UInt16) (s : Chronicle) : Prop :=
  s.daemon.Start ∧ s.daemon.bgp.db = BgpDatabase.dbOpen { maxRecords } ∧ s.changes = []

/-- A route that replaces another one is recorded at the end of the file, below 2^31. -/
def RecordsAtEof (s : Chronicle) : ChronicleAction → Prop
  | .daemon .procAdjRibIn => ∀ r ∈ s.daemon.bgp.queues.adjRibInQ.head?,
      s.daemon.bgp.Knows r.bgpId → s.daemon.bgp.adjRibIn[r.entry]?.isSome →
        s.daemon.bgp.db.dbase.pos = s.daemon.bgp.db.dbase.bytes.length ∧
          s.daemon.bgp.db.dbase.bytes.length < 2 ^ 31
  | _ => True

instance (s : Chronicle) : DecidablePred s.RecordsAtEof
  | .daemon .procAdjRibIn =>
      inferInstanceAs (Decidable (∀ r ∈ s.daemon.bgp.queues.adjRibInQ.head?, r.bgpId ∈ s.daemon.bgp.ids → _ → _ ∧ _))
  | .daemon (.thread _ _) | .daemon (.flush _) | .daemon (.procInQ _ _) | .daemon .procAdjRibWdraw => isTrue trivial
  | .query _ _ => isTrue trivial

/-- The updates that others were put over, under each key. -/
def past (s : Chronicle) : History := fun e => ((overwritesOn e s.changes).map Route.update).reverse

/-- The RIB is what the changes lead to, and every query ends and is answered by the last updates that were
overwritten at its key, newest first. -/
structure Tells (maxRecords : UInt16) (s : Chronicle) : Prop where
  rib : s.daemon.bgp.adjRibIn = applyOps s.changes ∅
  history : ∀ (fuel : Nat), 14 ≤ fuel → ∀ entry : BgpUpdate,
    (s.daemon.bgp.db.dbGetEntries fuel entry).map Prod.fst = some (s.past.last maxRecords.toNat entry.nlri.entry)

end Chronicle

end Log2Bgp
