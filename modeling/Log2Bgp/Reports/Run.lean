import Log2Bgp.Lib.Run
import Log2Bgp.Model.Bgp
import Log2Bgp.Reports.Lemmas.Readers

/-!
# Bodies that reach the RIB

An instance that parses one UPDATE after another and enters what they say into the RIB, while its history is queried
in between.
-/

namespace Log2Bgp

open Lib

/-- A body of a peer, and when it is parsed. -/
structure UpdateRead where
  now : TimeT
  peer : Nat
  data : QueueData
deriving DecidableEq, Repr

/-- A body, or a query of the history by the command line or the API. -/
inductive ReportAction where
  | update (a : UpdateRead)
  | query (fuel : Nat) (entry : BgpUpdate)
deriving DecidableEq, Repr

namespace Bgp

/-- An instance with peers and an empty RIB. -/
def configured (cfg : BgpConfig) (threadQ : List BgpPeer) : Bgp := { cfg := cfg, threadQ := threadQ }

/-- The readers are safe on the RIB and its history, whatever else is configured. -/
def ReadersSafe (b : Bgp) : Prop := ∀ cli : BgpCli, cli.adjRibIn = b.adjRibIn → cli.db = b.db → cli.ReadersSafe

/-- Every entry of the RIB has what its readers assume. -/
def Readable (b : Bgp) : Prop :=
  ∀ (k : PrefixEntry) (r : Route), b.adjRibIn[k]? = some r → r.update.Readable

/-- As the routes of a queue are entered, each that replaces another one is recorded at the end of the file, below
2^31. -/
def RecordsAtEof : List Route → Bgp → Prop
  | [], _ => True
  | r :: rest, b =>
      (b.adjRibIn[r.entry]?.isSome → b.db.dbase.pos = b.db.dbase.bytes.length ∧ b.db.dbase.bytes.length < 2 ^ 31) ∧
        RecordsAtEof rest (b.procAdjRibInItem r rest)

instance RecordsAtEof.decidable : (rs : List Route) → (b : Bgp) → Decidable (RecordsAtEof rs b)
  | [], _ => isTrue trivial
  | r :: rest, b =>
      have _ : Decidable (RecordsAtEof rest (b.procAdjRibInItem r rest)) :=
        RecordsAtEof.decidable rest (b.procAdjRibInItem r rest)
      inferInstanceAs (Decidable (_ ∧ _))

end Bgp

namespace UpdateRead

/-- Parses a body into empty queues, and drains these. -/
def step (b : Bgp) (a : UpdateRead) : Option Bgp :=
  (b.threadQ[a.peer]?).bind fun p =>
    (procMessage a.now p.bgpId a.data {} >>= fun q =>
      ({ b with queues := q } : Bgp).procAdjRibInQueue.procAdjRibWdrawQueue).toOption

/-- When a body keeps the readers of the RIB safe: if it comes from a peer and can be parsed, its
attributes leave an ORIGIN below 3 and an AS_PATH with an ASN, unless it announces nothing. -/
def Keeps (b : Bgp) (a : UpdateRead) : Prop :=
  a.peer < b.threadQ.length → Framed a.data.packet → a.data.Readable

/-- The routes that a body replaces are recorded at the end of the file. -/
def RecordsAtEof (b : Bgp) (a : UpdateRead) : Prop :=
  ∀ p ∈ b.threadQ[a.peer]?, ∀ q, procMessage a.now p.bgpId a.data {} = .ok q →
    Bgp.RecordsAtEof q.adjRibInQ { b with queues := q }

instance (b : Bgp) : DecidablePred (RecordsAtEof b) := fun a =>
  inferInstanceAs (Decidable (∀ p ∈ b.threadQ[a.peer]?, ∀ q, procMessage a.now p.bgpId a.data {} = .ok q →
    Bgp.RecordsAtEof q.adjRibInQ { b with queues := q }))

end UpdateRead

namespace ReportAction

/-- A query moves the position in the file of the database. -/
def step (b : Bgp) : ReportAction → Option Bgp
  | .update a => a.step b
  | .query fuel entry => (b.db.dbGetEntries fuel entry).map fun answer => { b with db := answer.2 }

def Keeps (b : Bgp) : ReportAction → Prop
  | .update a => a.Keeps b
  | .query _ _ => True

def RecordsAtEof (b : Bgp) : ReportAction → Prop
  | .update a => a.RecordsAtEof b
  | .query _ _ => True

instance (b : Bgp) : DecidablePred (RecordsAtEof b)
  | .update a => inferInstanceAs (Decidable (a.RecordsAtEof b))
  | .query _ _ => isTrue trivial

end ReportAction

end Log2Bgp
