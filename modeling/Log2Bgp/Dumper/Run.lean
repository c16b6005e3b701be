import Log2Bgp.Daemon.Lemmas.Threads
import Log2Bgp.Lib.Run
import Log2Bgp.Model.Cli
import Log2Bgp.Session.Run

/-!
# Destinations of the dumper

Commands that set the destination of a peer, OPENs that arrive and updates that are dumped, in any
order.
-/

namespace Log2Bgp

open Lib

/-- A command `neighbor A logging host H P` with a valid host and port. -/
structure LoggingCommand where
  env : CliEnv
  line : Text
  ip : Text
  host : Text
  port : Text
  addr : UInt32
  portNum : UInt16
  tokens : words line = ["neighbor".toList, ip, "logging".toList, "host".toList, host, port]
  validHost : aton host = some addr
  validPort : extractUnsigned 65535 port = some portNum.toNat

/-- A host and a port in the order of the host. -/
abbrev Destination := UInt32 × UInt16

/-- An instance, with the peers that have had an accepted OPEN and what the last command for each peer
asked for. These two are bookkeeping: no function of the code reads them. -/
structure Dumping where
  b : BgpCli
  opened : Nat → Bool := fun _ => false
  last : Nat → Option Destination := fun _ => none

/-- A command, an OPEN for a peer of the table, or an update that is dumped. -/
inductive DumpAction where
  | logging (c : LoggingCommand)
  | openMsg (i : Nat) (now : TimeT) (packet : List UInt8)
  | dump (u : Uninit) (now : TimeT) (update : BgpUpdate) (flag : NlriParse)

/-- The peer that a command is for. -/
def BgpCli.named (b : BgpCli) (ip : Text) : Option (Nat × CliPeer) :=
  (b.getPeerByStrIp ip).bind fun i => (b.threadQ[i]?).map fun p => (i, p)

namespace Dumping

/-- An instance without destinations and before any OPEN. -/
def start (b : BgpCli) : Dumping := { b := { b with dumper := ∅ } }

/-- The configuration that `decode_open` reads. -/
def cfg (s : Dumping) : BgpConfig := constructedConfig s.b.AS s.b.bgpId

/-- What is remembered of a command: 0.0.0.0 is refused. -/
def note (s : Dumping) (c : LoggingCommand) : Nat → Option Destination :=
  match s.b.named c.ip with
  | some (i, _) => if c.addr = 0 then s.last else Function.update s.last i (some (c.addr, c.portNum))
  | none => s.last

def step (s : Dumping) : DumpAction → Option Dumping
  | .logging c => (executeLine c.env s.b c.line).toOption.map fun r =>
      { s with b := r.1, last := s.note c }
  | .openMsg i now packet =>
      (s.b.threadQ[i]?).bind fun p =>
        (decodeOpen s.cfg p.toBgpPeer now packet).toOption.map fun q =>
          { s with
            b := s.b.modifyPeer i fun p => { p with toBgpPeer := q }
            opened :=
              if (acceptedId s.cfg p.toBgpPeer packet).isSome then Function.update s.opened i true
              else s.opened }
  | .dump u now update flag => (translateAndDumpUpdate u now s.b update flag).toOption.map fun r =>
      { s with b := r.1 }

end Dumping

/-! ## Where updates go -/

/-- What is dumped goes to a destination, or to the log file where there is none. -/
def Dumped.GoesTo : Dumped → Option Destination → Prop
  | .datagram dest _, some (host, port) => dest.sinAddr = host ∧ ntohs dest.sinPort = port
  | .logFile _, none => True
  | _, _ => False

/-- Whatever is dumped for a peer with an accepted OPEN goes to the destination of the last command for
this peer. -/
def Dumping.Delivers (s : Dumping) : Prop :=
  ∀ i p, s.b.threadQ[i]? = some p → s.opened i = true →
    ∀ (u : Uninit) (now : TimeT) (update : BgpUpdate) (flag : NlriParse) (b' : BgpCli) (out : Dumped),
      update.nlri.bgpId = p.bgpId → translateAndDumpUpdate u now s.b update flag = .ok (b', out) →
      out.GoesTo (s.last i)

/-- What is filed under an identifier is the destination. -/
def UdpDestinations.Filed (m : UdpDestinations) (bgpId : UInt32) (d : Option Destination) : Prop :=
  (m[bgpId]?).map (fun s => (s.dest.sinAddr, ntohs s.dest.sinPort)) = d

instance (m : UdpDestinations) (bgpId : UInt32) (d : Option Destination) : Decidable (m.Filed bgpId d) :=
  inferInstanceAs (Decidable (_ = _))

/-- When an action keeps the destinations right. A command for a peer with an accepted OPEN has a port
whose two bytes are equal; whoever has an accepted OPEN with the same identifier was last given the same
host and the port with its bytes swapped; and the identifier of an OPEN already has the destination of its
peer. -/
def Dumping.Keeps (s : Dumping) : DumpAction → Prop
  | .logging c => ∀ i p, s.b.named c.ip = some (i, p) → c.addr ≠ 0 →
      (s.opened i = true → htons c.portNum = c.portNum) ∧
      ∀ j q, j ≠ i → s.b.threadQ[j]? = some q → s.opened j = true → q.bgpId = p.bgpId →
        s.last j = some (c.addr, htons c.portNum)
  | .openMsg i _ packet => ∀ p bgpId, s.b.threadQ[i]? = some p →
      acceptedId s.cfg p.toBgpPeer packet = some bgpId → s.b.dumper.Filed bgpId (s.last i)
  | .dump _ _ _ _ => True

end Log2Bgp
