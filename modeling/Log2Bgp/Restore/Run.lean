import Log2Bgp.Cli.Lemmas.Tokens
import Log2Bgp.Lib.Run

/-!
# Written configurations

Commands in any order, and the lines of a written configuration as commands of a fresh instance.
-/

namespace Log2Bgp

open Lib

/-- A line at the command line, and what its run depends on. -/
structure CliInput where
  env : CliEnv
  line : Text

/-- The instance after a line, if its command returns. -/
def CliInput.step (b : BgpCli) (c : CliInput) : Option BgpCli :=
  (executeLine c.env b c.line).toOption.map Prod.fst

/-- The lines that the external command line consumes: the ones of a `!` and `protocol bgp`. -/
def consumed (line : Text) : Bool :=
  words line = ["!".toList] || (words line).take 2 = ["protocol".toList, "bgp".toList]

/-- A line with its newline that is consumed, or a command with all the tokens that it reads. -/
def WholeLine (line : Text) : Prop :=
  ∃ t, line = t ++ ['\n'] ∧ '\n' ∉ t ∧
    (consumed t = true ∨
      ((findCommand commands (words t)).isSome ∧ ∀ env b, Cli.InBounds (executeLine env b t)))

/-- What `write_configs` prints of the buffers of a peer. -/
def CliPeer.sizes (p : CliPeer) : (Int32 × Int32) × (Int32 × Int32) :=
  ((p.tcpTxSocketBufferSize, p.bgpTxBufferSize), (p.tcpRxSocketBufferSize, p.bgpRxBufferSize))

/-- The same settings of a peer. Lookups in the table of aliases do not depend on its order. -/
structure CliPeer.Same (p q : CliPeer) : Prop where
  pIp : q.pIp = p.pIp
  AS : q.AS = p.AS
  sizes : q.sizes = p.sizes
  isAliasing : q.isAliasing = p.isAliasing
  aliases : q.translateAttribs.Perm p.translateAttribs

/-- The host and the port that updates of a peer are logged to. -/
def BgpCli.logging (b : BgpCli) (p : CliPeer) : Option (Text × UInt16) :=
  (b.dumper[p.bgpId]?).map fun s => (s.host, s.port)

/-- The same configuration. -/
structure BgpCli.Same (b b' : BgpCli) : Prop where
  bgpId : b'.bgpId = b.bgpId
  bIp : b'.bIp = b.bIp
  dumperOnOff : b'.dumperOnOff = b.dumperOnOff
  peers : List.Forall₂ (fun p q => CliPeer.Same p q ∧ b'.logging q = b.logging p) b.threadQ b'.threadQ

/-- The commands among the lines of the written configuration. -/
def BgpCli.configCommands (b : BgpCli) : List Text := (configLines b).filter fun l => !consumed l

/-- Every line of the written configuration is whole, and the commands lead a fresh instance to the same
configuration, whatever their runs depend on. -/
structure BgpCli.Restores (b : BgpCli) : Prop where
  lines : ∀ l ∈ configLines b, WholeLine l
  config : ∀ inputs : List CliInput, inputs.map CliInput.line = b.configCommands →
    ∃ b', runAll CliInput.step inputs (.initBgp b.AS) = some b' ∧ b.Same b'

/-- The attributes whose aliases `write_configs` prints. -/
def printedAliases : List BgpPathAttrib := [.bgpId, .asPath, .nextHop, .community]

/-- What the written configuration does not lose. -/
structure BgpCli.Restorable (b : BgpCli) : Prop where
  bgpId : b.bIp ≠ []
  address : ∀ p ∈ b.threadQ, ∃ addr, p.pIp = ntoa addr
  first : ∀ p ∈ b.threadQ.tail, p.pIp ≠ ntoa 0
  aliases : ∀ p ∈ b.threadQ, ∀ a ∈ p.translateAttribs, a.code ∈ printedAliases
  sizes : ∀ p ∈ b.threadQ, ∀ q ∈ b.threadQ, p.pIp = q.pIp → p.sizes = q.sizes
  logging : ∀ p ∈ b.threadQ, ∀ s ∈ b.dumper[p.bgpId]?,
    (∃ addr, aton s.host = some addr ∧ addr ≠ 0) ∧ htons s.port = s.port

end Log2Bgp
