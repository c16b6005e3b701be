import Log2Bgp.Lib.Checked
import Log2Bgp.Lib.Inet
import Mathlib.Data.Char
import Mathlib.Data.List.Lex
import Mathlib.Data.List.Sort

/-!
# The command tree

The tree of commands, and the search for the tokens of a line in it (`bgp_command_struct.h`,
`bgp_cmdparser.cpp`, `tcp_server.cpp`).
-/

namespace Log2Bgp

open Lib

/-- `cmd_BGP_func_v`: the functions that the tree points to. -/
inductive CmdBgpFunc where
  | apiGetPrefix | apiGetAllOriginAs | apiGetPublicOriginAs | apiGetPrivateOriginAs
  | show | showBgpPrefix | showBgpNeighbors | showBgpAdjRibIn | showBgpAdjRibWdrawn
  | writeConfigs | protoBgpToggleUpdateDump | protoBgpNeighbor | setPeerLogging
  | protoBgpPeerRcvBufferSize | protoBgpPeerSndBufferSize | protoBgpPeerTimers
  | protoBgpPeerAttribute | protoBgpAttributeBgpIdTranslateValue
  | protoBgpAttributeOriginTranslateValue | protoBgpAttributeAspathTranslateValue
  | protoBgpAttributeNexthopTranslateValue | protoBgpAttributeV4nexthopTranslateValue
  | protoBgpAttributeMedTranslateValue | protoBgpAttributeLocalprefTranslateValue
  | protoBgpAttributeAtomicaggrTranslateValue | protoBgpAttributeCommunityTranslateValue
  | setBgpId | killAllSignal
deriving DecidableEq, Repr

/-- `COMMAND`. -/
structure Command where
  name : Text
  func : CmdBgpFunc
  subCommand : List Command := []

/-! ## The tree -/

/-- A value of one kind after another, for one function. -/
def valueCommand (func : CmdBgpFunc) : List String → List Command
  | [] => []
  | name :: names => [⟨name.toList, func, valueCommand func names⟩]

/-- `alias` and the values behind it. -/
def aliasCommand (func : CmdBgpFunc) (values : List String) : List Command :=
  [⟨"alias".toList, func, valueCommand func values⟩]

/-- The commands below `attribute`. -/
def attributeCommands : List Command :=
  [⟨"bgp-id".toList, .protoBgpAttributeBgpIdTranslateValue,
      aliasCommand .protoBgpAttributeBgpIdTranslateValue ["<value>"]⟩,
    ⟨"origin".toList, .protoBgpAttributeOriginTranslateValue,
      aliasCommand .protoBgpAttributeOriginTranslateValue []⟩,
    ⟨"as-path".toList, .protoBgpAttributeAspathTranslateValue,
      aliasCommand .protoBgpAttributeAspathTranslateValue ["<value>", "<new value>"]⟩,
    ⟨"next-hop".toList, .protoBgpAttributeNexthopTranslateValue,
      [⟨"alias".toList, .protoBgpAttributeNexthopTranslateValue,
        [⟨"ipv4".toList, .protoBgpAttributeV4nexthopTranslateValue,
            valueCommand .protoBgpAttributeV4nexthopTranslateValue ["<x.x.x.x>", "<value>"]⟩,
          ⟨"ipv6".toList, .protoBgpAttributeV4nexthopTranslateValue,
            valueCommand .protoBgpAttributeV4nexthopTranslateValue ["<x:x:x:x:x:x:x:>", "<value>"]⟩]⟩]⟩,
    ⟨"med".toList, .protoBgpAttributeMedTranslateValue,
      aliasCommand .protoBgpAttributeMedTranslateValue ["<value>"]⟩,
    ⟨"local-pref".toList, .protoBgpAttributeLocalprefTranslateValue,
      aliasCommand .protoBgpAttributeLocalprefTranslateValue ["<value>"]⟩,
    ⟨"atomic-aggr".toList, .protoBgpAttributeAtomicaggrTranslateValue,
      aliasCommand .protoBgpAttributeAtomicaggrTranslateValue ["boolean"]⟩,
    ⟨"community".toList, .protoBgpAttributeCommunityTranslateValue,
      aliasCommand .protoBgpAttributeCommunityTranslateValue ["<0-65535>", "<value>"]⟩]

/-- The commands below the address of a neighbor. -/
def neighborCommands : List Command :=
  [⟨"logging".toList, .setPeerLogging, valueCommand .setPeerLogging ["host", "<x.x.x.x>", "<port>"]⟩,
    ⟨"rx-buffer".toList, .protoBgpPeerRcvBufferSize,
      valueCommand .protoBgpPeerRcvBufferSize ["<512-131072>", "<512-131072>"]⟩,
    ⟨"tx-buffer".toList, .protoBgpPeerSndBufferSize,
      valueCommand .protoBgpPeerSndBufferSize ["<512-131072>", "<512-131072>"]⟩,
    ⟨"remote-as".toList, .protoBgpNeighbor, valueCommand .protoBgpNeighbor ["<1-65535>"]⟩,
    ⟨"timers".toList, .protoBgpPeerTimers, valueCommand .protoBgpPeerTimers ["<0-65535>", "<0-65535>"]⟩,
    ⟨"attribute".toList, .protoBgpPeerAttribute, attributeCommands⟩]

/-- `cmds`, up to the entry with an empty name. -/
def cmds : List Command :=
  [⟨"api-get".toList, .apiGetPrefix,
      [⟨"prefix".toList, .apiGetPrefix, valueCommand .apiGetPrefix ["<x.x.x.x>"]⟩,
        ⟨"all-from-asn".toList, .apiGetAllOriginAs,
          valueCommand .apiGetAllOriginAs ["<ASN>", "<LENGTH>"]⟩,
        ⟨"all-public-asn".toList, .apiGetPublicOriginAs,
          valueCommand .apiGetPublicOriginAs ["<ASN>", "<LENGTH>"]⟩,
        ⟨"all-private-asn".toList, .apiGetPrivateOriginAs,
          valueCommand .apiGetPrivateOriginAs ["<ASN>", "<LENGTH>"]⟩]⟩,
    ⟨"show".toList, .show,
      [⟨"bgp".toList, .show,
        [⟨"ipv4".toList, .showBgpPrefix, valueCommand .showBgpPrefix ["<x.x.x.x>"]⟩,
          ⟨"neighbors".toList, .showBgpNeighbors, []⟩,
          ⟨"adj-rib-in".toList, .showBgpAdjRibIn, []⟩,
          ⟨"rib-withdrawn".toList, .showBgpAdjRibWdrawn, []⟩]⟩]⟩,
    ⟨"write".toList, .writeConfigs, []⟩,
    ⟨"dumper".toList, .protoBgpToggleUpdateDump,
      [⟨"on".toList, .protoBgpToggleUpdateDump, []⟩, ⟨"off".toList, .protoBgpToggleUpdateDump, []⟩]⟩,
    ⟨"neighbor".toList, .protoBgpNeighbor, [⟨"<x.x.x.x>".toList, .protoBgpNeighbor, neighborCommands⟩]⟩,
    ⟨"bgp-id".toList, .setBgpId, valueCommand .setBgpId ["<x.x.x.x>"]⟩,
    ⟨"kill-all".toList, .killAllSignal, []⟩]

/-! ## `CmdInit` -/

/-- `std::sort` with `compare_cmd`. The names at one place of the tree are all different. -/
def sortCommands (cs : List Command) : List Command :=
  cs.insertionSort fun a b => a.name ≤ b.name

/-- The loop that sorts a list of commands and goes on with what lies below its last one. Every pass
goes one level down, which bounds it. -/
def sortBack : (levels : Nat) → List Command → List Command
  | 0, cs => cs
  | levels + 1, cs =>
      match (sortCommands cs).reverse with
      | [] => []
      | last :: before =>
          (⟨last.name, last.func, sortBack levels last.subCommand⟩ :: before).reverse

mutual

/-- The levels of commands below a command. -/
def Command.levels : Command → Nat
  | ⟨_, _, subs⟩ => levelsOf subs

/-- The levels of a list of commands. -/
def levelsOf : List Command → Nat
  | [] => 0
  | c :: cs => max (c.levels + 1) (levelsOf cs)

end

/-- `CmdInit`. -/
def cmdInit (cs : List Command) : List Command :=
  sortCommands (cs.map fun c => ⟨c.name, c.func, sortBack c.levels c.subCommand⟩)

/-- `commands`, as the constructor of the instance leaves it. -/
def commands : List Command := cmdInit cmds

/-! ## `FindCommand` -/

/-- `!name.compare(0, cmd.length(), cmd)`. -/
def Command.named (cmd : Text) (c : Command) : Bool := cmd.isPrefixOf c.name

/-- The first loop of `FindCommand`, which keeps the last command that fits. -/
def findRoot (cs : List Command) (cmd : Text) : Option Command :=
  cs.foldl (fun current c => if c.named cmd then some c else current) none

/-- A pass of the second loop. A token that fits nowhere is skipped. -/
def Command.descend (current : Command) (cmd : Text) : Command :=
  (current.subCommand.find? fun c => c.named cmd || c.name.head? = some '<').getD current

/-- `FindCommand`. -/
def findCommand (cs : List Command) : List Text → Option Command
  | [] => none
  | cmd :: tokens => (findRoot cs cmd).map fun root => tokens.foldl Command.descend root

/-! ## Reading tokens -/

/-- Where the run of a command stops: at a token that the line does not have, or at another access
outside the bounds. -/
inductive CliFault where
  | token (index : Nat)
  | memory (fault : Fault)
deriving DecidableEq, Repr

/-- A computation over the tokens of a line. -/
abbrev Cli (α : Type) := Except CliFault α

/-- `tokens[index]`. -/
def tokenAt (tokens : List Text) (index : Nat) : Cli Text :=
  match tokens[index]? with
  | some t => .ok t
  | none => .error (.token index)

/-- A computation that reads no tokens. -/
def Cli.ofChecked {α : Type} : Checked α → Cli α
  | .ok a => .ok a
  | .error e => .error (.memory e)

/-- `is_api_call`. -/
def isApiCall (buffer : Text) : Cli Bool := do
  let first ← tokenAt (words buffer) 0
  pure (first = "api-get".toList)

end Log2Bgp
