import Log2Bgp.Model.Message
import Log2Bgp.Model.Peer
import Log2Bgp.Model.Session
import Log2Bgp.Model.Update
import Log2Bgp.Update.Wire
import Log2Bgp.Update.Lemmas.Walk
import Log2Bgp.Update.Lemmas.Nlri
import Log2Bgp.Update.Lemmas.Message
import Log2Bgp.Update.Framing
import Log2Bgp.Update.Lemmas.Safety
import Log2Bgp.Update.Theorems
import Log2Bgp.Session.Lemmas.Dispatch
import Log2Bgp.Session.Theorems
import Log2Bgp.Lib.Stream
import Log2Bgp.Model.Database
import Log2Bgp.Database.Lemmas.Record
import Log2Bgp.Database.Lemmas.History
import Log2Bgp.Database.Theorems
import Log2Bgp.Lib.TreeMap
import Log2Bgp.Model.Bgp
import Log2Bgp.Lib.MapOps
import Log2Bgp.Lib.Run
import Log2Bgp.Rib.Lemmas.Peers
import Log2Bgp.Rib.Lemmas.Changes
import Log2Bgp.Rib.Lemmas.Counters
import Log2Bgp.Rib.Theorems
import Log2Bgp.MainLoop.Lemmas.Arrivals
import Log2Bgp.MainLoop.Lemmas.Pass
import Log2Bgp.MainLoop.Lemmas.Cycle
import Log2Bgp.MainLoop.Theorems
import Log2Bgp.Model.Daemon
import Log2Bgp.Daemon.Lemmas.Messages
import Log2Bgp.Daemon.Lemmas.Steps
import Log2Bgp.Daemon.Lemmas.Cleanup
import Log2Bgp.Daemon.Lemmas.Isolation
import Log2Bgp.Daemon.Theorems
import Log2Bgp.Daemon.Lemmas.Gate
import Log2Bgp.Daemon.Lemmas.Recorded
import Log2Bgp.Session.Lemmas.Negotiation
import Log2Bgp.Session.Lemmas.Opened
import Log2Bgp.Lib.Inet
import Log2Bgp.Model.Command
import Log2Bgp.Lib.Calendar
import Log2Bgp.Model.Config
import Log2Bgp.Model.Report
import Log2Bgp.Model.Cli
import Log2Bgp.Cli.Lemmas.Tree
import Log2Bgp.Cli.Lemmas.Tokens
import Log2Bgp.Cli.Theorems
import Log2Bgp.Dumper.Lemmas.Filing
import Log2Bgp.Dumper.Theorems
import Log2Bgp.Reports.Lemmas.Settled
import Log2Bgp.Reports.Lemmas.Readers
import Log2Bgp.Reports.Lemmas.Entries
import Log2Bgp.Reports.Theorems
import Log2Bgp.Lib.Json.Automaton
import Log2Bgp.Lib.Json.Sound
import Log2Bgp.Lib.Json.Complete
import Log2Bgp.Lib.Json.Chunks
import Log2Bgp.Api.Lemmas.Labels
import Log2Bgp.Api.Lemmas.Objects
import Log2Bgp.Api.Lemmas.Matches
import Log2Bgp.Api.Lemmas.Answers
import Log2Bgp.Api.Theorems
import Log2Bgp.Restore.Run
import Log2Bgp.Restore.Lemmas.Changes
import Log2Bgp.Restore.Lemmas.Aliases
import Log2Bgp.Restore.Lemmas.Reached
import Log2Bgp.Restore.Lemmas.Lines
import Log2Bgp.Restore.Lemmas.Effects
import Log2Bgp.Restore.Lemmas.Printed
import Log2Bgp.Restore.Lemmas.Feed
import Log2Bgp.Restore.Lemmas.Again
import Log2Bgp.Restore.Theorems
import Log2Bgp.Database.Lemmas.Loop
import Log2Bgp.Database.Lemmas.Offsets
import Log2Bgp.Lib.Prefixes
import Log2Bgp.Lookup.Lemmas.Ranges
import Log2Bgp.Lookup.Theorems
import Log2Bgp.Update.Attributes
import Log2Bgp.Session.Exchange
import Log2Bgp.Session.Timed
import Log2Bgp.Cli.Lemmas.Trails
import Log2Bgp.Rib.Flush
import Log2Bgp.Daemon.Lemmas.Depth
import Log2Bgp.Update.Padding
import Log2Bgp.Cli.Table
import Log2Bgp.Aliases.Tables
import Log2Bgp.Lookup.Private
import Log2Bgp.Api.Members
import Log2Bgp.Cli.Ports
import Log2Bgp.Cli.Addresses
import Log2Bgp.Aliases.Translation
import Log2Bgp.Lib.Journal
import Log2Bgp.Journal.Run
import Log2Bgp.Journal.Theorems
import Log2Bgp.Lib.Overwrites
import Log2Bgp.Chronicle.Run
import Log2Bgp.Chronicle.Theorems
import Log2Bgp.Session.Lemmas.Speech
import Log2Bgp.Session.Conversation
import Log2Bgp.Lib.Fifo
import Log2Bgp.Pipeline.Run
import Log2Bgp.Pipeline.Theorems
import Log2Bgp.Lib.Fields
import Log2Bgp.Dumper.Lines
import Log2Bgp.Dumper.Numbers
import Log2Bgp.Lib.Locks
import Log2Bgp.Locks.Run
import Log2Bgp.Locks.Theorems
import Log2Bgp.Session.Shared
import Log2Bgp.Session.Keepalives
import Log2Bgp.Cli.Searches
import Log2Bgp.Cli.Requests
import Log2Bgp.Cli.Answers
import Log2Bgp.Pipeline.Quiet
