import Ravn.Theory.BTreeMap
import Ravn.Theory.Base64
import Ravn.Theory.Text
import Ravn.Theory.Lines
import Ravn.Theory.Delimited
import Ravn.Theory.Episode
import Ravn.Theory.Except
import Ravn.Theory.Exchange
import Ravn.Theory.FirstMatch
import Ravn.Theory.Glob
import Ravn.Theory.Grammar
import Ravn.Theory.Grouping
import Ravn.Theory.Transition
import Ravn.Theory.Interleaving
import Ravn.Theory.Json
import Ravn.Theory.JsonParse
import Ravn.Theory.JsonPath
import Ravn.Theory.JsonPrefix
import Ravn.Theory.JsonSpelling
import Ravn.Theory.Lru
import Ravn.Theory.MemberOrder
import Ravn.Theory.Percent
import Ravn.Theory.Serde
import Ravn.Theory.SlidingWindow
import Ravn.Theory.Streak
import Ravn.Theory.Utf8
import Ravn.Theory.Value
import Ravn.Theory.Watch
import Ravn.Core.Basic
import Ravn.Core.Platform
import Ravn.Core.Event
import Ravn.Core.Remediation
import Ravn.Core.SigningPayload
import Ravn.Core.Wire
import Ravn.Core.Decode
import Ravn.Core.Template
import Ravn.Core.KubeNames
import Ravn.Core.Payload
import Ravn.Core.Message
import Ravn.Core.Render
import Ravn.Core.Placeholders
import Ravn.Core.Record
import Ravn.Crypto.Envelope
import Ravn.Crypto.Coverage
import Ravn.Crypto.Ed25519
import Ravn.Crypto.KeyringJson
import Ravn.Crypto.KeyringReach
import Ravn.Actuator.HandleCommand
import Ravn.Actuator.Poll
import Ravn.Actuator.CommandLaw
import Ravn.Actuator.Connection
import Ravn.Actuator.Systemctl
import Ravn.Actuator.OptionInjection
import Ravn.Actuator.VerifyPoll
import Ravn.Agent.Ledger
import Ravn.Agent.AtMostOnce
import Ravn.Agent.Buffer
import Ravn.Agent.BufferOrder
import Ravn.Agent.ConfigDrift
import Ravn.Agent.Delivery
import Ravn.Agent.DiffTruncation
import Ravn.Agent.Forgery
import Ravn.Agent.GraceTracker
import Ravn.Agent.PinnedKeyring
import Ravn.Agent.PollBackoff
import Ravn.Agent.Prompt
import Ravn.K8s.CommandLoop
import Ravn.K8s.Executor
import Ravn.K8s.LogDedup
import Ravn.K8s.Mapping
import Ravn.K8s.Node
import Ravn.K8s.Relist
import Ravn.K8s.Suppression
import Ravn.K8s.Restarts
import Ravn.Fleet.KeyringReload
import Ravn.Fleet.Relay
import Ravn.Fleet.Replay
import Ravn.Server.CommandQueue
import Ravn.Fleet.Delivery
import Ravn.Fleet.Routing
import Ravn.Server.EventField
import Ravn.Server.Templates
import Ravn.Server.ApprovedTemplate
import Ravn.Server.Policy
import Ravn.Server.Db
import Ravn.Server.RemediationStore
import Ravn.Server.ControlPlane
import Ravn.Server.Api
import Ravn.Server.Approvals
import Ravn.Server.Audit
import Ravn.Server.PolicyHistory
import Ravn.Server.Breaker
import Ravn.Server.Columns
import Ravn.Server.CommandSigner
import Ravn.Server.DedupCache
import Ravn.Server.Rendering
import Ravn.Server.Durations
import Ravn.Server.EventWalk
import Ravn.Server.Knowledge
import Ravn.Server.KnowledgeFile
import Ravn.Server.FaultMemory
import Ravn.Server.Inference
import Ravn.Server.Unescape
import Ravn.Server.FieldSearch
import Ravn.Server.Provenance
import Ravn.Server.Frozen
import Ravn.Server.HostScope
import Ravn.Server.Ingest
import Ravn.Server.IssuedOnce
import Ravn.Server.KnowledgeFits
import Ravn.Server.KnowledgeRace
import Ravn.Server.PendingOnce
import Ravn.Server.Redelivery
import Ravn.Server.Results
import Ravn.Server.Salvage
import Ravn.Server.Selection
import Ravn.Server.Registry
import Ravn.Server.Topology
import Ravn.Mcp.Client
import Ravn.Mcp.Tools
import Ravn.Mcp.Server
import Ravn.Mcp.Session
import Ravn.Mcp.Proposals
import Ravn.Fleet.Enrollment
import Ravn.Agent.Digest
import Ravn.Agent.AccessLines
