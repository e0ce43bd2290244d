import MqStudio.Agent.Allowance
import MqStudio.Agent.Audit
import MqStudio.Agent.Catalog
import MqStudio.Agent.Ceiling
import MqStudio.Agent.Effects
import MqStudio.Agent.Guard
import MqStudio.Agent.Journal
import MqStudio.Agent.OneYes
import MqStudio.Agent.Permission
import MqStudio.Agent.Toolset
import MqStudio.Agent.Trail
import MqStudio.Alert.Center
import MqStudio.Assistant.Answers
import MqStudio.Assistant.Archive
import MqStudio.Assistant.Chat
import MqStudio.Assistant.Completions
import MqStudio.Assistant.Consent
import MqStudio.Assistant.Conversation
import MqStudio.Assistant.Crash
import MqStudio.Assistant.Deletion
import MqStudio.Assistant.Delivery
import MqStudio.Assistant.Manager
import MqStudio.Assistant.Moves
import MqStudio.Assistant.Pruning
import MqStudio.Assistant.Replay
import MqStudio.Assistant.Retention
import MqStudio.Assistant.Run
import MqStudio.Assistant.Session
import MqStudio.Assistant.Setup
import MqStudio.Assistant.Stopping
import MqStudio.Assistant.Streaming
import MqStudio.Assistant.Trail
import MqStudio.Assistant.Upkeep
import MqStudio.Assistant.Withheld
import MqStudio.Cluster.History
import MqStudio.Configuration.Invariants
import MqStudio.Configuration.Rollback
import MqStudio.Configuration.RoundTrip
import MqStudio.Configuration.Service
import MqStudio.Connection.DiskAgreement
import MqStudio.Connection.Durability
import MqStudio.Connection.Effects
import MqStudio.Connection.Encoding
import MqStudio.Connection.Forms
import MqStudio.Connection.Loading
import MqStudio.Connection.OnDisk
import MqStudio.Connection.Operations
import MqStudio.Connection.Persistence
import MqStudio.Connection.Probe
import MqStudio.Connection.Reopening
import MqStudio.Connection.Resolution
import MqStudio.Connection.StatusTruth
import MqStudio.Connection.StoreInvariant
import MqStudio.Connection.Submission
import MqStudio.Connection.Unedited
import MqStudio.Connection.Validation
import MqStudio.Driver
import MqStudio.Driver.DataPlane
import MqStudio.Driver.GroupOffset
import MqStudio.Driver.HeldBrowse
import MqStudio.Driver.KafkaBrowse
import MqStudio.Driver.KafkaDelete
import MqStudio.Driver.KafkaPage
import MqStudio.Driver.KafkaRule
import MqStudio.Driver.KafkaTail
import MqStudio.Driver.KinesisBrowse
import MqStudio.Driver.LatestShares
import MqStudio.Driver.LiveBuffers
import MqStudio.Driver.LiveStreams
import MqStudio.Driver.MessageTrack
import MqStudio.Driver.Moving
import MqStudio.Driver.MqttFilter
import MqStudio.Driver.Namespace
import MqStudio.Driver.NatsEdit
import MqStudio.Driver.NatsLive
import MqStudio.Driver.NatsTail
import MqStudio.Driver.NatsTrim
import MqStudio.Driver.ObjectName
import MqStudio.Driver.PulsarBrowse
import MqStudio.Driver.PulsarTail
import MqStudio.Driver.RabbitBrowse
import MqStudio.Driver.RabbitDeadLetters
import MqStudio.Driver.RabbitUser
import MqStudio.Driver.RedisAcl
import MqStudio.Driver.RedisListing
import MqStudio.Driver.Resend
import MqStudio.Driver.RocketExec
import MqStudio.Driver.RocketScan
import MqStudio.Driver.RocketTail
import MqStudio.Driver.ServiceBusRule
import MqStudio.Driver.TopicDelete
import MqStudio.Lib.Base64
import MqStudio.Lib.BoundedLog
import MqStudio.Lib.Completion
import MqStudio.Lib.Disk
import MqStudio.Lib.Duration
import MqStudio.Lib.FirstHit
import MqStudio.Lib.Grouping
import MqStudio.Lib.History
import MqStudio.Lib.Holdings
import MqStudio.Lib.Int64
import MqStudio.Lib.Json
import MqStudio.Lib.LastWrite
import MqStudio.Lib.LogReader
import MqStudio.Lib.Machine
import MqStudio.Lib.Pattern
import MqStudio.Lib.PeekLock
import MqStudio.Lib.Places
import MqStudio.Lib.Properties
import MqStudio.Lib.Ranked
import MqStudio.Lib.RoundRobin
import MqStudio.Lib.Runs
import MqStudio.Lib.Spans
import MqStudio.Lib.Threads
import MqStudio.Lib.Traverse
import MqStudio.Lib.TreeMap
import MqStudio.Lib.Updates
import MqStudio.Lib.Utf8
import MqStudio.Lib.Words
import MqStudio.Markdown.Blocks
import MqStudio.Markdown.Letters
import MqStudio.Markdown.Wording
import MqStudio.Model.Profile
import MqStudio.Model.Tail
import MqStudio.Producer.Drafts
import MqStudio.Producer.JsonTokens
import MqStudio.ReadOnly.Process
import MqStudio.ReadOnly.Superseded
import MqStudio.Settings
import MqStudio.Storage
import MqStudio.Storage.AtomicFile
import MqStudio.Storage.Crypto
import MqStudio.Storage.MasterKey
import MqStudio.Update.Apply
import MqStudio.Update.Attested
import MqStudio.Update.Exclusion
import MqStudio.Update.Learned
import MqStudio.Update.Manager
import MqStudio.Update.Mirrors
import MqStudio.Update.Ready
import MqStudio.Update.Version
