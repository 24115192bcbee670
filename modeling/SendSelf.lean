import SendSelf.Library.Runs
import SendSelf.Library.Table
import SendSelf.Library.Batch
import SendSelf.Library.Sealing
import SendSelf.Library.WriteOnce
import SendSelf.Library.Interrupt
import SendSelf.Keys.Keyring
import SendSelf.Worker.Schema
import SendSelf.Worker.Rotation
import SendSelf.Worker.Membership
import SendSelf.Worker.Requests
import SendSelf.Worker.Atomicity
import SendSelf.Worker.Effects
import SendSelf.Keys.Client
import SendSelf.Keys.World
import SendSelf.Keys.Steps
import SendSelf.Keys.Wiring
import SendSelf.Keys.Agreement
import SendSelf.Keys.Revocation
import SendSelf.Keys.Identity
import SendSelf.Keys.Delivery
import SendSelf.Files.Blobs
import SendSelf.Files.Handlers
import SendSelf.Files.FileServer
import SendSelf.Files.Pending
import SendSelf.Files.Retention
import SendSelf.Outbox.Sender
import SendSelf.Outbox.World
import SendSelf.Outbox.Matching
import SendSelf.Lock.AtRest
import SendSelf.Lock.Storage
import SendSelf.Lock.Switching
import SendSelf.Lock.Rewriting
import SendSelf.Lock.Enabling
import SendSelf.Lock.Disabling
import SendSelf.Lock.CrashSafety
import SendSelf.Library.Coroutine
import SendSelf.Spaces.Page
import SendSelf.Spaces.OneSpace
import SendSelf.Library.Forest
import SendSelf.Library.Levels
import SendSelf.Vault.Items
import SendSelf.Library.Changefeed
import SendSelf.Vault.Numbering
import SendSelf.Vault.Changes
import SendSelf.Library.Burial
import SendSelf.Vault.Handlers
import SendSelf.Vault.Server
import SendSelf.Vault.Trees
import SendSelf.Library.Completion
import SendSelf.Vault.Recovery
import SendSelf.Library.Revisions
import SendSelf.Vault.Clients
import SendSelf.Vault.Edits
import SendSelf.Library.Replica
import SendSelf.Vault.Copy
import SendSelf.Vault.Convergence
import SendSelf.Keys.Contexts
import SendSelf.Keys.Sharing
import SendSelf.Deletions.History
import SendSelf.Deletions.Finality
import SendSelf.Blobs.Store
import SendSelf.Blobs.Quota
import SendSelf.Blobs.Actions
import SendSelf.Vault.Batches
import SendSelf.Blobs.Content
import SendSelf.Blobs.Leaks
import SendSelf.Blobs.MovedOut
import SendSelf.Group.Calls
import SendSelf.Group.Server
import SendSelf.Group.Slots
import SendSelf.Group.Roles
import SendSelf.Group.Epochs
import SendSelf.Group.Revoked
import SendSelf.Group.Drained
import SendSelf.Pins.Identities
import SendSelf.Pins.Pinned
import SendSelf.Resends.Idempotence
import SendSelf.Library.Framing
import SendSelf.Statements.Signed
import SendSelf.Pins.Labels
import SendSelf.Pins.Rosters
import SendSelf.Library.Stamped
import SendSelf.Names.World
import SendSelf.Names.Convergence
import SendSelf.Names.Renames
import SendSelf.Queue.Index
import SendSelf.Queue.Complete
import SendSelf.Receipts.Copies
import SendSelf.Receipts.Confirmed
import SendSelf.Lock.KeyPairs
import SendSelf.Lock.PairSteps
import SendSelf.Lock.PairsKept
import SendSelf.Linking.Device
import SendSelf.Linking.Once
import SendSelf.Texts.Base64Url
import SendSelf.Texts.RecoveryCode
import SendSelf.Texts.Search
import SendSelf.Thread.Messages
import SendSelf.Thread.Grouping
import SendSelf.Vault.Shown
import SendSelf.Vault.MoveRules
import SendSelf.Outbox.Flush
import SendSelf.Outbox.Flushed
import SendSelf.Library.Unseen
import SendSelf.Lock.Recoding
import SendSelf.Lock.Recoded
import SendSelf.Library.Intruder
import SendSelf.EndToEnd.Crypto
import SendSelf.EndToEnd.Space
import SendSelf.EndToEnd.World
import SendSelf.EndToEnd.Parts
import SendSelf.EndToEnd.Secrecy
import SendSelf.EndToEnd.Operations
import SendSelf.EndToEnd.Authenticity
import SendSelf.EndToEnd.RoundTrips
import SendSelf.Realtime.Page
import SendSelf.Realtime.Connection
import SendSelf.Realtime.Hub
import SendSelf.Realtime.Pushes
import SendSelf.Library.Percent
import SendSelf.Library.UrlPath
import SendSelf.Routing.Router
import SendSelf.Routing.Calls
import SendSelf.Routing.Places
import SendSelf.Cli.DeviceFile
import SendSelf.Cli.Folders
import SendSelf.Texts.RecoveryFile
