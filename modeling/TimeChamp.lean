import TimeChamp.Lib.Pulse
import TimeChamp.Lib.Duration
import TimeChamp.Lib.Prog
import TimeChamp.Lib.Pool
import TimeChamp.Lib.Table
import TimeChamp.Lib.Runs
import TimeChamp.Lib.Bytes
import TimeChamp.Lib.LocalTime
import TimeChamp.Lib.WriteBehind
import TimeChamp.Lib.InFlight
import TimeChamp.Lib.Csv
import TimeChamp.Lib.Texts
import TimeChamp.Lib.Floats
import TimeChamp.Lib.GroupBy
import TimeChamp.Lib.LastWrite
import TimeChamp.Lib.Json
import TimeChamp.Lib.GoJson
import TimeChamp.Lib.Memo
import TimeChamp.Lib.Ring
import TimeChamp.Lib.StableSort
import TimeChamp.Lib.Parallel
import TimeChamp.Lib.Noninterference
import TimeChamp.Lib.Obligations
import TimeChamp.Lib.Database
import TimeChamp.Lib.Repository
import TimeChamp.Lib.Ownership
import TimeChamp.Heartbeat.Merge
import TimeChamp.Heartbeat.Coverage
import TimeChamp.Heartbeat.Overlap
import TimeChamp.Heartbeat.Cap
import TimeChamp.Heartbeat.Flood
import TimeChamp.Heartbeat.Mending
import TimeChamp.Agent.WindowSource
import TimeChamp.Sync.Breaker
import TimeChamp.Sync.Retry
import TimeChamp.Agent.SyncTicker
import TimeChamp.Buffer.DB
import TimeChamp.Buffer.Batcher
import TimeChamp.Sync.Effects
import TimeChamp.Sync.Client
import TimeChamp.Sync.Uploader
import TimeChamp.Agent.Jobs
import TimeChamp.Agent.ProbeSlot
import TimeChamp.Agent.Upload
import TimeChamp.Agent.Retention
import TimeChamp.Agent.UploadOnce
import TimeChamp.Agent.BadEvent
import TimeChamp.Agent.Janitor
import TimeChamp.Agent.ScreenshotFiles
import TimeChamp.Agent.Classifier
import TimeChamp.Agent.SharedCache
import TimeChamp.Agent.Barriers
import TimeChamp.Agent.IdleTick
import TimeChamp.Agent.NativeHost
import TimeChamp.Agent.BrowserURL
import TimeChamp.Agent.Sleepwatch
import TimeChamp.Capture.IdleSeconds
import TimeChamp.Capture.Metrics
import TimeChamp.Logging.Rotate
import TimeChamp.Stream.Protocol
import TimeChamp.Stream.Frames
import TimeChamp.Stream.Delta
import TimeChamp.Stream.Changes
import TimeChamp.Stream.Manager
import TimeChamp.TimeTracking.Service
import TimeChamp.TimeTracking.OpenSession
import TimeChamp.TimeTracking.PaidOnce
import TimeChamp.TimeTracking.History
import TimeChamp.TimeTracking.Timesheets
import TimeChamp.TimeTracking.Weeks
import TimeChamp.TimeTracking.Approval
import TimeChamp.Api.HeartbeatBuffer
import TimeChamp.Api.LastSeen
import TimeChamp.Api.ActivityQueue
import TimeChamp.Api.NoLoss
import TimeChamp.Api.Requested
import TimeChamp.Api.Poison
import TimeChamp.Api.Redis
import TimeChamp.Api.FileStore
import TimeChamp.Tokens.Service
import TimeChamp.Tokens.SingleUse
import TimeChamp.Auth.Service
import TimeChamp.Auth.RefreshOnce
import TimeChamp.Auth.Logout
import TimeChamp.Streaming.Gateway
import TimeChamp.Streaming.Accepted
import TimeChamp.Streaming.Isolation
import TimeChamp.Streaming.Unaffected
import TimeChamp.Streaming.AgentSockets
import TimeChamp.Streaming.Egress
import TimeChamp.Registration.PersonalToken
import TimeChamp.Registration.Service
import TimeChamp.Registration.Devices
import TimeChamp.Registration.TokenAccepted
import TimeChamp.Registration.BurnedOnce
import TimeChamp.Exports.Exporters
import TimeChamp.Exports.RoundTrip
import TimeChamp.Analytics.Service
import TimeChamp.Analytics.Range
import TimeChamp.Analytics.Rounding
import TimeChamp.Analytics.Productivity
import TimeChamp.Analytics.Heatmap
import TimeChamp.Screenshots.Storage
import TimeChamp.Screenshots.Isolation
import TimeChamp.Screenshots.Cleanup
import TimeChamp.Streaming.LiveWatch
import TimeChamp.Streaming.WatchLive
import TimeChamp.Billing.Webhook
import TimeChamp.Billing.Order
import TimeChamp.Accounts.Service
import TimeChamp.Accounts.Emails
import TimeChamp.Tenant.Middleware
import TimeChamp.AgentAuth.Guard
import TimeChamp.AgentAuth.Justified
import TimeChamp.Updater.Update
import TimeChamp.Updater.Replace
import TimeChamp.Tray.App
import TimeChamp.Tray.OneAgent
import TimeChamp.Updater.Supervisors
import TimeChamp.Updater.Versions
import TimeChamp.Updater.Watchdog
import TimeChamp.Monitoring.OfflineSweep
import TimeChamp.Dashboard.MonitoringStore
import TimeChamp.Dashboard.Presence
import TimeChamp.Projects.Board
import TimeChamp.Projects.Service
import TimeChamp.Projects.Isolation
import TimeChamp.Accounts.Credentials
import TimeChamp.Accounts.MailedTokens
import TimeChamp.Reports.Service
import TimeChamp.Reports.Recent
import TimeChamp.Integrations.Service
import TimeChamp.Lib.Provenance
import TimeChamp.Integrations.Isolation
import TimeChamp.Integrations.Recorded
