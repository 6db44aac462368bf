import MegooPM.Lib.Transition
import MegooPM.Lib.Dict
import MegooPM.Lib.Polling
import MegooPM.Lib.Raising
import MegooPM.Lib.Rows
import MegooPM.Lib.Text
import MegooPM.Lib.ConfTree
import MegooPM.Lib.Levels
import MegooPM.Lib.Lexer
import MegooPM.Lib.Locations
import MegooPM.Lib.Inheritance
import MegooPM.Lib.Phases
import MegooPM.Lib.TreeTexts
import MegooPM.Lib.ReadCommitted
import MegooPM.Lib.Bytes
import MegooPM.Lib.Splice
import MegooPM.Lib.OneTime
import MegooPM.Data.Enums
import MegooPM.Data.Tables
import MegooPM.Data.Timestamps
import MegooPM.Nginx.State
import MegooPM.Nginx.Loader
import MegooPM.Nginx.LoaderFacts
import MegooPM.Nginx.TlsPlan
import MegooPM.Nginx.Desired
import MegooPM.Nginx.Templates
import MegooPM.Nginx.Renderer
import MegooPM.Nginx.Engine
import MegooPM.Nginx.Sync
import MegooPM.Nginx.RendererFacts
import MegooPM.Nginx.RenderedFiles
import MegooPM.Nginx.TemplateFacts
import MegooPM.Nginx.CertificatePaths
import MegooPM.Nginx.TemplateTexts
import MegooPM.Nginx.AllOrNothing
import MegooPM.Nginx.PoolClosure
import MegooPM.Nginx.Sockets
import MegooPM.Nginx.CallRun
import MegooPM.Nginx.Settled
import MegooPM.Nginx.TruthfulApply
import MegooPM.Cluster.Protocol
import MegooPM.Cluster.Markers
import MegooPM.Cluster.Loads
import MegooPM.Cluster.Restores
import MegooPM.Tasks.WritePath
import MegooPM.Services.Session
import MegooPM.Services.Upstreams
import MegooPM.Services.Hosts
import MegooPM.Services.AccessLists
import MegooPM.Services.Pages
import MegooPM.Services.Certificates
import MegooPM.Nginx.Renewal
import MegooPM.Nginx.Documents
import MegooPM.Nginx.Attachments
import MegooPM.Nginx.FileClosure
import MegooPM.Api.Requests
import MegooPM.Api.Primaries
import MegooPM.Api.StreamPorts
import MegooPM.Api.PoolUse
import MegooPM.Api.Reloads
import MegooPM.Api.Schemas
import MegooPM.Api.Addresses
import MegooPM.Api.Confinement
import MegooPM.Api.Idempotence
import MegooPM.Tasks.Issuance
import MegooPM.Accounts.Tables
import MegooPM.Accounts.Tokens
import MegooPM.Accounts.Totp
import MegooPM.Accounts.TotpRuns
import MegooPM.Accounts.Users
import MegooPM.Accounts.Invitations
import MegooPM.Accounts.Sessions
import MegooPM.Accounts.RateLimit
import MegooPM.Accounts.Redemption
import MegooPM.Accounts.Challenges
import MegooPM.Accounts.CodeEntry
import MegooPM.Accounts.SignCounts
import MegooPM.Backup.Envelope
import MegooPM.Backup.Integrity
import MegooPM.Backup.Runner
import MegooPM.Backup.Restore
import MegooPM.Backup.Replace
import MegooPM.Backup.Schedule
import MegooPM.Backup.Truncation
import MegooPM.Certs.Storage
import MegooPM.Certs.Agreement
import MegooPM.Certs.Uploads
import MegooPM.Certs.Sweeps
import MegooPM.Pages.EditDocument
import MegooPM.Pages.AccessListForm
import MegooPM.Pages.AccessListSaves
import MegooPM.Lib.Installed
import MegooPM.Lib.JsonText
import MegooPM.CrowdSec.Engine
import MegooPM.CrowdSec.Whitelists
import MegooPM.CrowdSec.Appliers
import MegooPM.CrowdSec.Consistency
import MegooPM.Lib.Yaml
import MegooPM.CrowdSec.WhitelistYaml
import MegooPM.CrowdSec.Slugs
import MegooPM.CrowdSec.WhitelistRuns
import MegooPM.CrowdSec.HubRuns
import MegooPM.CrowdSec.BlocklistState
import MegooPM.Lib.Tally
import MegooPM.Analytics.Flush
import MegooPM.Analytics.Conservation
import MegooPM.Analytics.Volume
import MegooPM.Lib.LuaPattern
import MegooPM.Analytics.SharedCounts
import MegooPM.Services.Htpasswd
import MegooPM.Nginx.PasswordFile
import MegooPM.Api.AccessListUpdate
import MegooPM.Certs.FailedRenewal
import MegooPM.Lib.Owners
import MegooPM.Lib.IpAddress
import MegooPM.Lib.AddressGrammar
import MegooPM.Lib.AddressRoundTrip
import MegooPM.Lib.Trimming
import MegooPM.Nginx.TlsNames
import MegooPM.Nginx.ServerBlocks
import MegooPM.Nginx.RouteNames
import MegooPM.Nginx.StoredBlocks
import MegooPM.Nginx.Headers
import MegooPM.Nginx.Hsts
import MegooPM.Nginx.Refusals
import MegooPM.Certs.Propagation
import MegooPM.Lib.Replace
import MegooPM.Certs.TxtValues
import MegooPM.Lib.FirstFit
import MegooPM.Certs.Scrubbing
import MegooPM.Lib.UnitOfWork
import MegooPM.Services.HostUpdates
import MegooPM.Backup.Names
import MegooPM.Lib.Ranks
import MegooPM.Backup.UploadRuns
import MegooPM.Backup.Retention
import MegooPM.Lib.Items
import MegooPM.Lib.Doubles
import MegooPM.Lib.Json
import MegooPM.Lib.JsonWriting
import MegooPM.Lib.JsonReading
import MegooPM.Certs.Credentials
import MegooPM.Live.RateLimiter
import MegooPM.Live.Forward
import MegooPM.Live.Classification
import MegooPM.Live.SkipReports
import MegooPM.Live.Decisions
import MegooPM.Lib.Utf8
import MegooPM.Lib.Nesting
import MegooPM.Pages.HtmlCheck
import MegooPM.Lib.Numerals
import MegooPM.Pages.ProxyHostForm
import MegooPM.Lib.Scanning
import MegooPM.Pages.Fences
import MegooPM.Pages.Images
import MegooPM.Pages.ToolCalls
import MegooPM.Lib.CaseMapping
import MegooPM.Live.EventStream
import MegooPM.Pages.Assist
import MegooPM.Accounts.ApiKeys
import MegooPM.Accounts.KeyRuns
import MegooPM.Live.LivePage
import MegooPM.Accounts.RateBounds
import MegooPM.Accounts.ClientIp
