import OpenBambu.Foundation.Binary64
import OpenBambu.Foundation.Bytes
import OpenBambu.Foundation.Decimal
import OpenBambu.Foundation.Framing
import OpenBambu.Foundation.DropQueue
import OpenBambu.Foundation.Text
import OpenBambu.Foundation.OrderedMap
import OpenBambu.Foundation.BoundedMap
import OpenBambu.Foundation.Run
import OpenBambu.Foundation.Mutex
import OpenBambu.Json.Value
import OpenBambu.Json.Parser
import OpenBambu.Json.Grammar
import OpenBambu.Json.RoundTrip
import OpenBambu.Json.Numeral
import OpenBambu.Json.Rfc8259
import OpenBambu.Json.Cursor
import OpenBambu.Tunnel.Frame
import OpenBambu.Tunnel.Envelope
import OpenBambu.Tunnel.Session
import OpenBambu.Tunnel.Control
import OpenBambu.Tunnel.Handshake
import OpenBambu.Tunnel.Ready
import OpenBambu.Tunnel.Handover
import OpenBambu.Tunnel.Requests
import OpenBambu.Upload.Receive
import OpenBambu.Upload.Download
import OpenBambu.Upload.Transfer
import OpenBambu.Upload.Chunked
import OpenBambu.Rtsp.Rtp
import OpenBambu.Rtsp.Packetize
import OpenBambu.Rtsp.Sdp
import OpenBambu.Rtsp.Passthrough
import OpenBambu.Rtsp.ParameterSets
import OpenBambu.Rtsp.Interleaved
import OpenBambu.Agent.Covers
import OpenBambu.Agent.CoverFiles
import OpenBambu.Ftps.Completeness
import OpenBambu.Agent.Presets
import OpenBambu.Agent.Account
import OpenBambu.Agent.CloudSession
import OpenBambu.Agent.Cloud
import OpenBambu.Agent.LanConnect
import OpenBambu.FileTransfer.Jobs
import OpenBambu.Source.Tunnel
import OpenBambu.Source.Worker
import OpenBambu.Source.Shutdown
import OpenBambu.Source.Reopen
import OpenBambu.FileTransfer.Blocking
import OpenBambu.Ftps.Secured
import OpenBambu.Lan.Connections
import OpenBambu.Url.Parsers
import OpenBambu.Json.Written
import OpenBambu.Tunnel.Payload
import OpenBambu.Tunnel.WireResult
import OpenBambu.Source.Result
import OpenBambu.Upload.Replies
import OpenBambu.Lan.Registry
import OpenBambu.Json.Layout
import OpenBambu.Ssdp.Headers
import OpenBambu.Foundation.Calendar
import OpenBambu.Auth.SessionFile
import OpenBambu.Print.Published
import OpenBambu.Json.Counts
import OpenBambu.Upload.Abi
import OpenBambu.Tunnel.AbilityReply
import OpenBambu.Rtsp.AccessUnit
import OpenBambu.Rtsp.Fragments
import OpenBambu.Rtsp.Auth
import OpenBambu.Rtsp.AuthParams
import OpenBambu.Rtsp.Prefetch
import OpenBambu.Rtsp.Sections
import OpenBambu.Agent.Subscriptions
import OpenBambu.Agent.Versions
import OpenBambu.Agent.Firmware
import OpenBambu.Agent.FirmwareJson
import OpenBambu.Json.Fields
import OpenBambu.Agent.PatchedFields
import OpenBambu.Agent.PrintIds
import OpenBambu.Ftps.Listing
import OpenBambu.Ftps.Dates
import OpenBambu.Agent.PresetCalls
import OpenBambu.Agent.CertSnapshots
import OpenBambu.Foundation.FirstMax
import OpenBambu.Upload.ModelEntry
import OpenBambu.Print.RemoteName
import OpenBambu.Rtsp.Base64
import OpenBambu.Url.Encoding
import OpenBambu.Agent.CoverServer
import OpenBambu.Foundation.LastOf
import OpenBambu.Config.Settings
import OpenBambu.Print.AmsMapping
import OpenBambu.Json.IntegerList
import OpenBambu.Print.ProjectFile
import OpenBambu.Foundation.Dialogue
import OpenBambu.Agent.CoverWorkers
import OpenBambu.Agent.ServedCovers
import OpenBambu.Cloud.Http
import OpenBambu.FileTransfer.Handles
import OpenBambu.Print.CloudJob
import OpenBambu.Print.CloudScript
import OpenBambu.Print.CloudStages
import OpenBambu.Print.TaskBody
import OpenBambu.Rtsp.Client
import OpenBambu.Rtsp.Conversation
import OpenBambu.Rtsp.Requests
