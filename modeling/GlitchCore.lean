import GlitchCore.Base.GoText
import GlitchCore.Base.NetAddr
import GlitchCore.Base.AddrBytes
import GlitchCore.Base.FirstMatch
import GlitchCore.Base.Fallible
import GlitchCore.Routing.Matcher
import GlitchCore.Routing.NormalForm
import GlitchCore.Routing.Tier
import GlitchCore.Routing.Specificity
import GlitchCore.Routing.Steps
import GlitchCore.Routing.TwoPlane
import GlitchCore.Routing.Policy
import GlitchCore.Xray.Rules
import GlitchCore.Xray.Router
import GlitchCore.Xray.Verdict
import GlitchCore.Xray.FinalRules
import GlitchCore.Xray.Strategy
import GlitchCore.Xray.Exclusions
import GlitchCore.Mihomo.Rules
import GlitchCore.Mihomo.Verdict
import GlitchCore.Routing.Engines
import GlitchCore.Routing.KillSwitch
import GlitchCore.Base.Interleaving
import GlitchCore.Base.Runs
import GlitchCore.Core.Session
import GlitchCore.Core.Schedule
import GlitchCore.Core.Access
import GlitchCore.Core.Generations
import GlitchCore.Core.Lifecycle
import GlitchCore.Core.FailedStart
import GlitchCore.Core.Arming
import GlitchCore.Core.Loops
import GlitchCore.Core.Bridge
import GlitchCore.Core.TunCopy
import GlitchCore.Base.GoJson
import GlitchCore.Base.Encoding
import GlitchCore.Base.Url
import GlitchCore.Base.JsonDecode
import GlitchCore.Base.JsonWrite
import GlitchCore.Base.JsonStruct
import GlitchCore.Core.ExternalIP
import GlitchCore.Base.HostPort
import GlitchCore.Routing.Dns
import GlitchCore.Xray.Dns
import GlitchCore.Base.Fields
import GlitchCore.Mihomo.Reader
import GlitchCore.Mihomo.ReadBack
import GlitchCore.Awg.Config
import GlitchCore.Awg.Compiled
import GlitchCore.Links.Share
import GlitchCore.Xray.Outbound
import GlitchCore.Xray.Refusals
import GlitchCore.Xray.Build
import GlitchCore.Xray.Mux
import GlitchCore.Base.Regex
import GlitchCore.Base.Reading
import GlitchCore.Base.Anchored
import GlitchCore.Base.Redaction
import GlitchCore.Base.GoQuote
import GlitchCore.Logfmt.Levels
import GlitchCore.Logfmt.Scrub
import GlitchCore.Logfmt.FieldPasses
import GlitchCore.Logfmt.RunPasses
import GlitchCore.Logfmt.Idempotent
import GlitchCore.Logfmt.Secrets
import GlitchCore.Core.StatusQueue
import GlitchCore.Core.StatusOrder
import GlitchCore.Core.StatusCalls
import GlitchCore.Core.IPRounds
import GlitchCore.Core.StatsLoop
import GlitchCore.Core.RejectRecord
import GlitchCore.Core.TagTraffic
import GlitchCore.Core.ProxiedTraffic
import GlitchCore.Core.ReadDeadline
import GlitchCore.Core.DeadlineRuns
import GlitchCore.Core.BridgePipe
import GlitchCore.Awg.Readers
import GlitchCore.Core.RoutingOpts
import GlitchCore.Mihomo.Proxy
import GlitchCore.Mihomo.ProxyLinks
import GlitchCore.Base.Base64
import GlitchCore.Base.Unescape
import GlitchCore.Base.Authority
import GlitchCore.Base.UrlString
import GlitchCore.Base.UrlParts
import GlitchCore.Links.Encryption
import GlitchCore.Links.Decoders
import GlitchCore.Awg.RoundTrip
import GlitchCore.Links.ServerInfo
import GlitchCore.Links.Reports
import GlitchCore.Links.ReportsSS
import GlitchCore.Links.ReportsHy2
import GlitchCore.Links.ReportsAwg
import GlitchCore.Links.Mirror
import GlitchCore.Links.Server
import GlitchCore.Links.SameServer
import GlitchCore.Mihomo.Names
import GlitchCore.Base.Utf8
import GlitchCore.Base.LineScanner
import GlitchCore.Core.ServiceEvents
import GlitchCore.Core.ServiceCommands
import GlitchCore.Core.EventHub
import GlitchCore.Pinger.Measure
import GlitchCore.Core.BridgeFlow
import GlitchCore.Core.LinkState
