import PageSpeed.Proof.MetadataSafety
import PageSpeed.Proof.CacheKey
import PageSpeed.Proof.Selector
import PageSpeed.Proof.AgentFetcher
import PageSpeed.Proof.WebBotAuth
import PageSpeed.Proof.PurgeGeneration
import PageSpeed.Proof.VariantWriters
import PageSpeed.Proof.ProcessedMarks
import PageSpeed.Proof.NotificationPath
import PageSpeed.Proof.WsEntitled
import PageSpeed.Proof.WsLogs
import PageSpeed.Proof.WsStats
import PageSpeed.Proof.HtmlDeferral
import PageSpeed.Proof.WsFrame
import PageSpeed.Proof.CdpClient
import PageSpeed.Proof.UrlRegistry
import PageSpeed.Proof.SubresourceGate
import PageSpeed.Proof.RestampPlan
import PageSpeed.Proof.HtmlCachePolicy
import PageSpeed.Proof.HtmlServe
import PageSpeed.Proof.CacheControlHeader
import PageSpeed.Proof.FrontMatter
import PageSpeed.Proof.SvgSanitizer
import PageSpeed.Proof.RateLimits
import PageSpeed.Proof.MarkGenerations
import PageSpeed.Proof.Dispatch
import PageSpeed.Proof.SharedConfig
import PageSpeed.Proof.ExifOrientation
import PageSpeed.Proof.HttpServer
import PageSpeed.Proof.HttpAuthorization
import PageSpeed.Proof.AnalysisQueue
import PageSpeed.Proof.BrowserCoverage
import PageSpeed.Proof.Cooldowns
import PageSpeed.Proof.RobotsAi
import PageSpeed.Proof.ValidationRecord
import PageSpeed.Proof.NoscriptDiff
import PageSpeed.Proof.EarlyHints
import PageSpeed.Proof.QueryOrder
import PageSpeed.Proof.Hostname
import PageSpeed.Proof.QuotedDirectives
import PageSpeed.Proof.SvgPreprocessor
