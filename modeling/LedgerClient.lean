import LedgerClient.Address
import LedgerClient.Choice
import LedgerClient.Client.Basic
import LedgerClient.Client.Call
import LedgerClient.Client.Config
import LedgerClient.Client.Endpoint
import LedgerClient.Client.Error
import LedgerClient.Client.Exchange
import LedgerClient.Client.Filter
import LedgerClient.Client.Redirects
import LedgerClient.Client.Service
import LedgerClient.Demo.NodeStatus
import LedgerClient.Demo.RecentPayments
import LedgerClient.Demo.Session
import LedgerClient.Dictionary
import LedgerClient.Http.Header
import LedgerClient.Http.Message
import LedgerClient.Http.Status
import LedgerClient.Indexer.Calls
import LedgerClient.Indexer.Route
import LedgerClient.Json.Basic
import LedgerClient.Json.Fault
import LedgerClient.Json.Parser
import LedgerClient.Json.Printer
import LedgerClient.Json.Reader
import LedgerClient.Json.Scalar
import LedgerClient.Model.Account
import LedgerClient.Model.Application
import LedgerClient.Model.Asset
import LedgerClient.Model.Block
import LedgerClient.Model.Catalogue
import LedgerClient.Model.Dryrun
import LedgerClient.Model.Search
import LedgerClient.Model.Signature
import LedgerClient.Model.State
import LedgerClient.Model.Status
import LedgerClient.Model.Transaction
import LedgerClient.Node.Calls
import LedgerClient.Node.Route
import LedgerClient.Number.Binary64
import LedgerClient.Number.Shortest
import LedgerClient.Octets.Base32
import LedgerClient.Octets.Base64
import LedgerClient.Octets.Bits
import LedgerClient.Octets.Sha512
import LedgerClient.Proofs.AddressText
import LedgerClient.Proofs.Amounts
import LedgerClient.Proofs.Answers
import LedgerClient.Proofs.Base32Reading
import LedgerClient.Proofs.Base64Fields
import LedgerClient.Proofs.Base64Reading
import LedgerClient.Proofs.BaseAddresses
import LedgerClient.Proofs.BitGroups
import LedgerClient.Proofs.CalendarDays
import LedgerClient.Proofs.CallAddress
import LedgerClient.Proofs.Catalogue
import LedgerClient.Proofs.ClientHeaders
import LedgerClient.Proofs.DecodingAgreement
import LedgerClient.Proofs.Escapes
import LedgerClient.Proofs.Failures
import LedgerClient.Proofs.FilterQueries
import LedgerClient.Proofs.FormReading
import LedgerClient.Proofs.HeaderFields
import LedgerClient.Proofs.HeaderSpellings
import LedgerClient.Proofs.Journeys
import LedgerClient.Proofs.JsonGrammar
import LedgerClient.Proofs.ListReading
import LedgerClient.Proofs.LongBases
import LedgerClient.Proofs.NodeStatusRun
import LedgerClient.Proofs.NotePrefixes
import LedgerClient.Proofs.Numerals
import LedgerClient.Proofs.ObjectQueries
import LedgerClient.Proofs.ObjectReading
import LedgerClient.Proofs.PassedTexts
import LedgerClient.Proofs.PathEntries
import LedgerClient.Proofs.PaymentPages
import LedgerClient.Proofs.PaymentTotals
import LedgerClient.Proofs.PlainCalls
import LedgerClient.Proofs.Preflight
import LedgerClient.Proofs.PrintedValues
import LedgerClient.Proofs.ReadValues
import LedgerClient.Proofs.ReaderLocality
import LedgerClient.Proofs.Recognition
import LedgerClient.Proofs.RecordForms
import LedgerClient.Proofs.RecordLocality
import LedgerClient.Proofs.RecordReading
import LedgerClient.Proofs.RecordRecognition
import LedgerClient.Proofs.RecordValues
import LedgerClient.Proofs.RecordWriting
import LedgerClient.Proofs.Redirects
import LedgerClient.Proofs.RefusalMessages
import LedgerClient.Proofs.Refusals
import LedgerClient.Proofs.RequestHeaders
import LedgerClient.Proofs.RequestSafety
import LedgerClient.Proofs.RoundTrip
import LedgerClient.Proofs.RouteSeparation
import LedgerClient.Proofs.ScalarRecognition
import LedgerClient.Proofs.Scripts
import LedgerClient.Proofs.Sending
import LedgerClient.Proofs.SettingsReading
import LedgerClient.Proofs.Skipping
import LedgerClient.Proofs.StringReading
import LedgerClient.Proofs.Tables
import LedgerClient.Proofs.TextParts
import LedgerClient.Proofs.TimeText
import LedgerClient.Proofs.TokenSecrecy
import LedgerClient.Proofs.TolerantDecoding
import LedgerClient.Proofs.TypeRecognition
import LedgerClient.Proofs.TypedAddresses
import LedgerClient.Proofs.UrlPath
import LedgerClient.Proofs.Utf8Reading
import LedgerClient.Proofs.ValueLocality
import LedgerClient.Proofs.ValueReading
import LedgerClient.Query
import LedgerClient.Record.Codec
import LedgerClient.Record.Model
import LedgerClient.Text.Blank
import LedgerClient.Text.Form
import LedgerClient.Text.Hidden
import LedgerClient.Text.Percent
import LedgerClient.Text.Quoted
import LedgerClient.Text.Split
import LedgerClient.Text.Utf8
import LedgerClient.Time.Calendar
import LedgerClient.Time.Duration
import LedgerClient.Time.Instant
import LedgerClient.Url.Basic
import LedgerClient.Url.Escape
import LedgerClient.Url.Host
import LedgerClient.Url.Parser
import LedgerClient.Url.Path
