import LocalHttp.Bench.Conversation
import LocalHttp.Bench.Handlers
import LocalHttp.Bench.NamedSockets
import LocalHttp.Bench.Session
import LocalHttp.Bench.Site
import LocalHttp.Binary64.Literal
import LocalHttp.Feed
import LocalHttp.Main
import LocalHttp.Proofs.Agreement
import LocalHttp.Proofs.Answers
import LocalHttp.Proofs.BodyLength
import LocalHttp.Proofs.Chunks
import LocalHttp.Proofs.Closing
import LocalHttp.Proofs.Commands
import LocalHttp.Proofs.CoolerApi
import LocalHttp.Proofs.CoolerUse
import LocalHttp.Proofs.Cursors
import LocalHttp.Proofs.Decimals
import LocalHttp.Proofs.Decoration
import LocalHttp.Proofs.Delivery
import LocalHttp.Proofs.FanCurve
import LocalHttp.Proofs.Fields
import LocalHttp.Proofs.FirstWins
import LocalHttp.Proofs.Grammar
import LocalHttp.Proofs.Independence
import LocalHttp.Proofs.Leftovers
import LocalHttp.Proofs.Lifecycle
import LocalHttp.Proofs.Lines
import LocalHttp.Proofs.Lockout
import LocalHttp.Proofs.Losses
import LocalHttp.Proofs.NumberText
import LocalHttp.Proofs.Numeral
import LocalHttp.Proofs.Offers
import LocalHttp.Proofs.QueryText
import LocalHttp.Proofs.Records
import LocalHttp.Proofs.Reencoding
import LocalHttp.Proofs.Registrations
import LocalHttp.Proofs.RequestGrammar
import LocalHttp.Proofs.Resumption
import LocalHttp.Proofs.Room
import LocalHttp.Proofs.Round
import LocalHttp.Proofs.RoundTrip
import LocalHttp.Proofs.Rounding
import LocalHttp.Proofs.Routing
import LocalHttp.Proofs.Seeking
import LocalHttp.Proofs.Settings
import LocalHttp.Proofs.SettingsText
import LocalHttp.Proofs.Shutdown
import LocalHttp.Proofs.Stalls
import LocalHttp.Proofs.Stops
import LocalHttp.Proofs.Target
import LocalHttp.Proofs.TargetText
import LocalHttp.Proofs.TextOrder
import LocalHttp.Proofs.Utf8
import LocalHttp.Proofs.ValueText
