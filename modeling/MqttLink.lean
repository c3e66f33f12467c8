import MqttLink.Qos
import MqttLink.PacketId.Drill
import MqttLink.Topic
import MqttLink.Payload
import MqttLink.Text.Blank
import MqttLink.Text.Quoted
import MqttLink.Text.Shortened
import MqttLink.Duration.Printer
import MqttLink.Duration.Reader
import MqttLink.Decimal.Style
import MqttLink.Json.Number
import MqttLink.Json.Skip
import MqttLink.Settings.Printer
import MqttLink.Settings.Reader
import MqttLink.Ledger
import MqttLink.Client
import MqttLink.Session.Perform
import MqttLink.Report.Steps
import MqttLink.Report.Checks
import MqttLink.Proofs.Once
import MqttLink.Proofs.Interleaving
import MqttLink.Proofs.Exchange
import MqttLink.Proofs.Loans
import MqttLink.Proofs.Canonical
import MqttLink.Proofs.Turns
import MqttLink.Proofs.Leftover
import MqttLink.Proofs.EarlyCompletion
import MqttLink.Proofs.Apartness
import MqttLink.Proofs.Isolation
import MqttLink.Proofs.NetworkLoop
import MqttLink.Proofs.Literals
import MqttLink.Proofs.Spans
import MqttLink.Proofs.WrittenSettings
import MqttLink.Proofs.Holding
import MqttLink.Proofs.Stages
import MqttLink.Proofs.Independence
import MqttLink.Proofs.Likeness
import MqttLink.Proofs.Lockstep
import MqttLink.Proofs.LikeRuns
import MqttLink.Proofs.Outcomes
import MqttLink.Proofs.Secrets
import MqttLink.Proofs.Silence
import MqttLink.Proofs.Routing
import MqttLink.Proofs.TopicGrammar
import MqttLink.Proofs.Unread
import MqttLink.Proofs.EitherOrder
import MqttLink.Proofs.Refusals
import MqttLink.Proofs.FailedConnect
import MqttLink.Proofs.Spending
import MqttLink.Proofs.Accounting
import MqttLink.Proofs.Disconnecting
import MqttLink.Proofs.ObjectTexts
