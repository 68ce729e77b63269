import RaceSteward.Wire.Script
import RaceSteward.Message.Codec
import RaceSteward.Frame
import RaceSteward.Mailbox
import RaceSteward.StopChannel
import RaceSteward.Link.State
import RaceSteward.Json.Literal
import RaceSteward.Json.Numeral
import RaceSteward.Decimal.SingleText
import RaceSteward.Message.Json
import RaceSteward.RaceControl
import RaceSteward.Pace
import RaceSteward.Config
import RaceSteward.Console.Command
import RaceSteward.Console.Reply
import RaceSteward.Link.Connection
import RaceSteward.Link.Session
import RaceSteward.Bot
import RaceSteward.Bot.Session
import RaceSteward.RaceControl.Stream
import RaceSteward.Invocation
import RaceSteward.Main
import RaceSteward.Proofs.Message.RoundTrip
import RaceSteward.Proofs.Message.Announced
import RaceSteward.Proofs.Message.Diagnosis
import RaceSteward.Proofs.Race.Roster
import RaceSteward.Proofs.Race.Tracker
import RaceSteward.Proofs.Race.Standings
import RaceSteward.Proofs.Race.Bookkeeping
import RaceSteward.Proofs.Race.Ledger
import RaceSteward.Proofs.Frame.Split
import RaceSteward.Proofs.Frame.Conveys
import RaceSteward.Proofs.Frame.Messages
import RaceSteward.Proofs.Link.Workers
import RaceSteward.Proofs.Link.Steady
import RaceSteward.Proofs.Link.Receiver
import RaceSteward.Proofs.Link.Delivery
import RaceSteward.Proofs.Link.Outgoing
import RaceSteward.Proofs.Link.Shutdown
import RaceSteward.Proofs.Link.FatalCalls
import RaceSteward.Proofs.Message.Length
import RaceSteward.Proofs.RaceControl.Stream
import RaceSteward.Proofs.RaceControl.Races
import RaceSteward.Proofs.Bot.Chronicle
import RaceSteward.Proofs.Bot.ForcedFinish
import RaceSteward.Proofs.Mailbox.Delivery
import RaceSteward.Proofs.Mailbox.Pressure
import RaceSteward.Proofs.Link.Alarm
import RaceSteward.Proofs.RaceControl.Arming
import RaceSteward.Proofs.RaceControl.Neutral
import RaceSteward.Proofs.Bot.Parts
import RaceSteward.Proofs.Link.Lifetime
import RaceSteward.Proofs.Link.Inbound
import RaceSteward.Proofs.Bot.Routing
import RaceSteward.Proofs.RaceControl.Places
import RaceSteward.Proofs.Bot.Minutes
import RaceSteward.Proofs.Bot.Countdowns
import RaceSteward.Proofs.Bot.Starts
import RaceSteward.Proofs.Wire.Cut
import RaceSteward.Proofs.Race.Announcement
import RaceSteward.Proofs.Pace.Course
import RaceSteward.Proofs.Race.Provenance
import RaceSteward.Proofs.RaceControl.Verbatim
import RaceSteward.Proofs.Pace.Cadence
import RaceSteward.Proofs.Pace.Spacing
import RaceSteward.Proofs.Message.Room
import RaceSteward.Proofs.Console.Tokens
import RaceSteward.Proofs.Console.Grammar
import RaceSteward.Proofs.StopChannel.Handles
import RaceSteward.Proofs.StopChannel.Waits
import RaceSteward.Proofs.Json.Literals
import RaceSteward.Proofs.Json.Document
import RaceSteward.Proofs.Json.Fields
import RaceSteward.Proofs.Message.JsonText
import RaceSteward.Proofs.Wire.Replay
import RaceSteward.Proofs.Wire.Bounds
import RaceSteward.Proofs.Race.History
