import Flowline.Chat.Reader
import Flowline.Chat.Session
import Flowline.Config.Basic
import Flowline.Document.Samples
import Flowline.Event.Bus
import Flowline.Event.Channel
import Flowline.Files.Loader
import Flowline.Graph.Walk
import Flowline.Run.Script
import Flowline.RunId
import Flowline.Store
import Flowline.Tools.Service
import Flowline.Command.Arguments
import Flowline.Command.Outcome
import Flowline.Command.Usage
import Flowline.Main
import Flowline.Proofs.Route
import Flowline.Proofs.Substitution
import Flowline.Proofs.Closing
import Flowline.Proofs.Replay
import Flowline.Proofs.Reading
import Flowline.Proofs.Accumulation
import Flowline.Proofs.Encoding
import Flowline.Proofs.Conversation
import Flowline.Proofs.Placeholders
import Flowline.Proofs.OffPath
import Flowline.Proofs.Validation
import Flowline.Proofs.Stream
import Flowline.Proofs.Questions
import Flowline.Proofs.Teardown
import Flowline.Proofs.Isolation
import Flowline.Proofs.RoundTrip
import Flowline.Proofs.ByValue
import Flowline.Proofs.Inputs
import Flowline.Proofs.FinalOutput
import Flowline.Proofs.Publication
import Flowline.Proofs.Speaking
import Flowline.Proofs.Recording
import Flowline.Proofs.Asking
import Flowline.Proofs.SignedRequest
import Flowline.Proofs.Expansion
import Flowline.Proofs.Directory
import Flowline.Proofs.SignedText
import Flowline.Proofs.WholeNumbers
