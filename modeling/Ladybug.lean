import Ladybug.Main
import Ladybug.Flowchart.Printer
import Ladybug.Proofs.Forest
import Ladybug.Proofs.Links
import Ladybug.Proofs.Walk
import Ladybug.Proofs.Sound
import Ladybug.Proofs.Reachable
import Ladybug.Proofs.OneAction
import Ladybug.Proofs.OnePass
import Ladybug.Proofs.Play
import Ladybug.Proofs.Resuming
import Ladybug.Proofs.Text
import Ladybug.Proofs.PairLists
import Ladybug.Proofs.Patterns
import Ladybug.Proofs.Meanings
import Ladybug.Proofs.Brackets
import Ladybug.Proofs.WrittenLines
import Ladybug.Proofs.Outline
import Ladybug.Proofs.WrittenOrder
import Ladybug.Proofs.Legible
import Ladybug.Proofs.Tokens
import Ladybug.Proofs.RoundTrip
import Ladybug.Proofs.EdgeLines
import Ladybug.Proofs.Language
import Ladybug.Proofs.Drawing
import Ladybug.Proofs.Accepting
import Ladybug.Proofs.Leading
import Ladybug.Proofs.Jumping
import Ladybug.Proofs.GameRuns
import Ladybug.Proofs.SmallGrids
import Ladybug.Proofs.Spawns
import Ladybug.Proofs.Boards
import Ladybug.Proofs.Settled
import Ladybug.Proofs.Frames
import Ladybug.Proofs.Refusals
import Ladybug.Proofs.Histories
import Ladybug.Proofs.Rounds
import Ladybug.Proofs.Reloading
import Ladybug.Proofs.Binding
import Ladybug.Proofs.Renumbering
import Ladybug.Proofs.Transcripts
import Ladybug.Proofs.Rereading
import Ladybug.Proofs.Plays
import Ladybug.Proofs.Stock
import Ladybug.Proofs.Printing
import Ladybug.Proofs.Commands
import Ladybug.Proofs.Closing
import Ladybug.Proofs.Arguments
import Ladybug.Proofs.Preloading
import Ladybug.Proofs.Searches
import Ladybug.Proofs.LastRecords
import Ladybug.Proofs.Halting
import Ladybug.Proofs.Announcing
import Ladybug.Proofs.Progress
import Ladybug.Proofs.Effects
import Ladybug.Proofs.Insertion
import Ladybug.Proofs.Joining
import Ladybug.Proofs.Reaching
import Ladybug.Proofs.Building
import Ladybug.Proofs.StackLoops
import Ladybug.Proofs.FailingFast
import Ladybug.Proofs.Classifying
import Ladybug.Proofs.Respacing
import Ladybug.Proofs.TypedNodes
import Ladybug.Proofs.Bystanders
import Ladybug.Proofs.Matrix
import Ladybug.Proofs.Checked.Game
