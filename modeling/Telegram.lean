import Telegram.Checksum.Crc16
import Telegram.Checksum.Sums
import Telegram.BitField
import Telegram.Frame.Reader
import Telegram.Codec.Write
import Telegram.Message
import Telegram.CommandLine.Run
import Telegram.Main
import Telegram.Proofs.Frame.Exhaust
import Telegram.Proofs.Frame.Chunks
import Telegram.Proofs.Frame.Kept
import Telegram.Proofs.Frame.Pieces
import Telegram.Proofs.Frame.Reader
import Telegram.Proofs.Frame.Whole
import Telegram.Proofs.Frame.Attainable
import Telegram.Proofs.Frame.Bounded
import Telegram.Proofs.Frame.Session
import Telegram.Proofs.Frame.Discard
import Telegram.Proofs.Frame.FailFast
import Telegram.Proofs.Frame.Drain
import Telegram.Proofs.Frame.Retry
import Telegram.Proofs.Frame.Machine
import Telegram.Proofs.Frame.Faultless
import Telegram.Proofs.Registry.Plan
import Telegram.Proofs.Registry.Spared
import Telegram.Proofs.Registry.Sound
import Telegram.Proofs.Registry.Underway
import Telegram.Proofs.Registry.Resolve
import Telegram.Proofs.Registry.Reach
import Telegram.Proofs.Registry.Pruned
import Telegram.Proofs.Codec.Direct
import Telegram.Proofs.Codec.Refinement
import Telegram.Proofs.Codec.History
import Telegram.Proofs.Codec.Dangling
import Telegram.Proofs.Codec.Closed
import Telegram.Proofs.Codec.Total
import Telegram.Proofs.Codec.Occupancy
import Telegram.Proofs.Codec.Complete
import Telegram.Proofs.Codec.Reserved
import Telegram.Proofs.Text.Boundary
import Telegram.Proofs.Text.Hex
import Telegram.Proofs.Scalar.Text
import Telegram.Proofs.Scalar.Padding
import Telegram.Proofs.Scalar.Rule
import Telegram.Proofs.Scalar.Width
import Telegram.Proofs.Scalar.Bcd
import Telegram.Proofs.Text.Numeral
import Telegram.Proofs.Decimal.Literal
import Telegram.Proofs.Decimal.Int128
import Telegram.Proofs.Decimal.Exact
import Telegram.Proofs.Decimal.Scaled
import Telegram.Proofs.Checksum.Crc16
import Telegram.Proofs.Checksum.Words
import Telegram.Proofs.Checksum.SignedSum
import Telegram.Proofs.BitField
import Telegram.Proofs.Codec.Fits
import Telegram.Proofs.Codec.RoundTrip
import Telegram.Proofs.Codec.Fuel
import Telegram.Proofs.Codec.Hostile
import Telegram.Proofs.Codec.Watched
import Telegram.Proofs.Codec.Registration
import Telegram.Proofs.Codec.Truncated
import Telegram.Proofs.Codec.Size
import Telegram.Proofs.Codec.Pruned
import Telegram.Proofs.Codec.Settles
import Telegram.Proofs.Codec.Family
import Telegram.Proofs.Codec.PassedOver
import Telegram.Proofs.Codec.Absent
import Telegram.Proofs.Codec.Cutoff
import Telegram.Proofs.Codec.Nesting
import Telegram.Proofs.Codec.Unclaimed
import Telegram.Proofs.Codec.Factories
import Telegram.Proofs.Codec.Dispatch
import Telegram.Proofs.Codec.Growth
import Telegram.Proofs.Message
import Telegram.Proofs.EndOfStream
import Telegram.Proofs.CommandLine.Split
import Telegram.Proofs.CommandLine.HexInput
