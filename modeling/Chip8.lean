import Chip8.Main
import Chip8.Proofs.CommandLine
import Chip8.Proofs.Commuting
import Chip8.Proofs.Decoding
import Chip8.Proofs.Drawing
import Chip8.Proofs.Edges
import Chip8.Proofs.Flags
import Chip8.Proofs.Flat.Pictures
import Chip8.Proofs.Flat.Room
import Chip8.Proofs.Footprint.Cells
import Chip8.Proofs.Listed
import Chip8.Proofs.Loading
import Chip8.Proofs.MissingBytes
import Chip8.Proofs.Pace.Windows
import Chip8.Proofs.Pressing
import Chip8.Proofs.Refusal
import Chip8.Proofs.Session.Announcing
import Chip8.Proofs.Session.Showing
import Chip8.Proofs.Session.Taps
import Chip8.Proofs.Strokes
import Chip8.Proofs.Subroutines
import Chip8.Proofs.Timers
import Chip8.Proofs.Transfer
import Chip8.Proofs.Waiting.Spinning
