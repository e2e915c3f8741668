import ChordScript.Program
import ChordScript.Proofs.Cancellation
import ChordScript.Proofs.Counters
import ChordScript.Proofs.Definitions
import ChordScript.Proofs.Endings
import ChordScript.Proofs.HeldKeys
import ChordScript.Proofs.Inlining
import ChordScript.Proofs.Integers
import ChordScript.Proofs.LineEndings
import ChordScript.Proofs.Listing
import ChordScript.Proofs.Melodies
import ChordScript.Proofs.Records
import ChordScript.Proofs.Reports
import ChordScript.Proofs.Settings
import ChordScript.Proofs.Shift
import ChordScript.Proofs.Tacit
import ChordScript.Proofs.TagPlaces
import ChordScript.Proofs.Truncation
import ChordScript.Proofs.Unrolling
