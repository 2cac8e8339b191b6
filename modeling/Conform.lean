import Conform.Model
import Conform.Outcome
import Conform.Proofs.Diagnosis
import Conform.Proofs.Faults
import Conform.Proofs.Meaning
import Conform.Proofs.RoundTrip
import Conform.Proofs.TypeSoundness
import Conform.Session
import Conform.Shape.Refinement
import Conform.TypeExpr.Pipe
import Conform.Proofs.Returning
import Conform.Proofs.Cloning
import Conform.Proofs.Fidelity
import Conform.Proofs.Decoded
import Conform.Proofs.Parsed
import Conform.Proofs.Absence
import Conform.Proofs.OneLine
import Conform.Proofs.Trace
import Conform.Proofs.Containers
import Conform.Proofs.Serialising
import Conform.Proofs.ClosedStructs
import Conform.Proofs.Exported
import Conform.Proofs.Order
import Conform.Proofs.Alternatives
import Conform.Proofs.Merging
import Conform.Proofs.DecodedKinds
import Conform.Proofs.LiteralTexts
import Conform.Proofs.Stripping
import Conform.Proofs.Leniency
import Conform.Proofs.Listing
import Conform.Proofs.Fallback
