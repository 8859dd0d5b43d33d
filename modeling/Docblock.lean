import Docblock.Parse
import Docblock.Proofs.Document.LineTags
import Docblock.Proofs.ErrorPositions
import Docblock.Proofs.Lossless
import Docblock.Proofs.SavePoints
import Docblock.Proofs.TypeExpr.Acceptance
import Docblock.Proofs.TypeExpr.RoundTrip
import Docblock.Proofs.Document.Sameness
import Docblock.Proofs.Agreement
import Docblock.Proofs.PositionTracking
import Docblock.Proofs.Locality
import Docblock.Proofs.Document.TrailingText
import Docblock.Proofs.Document.LineReading
import Docblock.Proofs.Document.LineScanning
import Docblock.Proofs.Document.FreeText
import Docblock.Proofs.TagValue.Printing
import Docblock.Proofs.TagValue.Methods
import Docblock.Proofs.Document.TagRoundTrip
import Docblock.Proofs.ConstExpr.RoundTrip
import Docblock.Proofs.Trail
import Docblock.Proofs.Enclosure
import Docblock.Proofs.Spacing
import Docblock.Proofs.TypeExpr.OneLine
import Docblock.Proofs.TagValue.Degrading
import Docblock.Proofs.LenientReading
import Docblock.Proofs.Progress
import Docblock.Proofs.CloseMarkers
import Docblock.Proofs.Document.Acceptance
import Docblock.Proofs.Backtracking
import Docblock.Proofs.TypeExpr.WellFormed
import Docblock.Proofs.TextCapture
import Docblock.Proofs.Ampersands
import Docblock.Proofs.Document.RoundTrip
