import SourceMaps.Index.Display
import SourceMaps.Main
import SourceMaps.Proofs.Document.Validation
import SourceMaps.Proofs.Encode.Bounds
import SourceMaps.Proofs.Invert
import SourceMaps.Proofs.Merge
import SourceMaps.Proofs.Flattening.NegativeLines
import SourceMaps.Proofs.MappingsText.Differences
import SourceMaps.Proofs.MappingsText.Grammar
import SourceMaps.Proofs.MappingsText.Respelling
import SourceMaps.Proofs.RoundTrip.Reverse
import SourceMaps.Proofs.Vlq.Grammar
import SourceMaps.Proofs.Index.Histories
import SourceMaps.Proofs.Index.Runs
import SourceMaps.Proofs.Blob.LaidOut
import SourceMaps.Proofs.SourcePath.Designation
import SourceMaps.Proofs.CommandLine.Failures
import SourceMaps.Proofs.CommandLine.Metadata
