import BinaryLog.Builder
import BinaryLog.Catalog.Logging
import BinaryLog.Main
import BinaryLog.Routine
import BinaryLog.Source.Feed
import BinaryLog.Proofs.Decoder.Consumption
import BinaryLog.Proofs.Entry.Framing
import BinaryLog.Proofs.Entry.Reading
import BinaryLog.Proofs.Replay.Telling
import BinaryLog.Proofs.Writer.Layout
import BinaryLog.Proofs.Replay.Narration
import BinaryLog.Proofs.Text.Utf8
import BinaryLog.Proofs.Argument.Packing
import BinaryLog.Proofs.Replay.Content
import BinaryLog.Proofs.Catalog.Logging
import BinaryLog.Proofs.Replay.Rewriting
import BinaryLog.Proofs.Entry.Cutting
import BinaryLog.Proofs.Replay.Truncation
import BinaryLog.Proofs.Replay.Outage
import BinaryLog.Proofs.Replay.Insertion
import BinaryLog.Proofs.Replay.Overflow
import BinaryLog.Proofs.Replay.Accounting
import BinaryLog.Proofs.Source.Buffering
import BinaryLog.Proofs.Replay.Finality
import BinaryLog.Proofs.Entry.Locality
import BinaryLog.Proofs.Replay.Limit
import BinaryLog.Proofs.Replay.Tiling
import BinaryLog.Proofs.Replay.Salvage
import BinaryLog.Proofs.Decoder.Failure
import BinaryLog.Proofs.Argument.Unpacking
import BinaryLog.Proofs.Replay.Causes
import BinaryLog.Proofs.Replay.Rate
import BinaryLog.Proofs.Replay.Calibration
import BinaryLog.Proofs.Replay.Driving
import BinaryLog.Proofs.CommandLine.Reporting
import BinaryLog.Proofs.Text.Validity
import BinaryLog.Proofs.Argument.Sections
import BinaryLog.Proofs.Argument.Delimiting
import BinaryLog.Proofs.Argument.Roundtrip
import BinaryLog.Proofs.Entry.Acceptance
import BinaryLog.Proofs.Template.Grammar
import BinaryLog.Proofs.Template.Reading
import BinaryLog.Proofs.Template.Recognition
import BinaryLog.Proofs.Text.Numeral
import BinaryLog.Proofs.Template.Printing
import BinaryLog.Proofs.Argument.Integer
import BinaryLog.Proofs.Text.Scanning
import BinaryLog.Proofs.Text.Decimal
import BinaryLog.Proofs.Binary64.Rounding
import BinaryLog.Proofs.Argument.Float
import BinaryLog.Proofs.Argument.Filling
import BinaryLog.Proofs.Catalog.Loading
import BinaryLog.Proofs.Replay.Origins
import BinaryLog.Proofs.Text.Boundary
import BinaryLog.Proofs.Argument.Text
import BinaryLog.Proofs.Argument.Checking
import BinaryLog.Proofs.Writer.Building
