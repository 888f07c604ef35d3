import CoffWorks.Bytes.Buffer
import CoffWorks.Bytes.Cursor
import CoffWorks.Command.Folder
import CoffWorks.Main
import CoffWorks.Proofs.Manifest.Reload
import CoffWorks.Proofs.Record.Fields
import CoffWorks.Proofs.Object.Acceptance
import CoffWorks.Proofs.Object.Names
import CoffWorks.Proofs.Object.SectionNumbers
import CoffWorks.Proofs.Object.Slots
import CoffWorks.Report.Inspector
import CoffWorks.Sink.Limited
import CoffWorks.Sink.MemoryFile
import CoffWorks.Sink.Seeking
import CoffWorks.Text.Template
import CoffWorks.Proofs.Sink.BufferLike
import CoffWorks.Proofs.Bytes.Slice
import CoffWorks.Proofs.Object.Delivery
import CoffWorks.Proofs.Object.Draft
import CoffWorks.Proofs.Object.Pointers
import CoffWorks.Proofs.Object.Interruption
import CoffWorks.Proofs.Image.Reading
import CoffWorks.Proofs.Image.Fidelity
import CoffWorks.Proofs.Image.Safety
import CoffWorks.Proofs.Object.Extent
import CoffWorks.Proofs.StringTable.Offsets
import CoffWorks.Proofs.Object.Freeze
import CoffWorks.Proofs.Object.Origin
import CoffWorks.Proofs.Object.CodeRelocations
import CoffWorks.Proofs.Object.CodeImage
import CoffWorks.Proofs.Manifest.Resolution
import CoffWorks.Proofs.Sink.Agreement
import CoffWorks.Proofs.Name.Fields
import CoffWorks.Proofs.Report
import CoffWorks.Proofs.Vocabulary
import CoffWorks.Proofs.StringTable.Codec
import CoffWorks.Proofs.StringTable.Partition
import CoffWorks.Proofs.Object.FilePieces
import CoffWorks.Proofs.Bytes.Bounds
import CoffWorks.Proofs.Sink.Position
import CoffWorks.Proofs.Sink.Patch
import CoffWorks.Proofs.Report.Navigation
import CoffWorks.Proofs.Bytes.Widths
import CoffWorks.Proofs.Bytes.Split
import CoffWorks.Proofs.Text.Literal
import CoffWorks.Proofs.Command.Flags
import CoffWorks.Proofs.Text.PathName
