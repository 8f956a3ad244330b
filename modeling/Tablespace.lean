import Tablespace.CommandLine
import Tablespace.Heap.Scan
import Tablespace.Index.Scan
import Tablespace.Main
import Tablespace.Volume
import Tablespace.Proofs.Page.Directory
import Tablespace.Proofs.Page.Shift
import Tablespace.Proofs.Page.Tiling
import Tablespace.Proofs.Page.Sheet
import Tablespace.Proofs.Page.Stretch
import Tablespace.Proofs.Page.Edits
import Tablespace.Proofs.Page.Refusals
import Tablespace.Proofs.Page.Reachable
import Tablespace.Proofs.Page.Checked
import Tablespace.Proofs.Page.Layout
import Tablespace.Proofs.Page.Opened
import Tablespace.Proofs.Page.Crossing
import Tablespace.Proofs.Heap.Opened
import Tablespace.Proofs.Heap.Pages
import Tablespace.Proofs.Heap.Cells
import Tablespace.Proofs.Heap.Operations
import Tablespace.Proofs.Record.Bitmap
import Tablespace.Proofs.Record.RoundTrip
import Tablespace.Proofs.Record.Layout
import Tablespace.Proofs.Record.Offsets
import Tablespace.Proofs.Record.Grammar
import Tablespace.Proofs.Record.Reading
import Tablespace.Proofs.Record.Values
import Tablespace.Proofs.Record.Fields
import Tablespace.Proofs.Record.Projection
import Tablespace.Proofs.Heap.Ledger
import Tablespace.Proofs.Heap.Reachable
import Tablespace.Proofs.Heap.Hops
import Tablespace.Proofs.Heap.Placing
import Tablespace.Proofs.Heap.Query
import Tablespace.Proofs.Heap.Attribute
import Tablespace.Proofs.Heap.Scan
import Tablespace.Proofs.Heap.Atomic
import Tablespace.Proofs.Heap.Failures
import Tablespace.Proofs.Index.Halving
import Tablespace.Proofs.Index.Order
import Tablespace.Proofs.Index.Sizes
import Tablespace.Proofs.Index.Weave
import Tablespace.Proofs.Index.Leaf
import Tablespace.Proofs.Index.Internal
import Tablespace.Proofs.Index.NodePage
import Tablespace.Proofs.Index.NodeFormat
import Tablespace.Proofs.Index.Nodes
import Tablespace.Proofs.Index.Tree
import Tablespace.Proofs.Index.Descent
import Tablespace.Proofs.Index.Separator
import Tablespace.Proofs.Index.Climb
import Tablespace.Proofs.Index.Chain
import Tablespace.Proofs.Index.Stands
import Tablespace.Proofs.Index.Insert
import Tablespace.Proofs.Index.Delete
import Tablespace.Proofs.Index.Scan
import Tablespace.Proofs.Volume.Created
import Tablespace.Proofs.Index.Reachable
import Tablespace.Proofs.Index.Range
import Tablespace.Proofs.Index.Paths
import Tablespace.Proofs.Index.Shape
import Tablespace.Proofs.Index.Parting
import Tablespace.Proofs.Index.Fences
import Tablespace.Proofs.Index.Bracket
import Tablespace.Proofs.Index.Layers
import Tablespace.Proofs.Index.Reads
import Tablespace.Proofs.Index.Bounded
import Tablespace.Proofs.File.Calls
import Tablespace.Proofs.Text.Lossy
import Tablespace.Proofs.Index.Label
import Tablespace.Proofs.Index.Outline
import Tablespace.Proofs.Volume.Shared
import Tablespace.Proofs.Page.Steady
