import PenPlot.Decimal.Exact
import PenPlot.Decimal.Rounding
import PenPlot.Decimal.Shortest
import PenPlot.Decimal.Text
import PenPlot.Fault
import PenPlot.Geometry.Affine
import PenPlot.Geometry.Arc
import PenPlot.Geometry.Curve
import PenPlot.Geometry.Display
import PenPlot.Geometry.Point
import PenPlot.Geometry.TransformList
import PenPlot.Geometry.Window
import PenPlot.Markup.Attribute
import PenPlot.Markup.Element
import PenPlot.Markup.Kind
import PenPlot.Markup.Search
import PenPlot.Markup.Source
import PenPlot.Markup.Tag
import PenPlot.Number.Length
import PenPlot.Number.List
import PenPlot.Number.Literal
import PenPlot.Path.Instruction
import PenPlot.Path.Segment
import PenPlot.Plot.CommandFile
import PenPlot.Plot.Pass
import PenPlot.Plot.Pen
import PenPlot.Plot.Tally
import PenPlot.Plot.Trace
import PenPlot.Plot.TraceFile
import PenPlot.Plot.Tracker
import PenPlot.Plot.Walk
import PenPlot.Preview.Bitmap
import PenPlot.Preview.Color
import PenPlot.Preview.Frame
import PenPlot.Preview.Hairline
import PenPlot.Preview.Line
import PenPlot.Preview.Mark
import PenPlot.Preview.Picture
import PenPlot.Preview.Pixel
import PenPlot.Preview.Stroke
import PenPlot.Scalar
import PenPlot.Scalar.Machine
import PenPlot.Session
import PenPlot.Settings
import PenPlot.Shape.Drawing
import PenPlot.Shape.Flatten
import PenPlot.Shape.Outline
import PenPlot.Shape.Reading
import PenPlot.Shape.Window
import PenPlot.Text.Blank
import PenPlot.Text.Glyph
import PenPlot.Text.JsonReading
import PenPlot.Text.JsonString
import PenPlot.Text.Quotation
import PenPlot.Text.Quoted
import PenPlot.Text.Utf8
import PenPlot.Proofs.Tracking
import PenPlot.Proofs.Leading
import PenPlot.Proofs.Drawing
import PenPlot.Proofs.Route
import PenPlot.Proofs.Walking
import PenPlot.Proofs.Commands
import PenPlot.Proofs.Concatenation
import PenPlot.Proofs.Forest
import PenPlot.Proofs.Printing
import PenPlot.Proofs.Trees
import PenPlot.Proofs.Taking
import PenPlot.Proofs.Steps
import PenPlot.Proofs.Explicit
import PenPlot.Proofs.Spacing
import PenPlot.Proofs.Folding
import PenPlot.Proofs.Arguments
import PenPlot.Proofs.NumberLists
import PenPlot.Proofs.PathGrammar
import PenPlot.Proofs.Clipping
import PenPlot.Proofs.Comments
import PenPlot.Proofs.Balance
import PenPlot.Proofs.Pieces
import PenPlot.Proofs.Chaining
import PenPlot.Proofs.Exact
import PenPlot.Proofs.Mapping
import PenPlot.Proofs.Turning
import PenPlot.Proofs.Chords
import PenPlot.Proofs.Arcs
import PenPlot.Proofs.Slices
import PenPlot.Proofs.Seeking
import PenPlot.Proofs.Cutting
import PenPlot.Proofs.Lookup
import PenPlot.Proofs.Prefixes
import PenPlot.Proofs.Cursors
import PenPlot.Proofs.PathCutting
import PenPlot.Proofs.InRange
import PenPlot.Proofs.Repetition
import PenPlot.Proofs.Unbroken
import PenPlot.Proofs.Blame
import PenPlot.Proofs.Tracing
import PenPlot.Proofs.Resuming
import PenPlot.Proofs.Outside
import PenPlot.Proofs.Matching
import PenPlot.Proofs.TransformGrammar
import PenPlot.Proofs.Assignments
import PenPlot.Proofs.AttributeTexts
import PenPlot.Proofs.Lengths
import PenPlot.Proofs.Letters
import PenPlot.Proofs.Counting
import PenPlot.Proofs.Subdivision
import PenPlot.Proofs.ClosedShapes
import PenPlot.Proofs.Products
import PenPlot.Proofs.Fitting
import PenPlot.Proofs.Refusals
import PenPlot.Proofs.Tips
import PenPlot.Proofs.LiteralBytes
import PenPlot.Proofs.GroupLoops
import PenPlot.Proofs.Hues
import PenPlot.Proofs.JsonTexts
import PenPlot.Proofs.Magnitudes
import PenPlot.Proofs.TraceFiles
