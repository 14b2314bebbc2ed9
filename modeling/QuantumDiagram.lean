import QuantumDiagram.Main
import QuantumDiagram.Proofs.Channel.Numbering
import QuantumDiagram.Proofs.Circuit.Consistency
import QuantumDiagram.Proofs.Circuit.Density
import QuantumDiagram.Proofs.Circuit.Labels
import QuantumDiagram.Proofs.Circuit.SubroutineHeaders
import QuantumDiagram.Proofs.Layout.Brackets
import QuantumDiagram.Proofs.Layout.Centers
import QuantumDiagram.Proofs.Layout.Correspondence
import QuantumDiagram.Proofs.Layout.Enlarging
import QuantumDiagram.Proofs.Layout.Filling
import QuantumDiagram.Proofs.Layout.Fitting
import QuantumDiagram.Proofs.Layout.Placement
import QuantumDiagram.Proofs.Layout.Wires
import QuantumDiagram.Proofs.Program.BareMeasure
import QuantumDiagram.Proofs.Program.Blame
import QuantumDiagram.Proofs.Program.Braces
import QuantumDiagram.Proofs.Program.Directives
import QuantumDiagram.Proofs.Program.Growth
import QuantumDiagram.Proofs.Program.Iterations
import QuantumDiagram.Proofs.Program.LineByLine
import QuantumDiagram.Proofs.Program.LineEnds
import QuantumDiagram.Proofs.Program.ParallelLine
import QuantumDiagram.Proofs.Program.Permutation
import QuantumDiagram.Proofs.Program.TakenSite
import QuantumDiagram.Proofs.Report.Header
import QuantumDiagram.Proofs.Statement.Grammar
import QuantumDiagram.Proofs.Svg.Escaping
import QuantumDiagram.Proofs.Svg.Extent
import QuantumDiagram.Proofs.Svg.Inventory
import QuantumDiagram.Proofs.Svg.PaintOrder
import QuantumDiagram.Proofs.Svg.Pieces
import QuantumDiagram.Proofs.Svg.StyleRules
import QuantumDiagram.Proofs.Svg.WellFormed
