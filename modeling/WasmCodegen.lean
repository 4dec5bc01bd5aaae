import WasmCodegen.Assembly
import WasmCodegen.Proofs.Composition
import WasmCodegen.Proofs.ErrorCauses
import WasmCodegen.Proofs.ExactFigures
import WasmCodegen.Proofs.FirstFault
import WasmCodegen.Proofs.FlatTable
import WasmCodegen.Proofs.InternalErrors
import WasmCodegen.Proofs.LateParams
import WasmCodegen.Proofs.Listings
import WasmCodegen.Proofs.LoweringSessions
import WasmCodegen.Proofs.OperatorTrees
import WasmCodegen.Proofs.Postorder
import WasmCodegen.Proofs.Recovery
import WasmCodegen.Proofs.RenamedModules
import WasmCodegen.Proofs.ScopeSessions
import WasmCodegen.Proofs.ShortestNumbers
import WasmCodegen.Proofs.Simulation
import WasmCodegen.Proofs.SingleAssignment
import WasmCodegen.Proofs.TypeSafety
import WasmCodegen.Proofs.ValidBinary
import WasmCodegen.Proofs.WellFormed
import WasmCodegen.Source.Builder
