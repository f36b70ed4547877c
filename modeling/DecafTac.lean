import DecafTac.Compile
import DecafTac.Proofs.Source.Forest
import DecafTac.Source.Outline
import DecafTac.Proofs.Storage.Members
import DecafTac.Proofs.Storage.Inheritance
import DecafTac.Proofs.Lower.Accounting
import DecafTac.Proofs.Lower.Frames
import DecafTac.Proofs.Lower.Scoping
import DecafTac.Proofs.Source.Semantics
import DecafTac.Proofs.Lower.Evaluation
import DecafTac.Proofs.Lower.Simulation
import DecafTac.Proofs.Lower.Statements
import DecafTac.Proofs.Lower.Refinement
import DecafTac.Proofs.Scope.Opening
import DecafTac.Proofs.Scope.Linking
import DecafTac.Proofs.Scope.Checking
import DecafTac.Proofs.Scope.Overriding
import DecafTac.Proofs.Tac.Form
import DecafTac.Proofs.Lower.Form
import DecafTac.Proofs.Lower.Parts
import DecafTac.Proofs.Lower.Jumps
import DecafTac.Proofs.Lower.Calls
import DecafTac.Proofs.Scope.Visibility
import DecafTac.Proofs.Scope.Nesting
import DecafTac.Proofs.Scope.Meaning
import DecafTac.Proofs.Scope.Supertypes
import DecafTac.Proofs.Storage.TopLevel
import DecafTac.Proofs.Lower.Closure
import DecafTac.Proofs.Source.Order
import DecafTac.Proofs.Tac.Calling
import DecafTac.Proofs.Lower.Operands
import DecafTac.Proofs.Scope.Faults
import DecafTac.Proofs.Storage.Cycles
import DecafTac.Proofs.Storage.Reordering
import DecafTac.Proofs.Storage.Types
import DecafTac.Proofs.Lower.Bracketing
import DecafTac.Proofs.Storage.Collisions
import DecafTac.Proofs.Lower.Renumbering
import DecafTac.Proofs.Lower.Independence
import DecafTac.Proofs.Scope.References
import DecafTac.Proofs.Lower.Sites
import DecafTac.Proofs.Scope.Mismatches
import DecafTac.Proofs.Lower.Acceptance
import DecafTac.Proofs.Scope.Compatibility
import DecafTac.Proofs.Lower.Blocks
import DecafTac.Proofs.Lower.Restoring
import DecafTac.Proofs.Tac.Assignment
import DecafTac.Proofs.Lower.Assignment
import DecafTac.Proofs.Storage.Slots
import DecafTac.Proofs.Source.Links
import DecafTac.Proofs.Tac.Memory
import DecafTac.Proofs.Lower.Arrays
import DecafTac.Proofs.Lower.ArrayLaw
import DecafTac.Proofs.Scope.Walks
import DecafTac.Proofs.Source.Knots
import DecafTac.Proofs.Text.Quoting
import DecafTac.Proofs.Tac.Lines
import DecafTac.Proofs.Source.Spans
import DecafTac.Proofs.Lower.Variables
