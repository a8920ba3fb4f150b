import SqlMarkers.Lexeme.Form
import SqlMarkers.Tally
import SqlMarkers.Tree.Render
import SqlMarkers.Proofs.Layout
import SqlMarkers.Proofs.Nested
import SqlMarkers.Proofs.Trail
import SqlMarkers.Proofs.Trail.Clause
import SqlMarkers.Proofs.Trail.Statement
import SqlMarkers.Proofs.Calls
import SqlMarkers.Proofs.Casing
import SqlMarkers.Proofs.Catalogues
import SqlMarkers.Proofs.Coverage
import SqlMarkers.Proofs.Cuts
import SqlMarkers.Proofs.Fates
import SqlMarkers.Proofs.Intervals
import SqlMarkers.Proofs.Levels
import SqlMarkers.Proofs.Limits
import SqlMarkers.Proofs.Loose
import SqlMarkers.Proofs.Outcomes
import SqlMarkers.Proofs.Owners
import SqlMarkers.Proofs.Parameters
import SqlMarkers.Proofs.Partition
import SqlMarkers.Proofs.Positions
import SqlMarkers.Proofs.Qualifiers
import SqlMarkers.Proofs.Quoting
import SqlMarkers.Proofs.Ranges
import SqlMarkers.Proofs.Replacement
import SqlMarkers.Proofs.Resolution
import SqlMarkers.Proofs.Shadowing
import SqlMarkers.Proofs.Skipping
import SqlMarkers.Proofs.Suffixes
import SqlMarkers.Proofs.Termination
import SqlMarkers.Proofs.Balance
import SqlMarkers.Proofs.Balance.Operand
import SqlMarkers.Proofs.Balance.Condition
import SqlMarkers.Proofs.Balance.Source
import SqlMarkers.Proofs.Balance.Clause
import SqlMarkers.Proofs.Balance.Statement
import SqlMarkers.Proofs.Spacing
import SqlMarkers.Proofs.Respacing
import SqlMarkers.Proofs.Leading
import SqlMarkers.Proofs.Readback.Statement
import SqlMarkers.Proofs.Depth
import SqlMarkers.Proofs.Members
