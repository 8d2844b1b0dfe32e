import InteractionNets.Main
import InteractionNets.Net.Violation
import InteractionNets.Proofs.Arena
import InteractionNets.Proofs.Arena.History
import InteractionNets.Proofs.Net.Edits
import InteractionNets.Proofs.Rule.Valid
import InteractionNets.Proofs.Redex.Paths
import InteractionNets.Proofs.Redex.Walks
import InteractionNets.Proofs.Redex.Planning
import InteractionNets.Proofs.Redex.Surroundings
import InteractionNets.Proofs.Redex.Commit
import InteractionNets.Proofs.Redex.Interaction
import InteractionNets.Proofs.Net.Guarded
import InteractionNets.Proofs.Redex.Guarded
import InteractionNets.Proofs.Reduction.Guarded
import InteractionNets.Proofs.Reachable
import InteractionNets.Proofs.Refusals
import InteractionNets.Proofs.Tally
import InteractionNets.Proofs.Redex.Acceptance
import InteractionNets.Proofs.Redex.Commuting
import InteractionNets.Proofs.Redex.Locality
import InteractionNets.Proofs.Reduction.Confluence
import InteractionNets.Proofs.Reduction.Strategies
import InteractionNets.Proofs.Net.Invariance
import InteractionNets.Proofs.Redex.Structure
import InteractionNets.Proofs.Reduction.Sequence
import InteractionNets.Proofs.Reduction.Reports
import InteractionNets.Proofs.Diagram.Beside
import InteractionNets.Proofs.Net.SideBySide
import InteractionNets.Proofs.Reduction.Parallel
import InteractionNets.Proofs.Written.Cells
import InteractionNets.Proofs.Written.Rewrite
import InteractionNets.Proofs.Written.Facing
import InteractionNets.Proofs.Rule.Assembly
import InteractionNets.Proofs.Written.Build
import InteractionNets.Proofs.Redex.Orientation
import InteractionNets.Proofs.Written.Turning
import InteractionNets.Proofs.Peano.Rules
import InteractionNets.Proofs.Peano.Numerals
import InteractionNets.Proofs.Written.Normal
import InteractionNets.Proofs.Peano.Nets
import InteractionNets.Proofs.Peano.Chains
import InteractionNets.Proofs.Peano.Arithmetic
import InteractionNets.Proofs.Peano.Expressions
import InteractionNets.Proofs.Peano.Building
import InteractionNets.Proofs.Peano.Evaluation
import InteractionNets.Proofs.Rule.Lookup
import InteractionNets.Proofs.Net.Connecting
import InteractionNets.Proofs.Net.Undo
import InteractionNets.Proofs.Net.Injection
import InteractionNets.Proofs.Combinators.Progress
import InteractionNets.Proofs.Net.Composition
import InteractionNets.Proofs.Reduction.Budgets
import InteractionNets.Proofs.Net.CompositionLaws
import InteractionNets.Proofs.Net.Component
import InteractionNets.Proofs.Peano.Reading
import InteractionNets.Proofs.Combinators.Trees
import InteractionNets.Proofs.Combinators.Erasing
import InteractionNets.Proofs.Term.Cells
import InteractionNets.Proofs.Term.Marks
import InteractionNets.Proofs.Term.Printing
import InteractionNets.Proofs.Term.Rounds
import InteractionNets.Proofs.Text.Words
import InteractionNets.Proofs.Text.Order
import InteractionNets.Proofs.Term.Coverage
import InteractionNets.Proofs.Term.Reading
import InteractionNets.Proofs.Term.Determined
import InteractionNets.Proofs.Tally.History
import InteractionNets.Proofs.Tally.Totals
import InteractionNets.Proofs.Tally.Reachable
import InteractionNets.Proofs.Redex.Untouched
import InteractionNets.Proofs.Reduction.Replans
import InteractionNets.Proofs.Combinators.Copying
import InteractionNets.Proofs.Combinators.Doubling
import InteractionNets.Proofs.Rule.Ambiguity
import InteractionNets.Proofs.Reduction.Made
import InteractionNets.Proofs.Tally.Attribution
import InteractionNets.Proofs.Net.Removal
import InteractionNets.Proofs.Net.Origins
import InteractionNets.Proofs.Redex.Matching
