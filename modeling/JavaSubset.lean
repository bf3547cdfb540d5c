import JavaSubset.Main
import JavaSubset.Proofs.Completeness
import JavaSubset.Proofs.Members
import JavaSubset.Proofs.LineBreaks
import JavaSubset.Proofs.Respacing
import JavaSubset.Proofs.Anchors
import JavaSubset.Proofs.Layout
import JavaSubset.Proofs.Termination
import JavaSubset.Proofs.FirstReport
import JavaSubset.Proofs.Frames
import JavaSubset.Proofs.Nesting
import JavaSubset.Proofs.Viability
import JavaSubset.Proofs.Timely
import JavaSubset.Proofs.Earliest
import JavaSubset.Proofs.LongestMatch
import JavaSubset.Proofs.LexicalReports
import JavaSubset.Proofs.StringLiterals
import JavaSubset.Proofs.Sessions
import JavaSubset.Proofs.Nodes
import JavaSubset.Proofs.Outcomes
import JavaSubset.Proofs.NearestElse
import JavaSubset.Proofs.Stretches
import JavaSubset.Proofs.Spans
import JavaSubset.Proofs.Lines
import JavaSubset.Proofs.Operands
import JavaSubset.Proofs.Precedence
import JavaSubset.Proofs.WellFormed
import JavaSubset.Proofs.Surroundings
import JavaSubset.Proofs.AssignmentChains
import JavaSubset.Proofs.QuotedStrings
import JavaSubset.Proofs.Wording
import JavaSubset.Proofs.OutputLines
import JavaSubset.Proofs.Heights
import JavaSubset.Proofs.LongChains
import JavaSubset.Proofs.Execution
import JavaSubset.Proofs.Stops
import JavaSubset.Proofs.StatementStarts
