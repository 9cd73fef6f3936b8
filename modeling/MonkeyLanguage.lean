import MonkeyLanguage.Main
import MonkeyLanguage.Value.Equality
import MonkeyLanguage.Proofs.Grammar
import MonkeyLanguage.Proofs.Grammar.Grouping
import MonkeyLanguage.Proofs.Grammar.Sound
import MonkeyLanguage.Proofs.Reading.Delivery
import MonkeyLanguage.Proofs.Reading.Made
import MonkeyLanguage.Proofs.Reading.Failure
import MonkeyLanguage.Proofs.Reading.Rules
import MonkeyLanguage.Proofs.Reading.Reads
import MonkeyLanguage.Proofs.Reading.Sequence
import MonkeyLanguage.Proofs.Reading.Operand
import MonkeyLanguage.Proofs.Reading.Climb
import MonkeyLanguage.Proofs.Grammar.Complete
import MonkeyLanguage.Proofs.Scanning.Numeral
import MonkeyLanguage.Proofs.Grammar.Acceptance
import MonkeyLanguage.Proofs.Scanning.Stretches
import MonkeyLanguage.Proofs.Scanning.Pieces
import MonkeyLanguage.Proofs.Scanning.Cutting
import MonkeyLanguage.Proofs.Scanning.Placing
import MonkeyLanguage.Proofs.Canonical.WellFormed
import MonkeyLanguage.Proofs.Canonical.Spelling
import MonkeyLanguage.Proofs.Canonical.Reparse
import MonkeyLanguage.Proofs.Grammar.Priorities
import MonkeyLanguage.Proofs.Run.Moment
import MonkeyLanguage.Proofs.Run.Arrival
import MonkeyLanguage.Proofs.Run.Nesting
import MonkeyLanguage.Proofs.Run.Clean
import MonkeyLanguage.Proofs.Run.Contents
import MonkeyLanguage.Proofs.Run.Absorption
import MonkeyLanguage.Proofs.Run.Standard
import MonkeyLanguage.Proofs.Run.Waiting
import MonkeyLanguage.Proofs.Run.Shapes
import MonkeyLanguage.Proofs.Run.Integers
import MonkeyLanguage.Proofs.Run.Orderly
import MonkeyLanguage.Proofs.Run.Returns
import MonkeyLanguage.Proofs.Run.Placement
import MonkeyLanguage.Proofs.Completion.Rules
import MonkeyLanguage.Proofs.Completion.Equations
import MonkeyLanguage.Proofs.Completion.Standing
import MonkeyLanguage.Proofs.Completion.Signals
import MonkeyLanguage.Proofs.Completion.Agreement
import MonkeyLanguage.Proofs.Completion.Conclusion
import MonkeyLanguage.Proofs.Scoping.Store
import MonkeyLanguage.Proofs.Scoping.Writes
import MonkeyLanguage.Proofs.Alike.Value
import MonkeyLanguage.Proofs.Alike.Machine
import MonkeyLanguage.Proofs.Alike.Evaluation
import MonkeyLanguage.Proofs.Scoping.Reach
import MonkeyLanguage.Proofs.Alike.Unmentioned
import MonkeyLanguage.Proofs.Canonical.Twin
import MonkeyLanguage.Proofs.Alike.Rendering
import MonkeyLanguage.Proofs.Alike.Tracing
import MonkeyLanguage.Proofs.Run.Faults
import MonkeyLanguage.Proofs.Canonical.Lines
import MonkeyLanguage.Proofs.Alike.Places
import MonkeyLanguage.Proofs.Alike.Session
import MonkeyLanguage.Proofs.Arithmetic
import MonkeyLanguage.Proofs.Grammar.Isolation
import MonkeyLanguage.Proofs.Reading.Progress
import MonkeyLanguage.Proofs.Reading.Ends
import MonkeyLanguage.Proofs.Run.Depth
import MonkeyLanguage.Proofs.Renaming.Repetition
import MonkeyLanguage.Proofs.Scoping.Changes
import MonkeyLanguage.Proofs.Scoping.History
import MonkeyLanguage.Proofs.Canonical.Functions
import MonkeyLanguage.Proofs.Formatting
import MonkeyLanguage.Proofs.Run.Hashes
import MonkeyLanguage.Proofs.Run.Functions
import MonkeyLanguage.Proofs.Run.Data
import MonkeyLanguage.Proofs.Equality
