import Reckon.Command.Run
import Reckon.Main
import Reckon.Proofs.Grammar
import Reckon.Proofs.Yard
import Reckon.Proofs.Lexeme
import Reckon.Proofs.Order
import Reckon.Proofs.Pairing
import Reckon.Proofs.Paths
import Reckon.Proofs.Building
import Reckon.Proofs.Forms
import Reckon.Proofs.Tables
import Reckon.Proofs.Counting
import Reckon.Proofs.Agreement
import Reckon.Proofs.Acceptance
import Reckon.Proofs.Validity
import Reckon.Proofs.Group
import Reckon.Proofs.Substitution
import Reckon.Proofs.Machine
import Reckon.Proofs.Rounding
import Reckon.Proofs.Spelling
import Reckon.Proofs.Nearest
import Reckon.Proofs.Finiteness
import Reckon.Proofs.Reporting
import Reckon.Proofs.Nearness
import Reckon.Proofs.Reading
import Reckon.Proofs.Shortest
import Reckon.Proofs.Layout
import Reckon.Proofs.Exponent
import Reckon.Proofs.Overflow
import Reckon.Proofs.Scanning
import Reckon.Proofs.Printing
import Reckon.Proofs.Phrases
import Reckon.Proofs.Cuts
import Reckon.Proofs.Coverage
import Reckon.Proofs.Offences
import Reckon.Proofs.Spacing
import Reckon.Proofs.Naming
import Reckon.Proofs.Rows
import Reckon.Proofs.Escapes
import Reckon.Proofs.Figures
import Reckon.Proofs.Decimals
import Reckon.Proofs.Documents
import Reckon.Proofs.Lines
import Reckon.Proofs.Records
import Reckon.Proofs.Appending
import Reckon.Proofs.Ledger
import Reckon.Proofs.History
import Reckon.Proofs.Newest
import Reckon.Proofs.Contents
import Reckon.Proofs.Windows
import Reckon.Proofs.Limits
import Reckon.Proofs.Recency
import Reckon.Proofs.Shapes
import Reckon.Proofs.Failures
import Reckon.Proofs.Trees
import Reckon.Proofs.Recording
import Reckon.Proofs.Courses
import Reckon.Proofs.Batches
import Reckon.Proofs.Attempts
import Reckon.Proofs.Confinement
import Reckon.Proofs.Silence
import Reckon.Proofs.Leftovers
import Reckon.Proofs.Causes
import Reckon.Proofs.Chronicle
import Reckon.Proofs.Usability
import Reckon.Proofs.Bindings
import Reckon.Proofs.Refusals
import Reckon.Proofs.Columns
import Reckon.Proofs.Stretches
import Reckon.Proofs.Ladders
import Reckon.Proofs.Blocks
import Reckon.Proofs.Shortening
import Reckon.Proofs.Keys
import Reckon.Proofs.Merging
