import OneTape.Execution.Lemmas
import OneTape.Files.Tree
import OneTape.Grammar.Lemmas
import OneTape.Log
import OneTape.Main
import OneTape.Proofs.Description.Nodes
import OneTape.Proofs.Description.RoundTrip
import OneTape.Proofs.Execution.Records
import OneTape.Proofs.Execution.Refinement
import OneTape.Proofs.Execution.StepLimit
import OneTape.Tape.Lemmas
import OneTape.Proofs.Machine.Consistent
import OneTape.Proofs.Description.Lines
import OneTape.Proofs.Description.Directive
import OneTape.Proofs.Description.Truncation
import OneTape.Proofs.Execution.Placeholder
import OneTape.Proofs.Description.Culprit
import OneTape.Proofs.Description.Rearrangement
import OneTape.Proofs.Execution.Findings
import OneTape.Proofs.Execution.Unread
import OneTape.Proofs.Catalog.Entries
import OneTape.Proofs.Catalog.Increment
import OneTape.Proofs.Catalog.Recognizer
import OneTape.Proofs.Catalog.Parity
import OneTape.Proofs.Catalog.Halting
import OneTape.Proofs.CommandLine.Presentation
import OneTape.Proofs.Tape.Contents
import OneTape.Proofs.Tape.Storage
import OneTape.Proofs.Tape.Written
import OneTape.Proofs.Machine.Search
import OneTape.Proofs.Machine.Growth
import OneTape.Proofs.Execution.Judging
import OneTape.Proofs.Execution.Dependence
import OneTape.Proofs.Description.LineNumbers
import OneTape.Proofs.Description.Spacing
import OneTape.Proofs.Description.Pieces
import OneTape.Proofs.Description.RuleParts
import OneTape.Proofs.Description.Classification
import OneTape.Proofs.Execution.Footprint
import OneTape.Proofs.Execution.Picture
import OneTape.Proofs.Execution.Checked
import OneTape.Proofs.Loading.Directory
