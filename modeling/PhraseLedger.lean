import PhraseLedger.Main
import PhraseLedger.Proofs.Acceptance
import PhraseLedger.Proofs.Answers
import PhraseLedger.Proofs.Census
import PhraseLedger.Proofs.Chronicle
import PhraseLedger.Proofs.Closing
import PhraseLedger.Proofs.Crews
import PhraseLedger.Proofs.Edits
import PhraseLedger.Proofs.Failures
import PhraseLedger.Proofs.Fragments
import PhraseLedger.Proofs.JobCounts
import PhraseLedger.Proofs.LineEnds
import PhraseLedger.Proofs.Mirror
import PhraseLedger.Proofs.Occupancy
import PhraseLedger.Proofs.Overrides
import PhraseLedger.Proofs.Progress
import PhraseLedger.Proofs.Refusals
import PhraseLedger.Proofs.Replays
import PhraseLedger.Proofs.Safety
import PhraseLedger.Proofs.Seams
import PhraseLedger.Proofs.Shares
import PhraseLedger.Proofs.Stretches
import PhraseLedger.Proofs.Turns
import PhraseLedger.Proofs.Lives
import PhraseLedger.Proofs.Whereabouts
