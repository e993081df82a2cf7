import MonkeyFront.Editor
import MonkeyFront.Main
import MonkeyFront.Parsing.Command
import MonkeyFront.Proofs.Roundtrip
import MonkeyFront.Proofs.Delimiters
import MonkeyFront.Proofs.Transparency
import MonkeyFront.Proofs.Earliest
import MonkeyFront.Proofs.Decomposition
import MonkeyFront.Proofs.Faults
import MonkeyFront.Proofs.Layout
import MonkeyFront.Proofs.Driving
import MonkeyFront.Proofs.Withheld
import MonkeyFront.Proofs.Juxtaposition
import MonkeyFront.Proofs.Joining
import MonkeyFront.Proofs.DigitRuns
import MonkeyFront.Proofs.Renderings
import MonkeyFront.Proofs.Climbing
import MonkeyFront.Proofs.Outlines
import MonkeyFront.Proofs.Marking
import MonkeyFront.Proofs.Progress
import MonkeyFront.Proofs.BlockDepth
import MonkeyFront.Proofs.Settings
import MonkeyFront.Proofs.Bounds
import MonkeyFront.Proofs.Longest
