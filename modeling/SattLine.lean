import SattLine.Document.Command
import SattLine.Main
import SattLine.Plant.Given
import SattLine.Proofs.Build.Coordinates
import SattLine.Proofs.Build.Quoted
import SattLine.Proofs.Compare.Differences
import SattLine.Proofs.Compare.Places
import SattLine.Proofs.Compare.Variants
import SattLine.Proofs.Menu.Unsaved
import SattLine.Proofs.Plant.Impact
import SattLine.Proofs.Plant.Spellings
import SattLine.Proofs.Plant.Units
import SattLine.Proofs.Project.Defects
import SattLine.Proofs.Project.Repeated
import SattLine.Proofs.Project.Shadowing
import SattLine.Proofs.Settings.RoundTrip
import SattLine.Proofs.Source.Removal
import SattLine.Proofs.Source.Token
import SattLine.Proofs.Usage.Account
import SattLine.Proofs.Usage.Conditions
import SattLine.Proofs.Usage.Consistency
import SattLine.Proofs.Usage.Insertion
import SattLine.Proofs.Usage.LetterCase
import SattLine.Proofs.Usage.Marking
import SattLine.Proofs.Usage.Mismatch
import SattLine.Proofs.Usage.RepeatedTypes
import SattLine.Usage.Probe
