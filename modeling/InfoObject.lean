import InfoObject.Catalog
import InfoObject.Directory
import InfoObject.Main
import InfoObject.Notation.Outline
import InfoObject.Tally
import InfoObject.Proofs.Rings
import InfoObject.Proofs.SingleSearch
import InfoObject.Proofs.SetCycles
import InfoObject.Proofs.Checkpoints
import InfoObject.Proofs.LiteralSpellings
import InfoObject.Proofs.Neutrality
import InfoObject.Proofs.Sessions
import InfoObject.Proofs.UniqueConflicts
import InfoObject.Proofs.GeneratedFiles
import InfoObject.Proofs.Positions
import InfoObject.Proofs.Interning
import InfoObject.Proofs.ElementKinds
import InfoObject.Proofs.ModuleStore
import InfoObject.Proofs.PartialDumps
import InfoObject.Proofs.QuotedTexts
import InfoObject.Proofs.GeneratedNames
import InfoObject.Proofs.FieldReports
