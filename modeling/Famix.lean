import Famix.Main
import Famix.Draft.Operation
import Famix.Files.Tree
import Famix.Proofs.Change
import Famix.Proofs.Enrichment
import Famix.Proofs.Containment
import Famix.Proofs.Placement
import Famix.Proofs.Naming
import Famix.Proofs.Procedure
import Famix.Proofs.History
import Famix.Proofs.Population
import Famix.Proofs.Closure
import Famix.Proofs.Reading
import Famix.Proofs.Nesting
import Famix.Proofs.Edges
import Famix.Proofs.Visit
import Famix.Proofs.Order
import Famix.Proofs.Portrait
import Famix.Proofs.Totality
import Famix.Proofs.Expression
import Famix.Proofs.Decoding
import Famix.Proofs.Agreement
import Famix.Proofs.Itinerary
import Famix.Proofs.Precedence
import Famix.Proofs.Repetition
import Famix.Proofs.Rebinding
import Famix.Proofs.Mirror
import Famix.Proofs.Frames
import Famix.Proofs.Renumbering
import Famix.Proofs.Documents
import Famix.Proofs.Convergence
import Famix.Proofs.Membership
import Famix.Proofs.Declaration
import Famix.Proofs.Upkeep
import Famix.Proofs.Catalogue
import Famix.Proofs.Anonymous
import Famix.Proofs.Overloads
import Famix.Proofs.Keying
import Famix.Proofs.Formals
import Famix.Proofs.Bodies
import Famix.Proofs.Unpackaged
import Famix.Proofs.Visibility
import Famix.Proofs.Stubs
import Famix.Proofs.Indifference
