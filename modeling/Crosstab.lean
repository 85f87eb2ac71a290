import Crosstab.Proofs.Source.Rollup
import Crosstab.Proofs.Grid.Shares
import Crosstab.Proofs.Query.Keys
import Crosstab.Proofs.Controller.Concurrency
import Crosstab.Proofs.Unranking.Grid
import Crosstab.Proofs.Transposition.Grid
import Crosstab.Proofs.Axis.NamePlaces
import Crosstab.Proofs.Axis.Links
import Crosstab.Proofs.Ranking.Ends
import Crosstab.Proofs.Store.Agreement
import Crosstab.Proofs.Measure.Naming
import Crosstab.Proofs.Statement.Orderings
import Crosstab.Proofs.Discovery.ForcedNull
import Crosstab.Proofs.Store.Translation
import Crosstab.Proofs.Description
import Crosstab.Proofs.Controller.History
import Crosstab.Proofs.Grid.HeaderLeaves
import Crosstab.Proofs.Display
import Crosstab.Proofs.Filter.Members
import Crosstab.Proofs.Settings
import Crosstab.Proofs.Store.Groups
