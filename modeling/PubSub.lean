import PubSub.Catalogue
import PubSub.Declaration.Expansion
import PubSub.Message.Wire
import PubSub.Proofs.Bus.Batches
import PubSub.Proofs.Bus.Parallelism
import PubSub.Proofs.Bus.Withdrawn
import PubSub.Proofs.Chain.Order
import PubSub.Proofs.Chain.Outcome
import PubSub.Proofs.Codec
import PubSub.Proofs.Context.Ending
import PubSub.Proofs.Declaration.Grammar
import PubSub.Proofs.Hub.Batch
import PubSub.Proofs.Hub.Options
import PubSub.Proofs.Hub.Publication
import PubSub.Proofs.Hub.SchemaAgreement
import PubSub.Proofs.Hub.Snapshot
import PubSub.Proofs.Message.Members
import PubSub.Proofs.Message.Type
import PubSub.Proofs.Message.Wire
import PubSub.Proofs.Race
import PubSub.Proofs.Registry.Index
import PubSub.Proofs.Retry.Budget
import PubSub.Proofs.Retry.Delivering
import PubSub.Proofs.Site.Flow
import PubSub.Proofs.Site.RoundTrip
import PubSub.Proofs.Site.Scenario
import PubSub.Proofs.Site.TimeLimit
import PubSub.Scenario.Program
