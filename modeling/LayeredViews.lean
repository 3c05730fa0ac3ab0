import LayeredViews.Markup.Text
import LayeredViews.Pipe
import LayeredViews.ComponentType
import LayeredViews.Config
import LayeredViews.Inspect
import LayeredViews.Script.Run
import LayeredViews.Proofs.Evaluation
import LayeredViews.Proofs.Reach
import LayeredViews.Proofs.Follow
import LayeredViews.Proofs.Chronicle
import LayeredViews.Proofs.Entries
import LayeredViews.Proofs.Memo
import LayeredViews.Proofs.Answers
import LayeredViews.Proofs.Registry
import LayeredViews.Proofs.Subscribed
import LayeredViews.Proofs.Anew
import LayeredViews.Proofs.Resolving
import LayeredViews.Proofs.Current
import LayeredViews.Proofs.Transparency
import LayeredViews.Proofs.Calls
import LayeredViews.Proofs.Instances
import LayeredViews.Proofs.Apart
import LayeredViews.Proofs.Loans
import LayeredViews.Proofs.Staying
import LayeredViews.Proofs.Tenure
import LayeredViews.Proofs.Evictions
import LayeredViews.Proofs.Orphans
import LayeredViews.Proofs.Without
import LayeredViews.Proofs.Coherence
import LayeredViews.Proofs.Owners
import LayeredViews.Proofs.Unheard
import LayeredViews.Proofs.LeftBehind
import LayeredViews.Proofs.Lineage
import LayeredViews.Proofs.Wrapping
import LayeredViews.Proofs.Mismatch
import LayeredViews.Proofs.Sources
import LayeredViews.Proofs.Isolation
import LayeredViews.Proofs.RoundTrip
import LayeredViews.Proofs.Failing
import LayeredViews.Proofs.Passes
import LayeredViews.Proofs.Mounting
import LayeredViews.Proofs.Dispatching
import LayeredViews.Proofs.Derivation
import LayeredViews.Proofs.Growing
