import LogicSearch.Activation.Stack
import LogicSearch.Atom.Table
import LogicSearch.Plugin.Samples
import LogicSearch.Proofs.Arithmetic.Exact
import LogicSearch.Proofs.Arithmetic.Limits
import LogicSearch.Proofs.Atom.Interning
import LogicSearch.Proofs.Layout.Checks
import LogicSearch.Proofs.Query.Collected
import LogicSearch.Proofs.Query.Committed
import LogicSearch.Proofs.Query.Independent
import LogicSearch.Proofs.Query.Pure
import LogicSearch.Proofs.Query.Session
import LogicSearch.Proofs.Registry.History
import LogicSearch.Proofs.Search.Algebra
import LogicSearch.Proofs.Search.Extensional
import LogicSearch.Proofs.Search.Finite
import LogicSearch.Proofs.Search.Laws
import LogicSearch.Proofs.Search.Lifecycle
import LogicSearch.Proofs.Search.Membership
import LogicSearch.Proofs.Search.Pure
import LogicSearch.Proofs.Search.Tentative
import LogicSearch.Proofs.Search.Terminal
import LogicSearch.Proofs.Search.Workspace
import LogicSearch.Proofs.Store.Covered
import LogicSearch.Proofs.Store.MostGeneral
import LogicSearch.Proofs.Store.Resolution
import LogicSearch.Proofs.Store.Shortcut
import LogicSearch.Proofs.Store.Shown
import LogicSearch.Query
import LogicSearch.Search.Run
import LogicSearch.Store.Equal
import LogicSearch.Term.Compound
