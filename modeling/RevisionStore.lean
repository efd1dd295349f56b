import RevisionStore.Session.Action
import RevisionStore.Config.Toml
import RevisionStore.Proofs.Session.Reads
import RevisionStore.Proofs.Session.Transparency
import RevisionStore.Proofs.Store.Course
import RevisionStore.Proofs.Session.Course
import RevisionStore.Proofs.Lifecycle
import RevisionStore.Proofs.Session.Commits
import RevisionStore.Proofs.Session.Frame
import RevisionStore.Proofs.Store.Unwatched
import RevisionStore.Proofs.Session.Snapshots
import RevisionStore.Proofs.Chronicle
import RevisionStore.Proofs.History.Suffix
import RevisionStore.Proofs.Store.Window
import RevisionStore.Proofs.Store.Gapless
import RevisionStore.Proofs.Session.Upkeep
import RevisionStore.Proofs.Session.TimeTravel
import RevisionStore.Proofs.Draft.Refreshing
import RevisionStore.Proofs.Store.Current
import RevisionStore.Proofs.Session.Agreement
import RevisionStore.Proofs.Store.Commuting
import RevisionStore.Proofs.Session.Commuting
import RevisionStore.Proofs.Session.Policies
import RevisionStore.Proofs.Session.Effects
import RevisionStore.Proofs.Session.Register
import RevisionStore.Proofs.Session.Archives
import RevisionStore.Proofs.Session.Retained
import RevisionStore.Proofs.Violations
import RevisionStore.Proofs.Session.Violations
import RevisionStore.Proofs.Session.Publishing
import RevisionStore.Proofs.Draft.Overlay
import RevisionStore.Proofs.Session.Holding
import RevisionStore.Proofs.Session.Updating
import RevisionStore.Proofs.Draft.Conflicts
import RevisionStore.Proofs.Session.Conflicts
import RevisionStore.Proofs.Session.Passes
import RevisionStore.Proofs.Draft.Collections
import RevisionStore.Proofs.Draft.Walking
import RevisionStore.Proofs.Session.Cursors
import RevisionStore.Proofs.Session.Walking
import RevisionStore.Proofs.History.Amendments
import RevisionStore.Proofs.History.Cuts
import RevisionStore.Proofs.Session.Positions
