import ThreatDesk.Main
import ThreatDesk.Proofs.Shell.Analysis
import ThreatDesk.Proofs.Shell.Ledger
import ThreatDesk.Proofs.Shell.Navigation
import ThreatDesk.Proofs.Shell.Saving
import ThreatDesk.Proofs.Snapshot.Rewritten
import ThreatDesk.Proofs.Tree.Resolve
import ThreatDesk.Proofs.Engine.Calls
import ThreatDesk.Proofs.Engine.Dialogue
import ThreatDesk.Proofs.Shell.Asking
import ThreatDesk.Proofs.Shell.Completing
import ThreatDesk.Proofs.Host.Faults
import ThreatDesk.Proofs.Shell.Reporting
import ThreatDesk.Proofs.Snapshot.Succession
import ThreatDesk.Proofs.Shell.Storing
import ThreatDesk.Proofs.Shell.Archiving
import ThreatDesk.Proofs.Snapshot.Schema
import ThreatDesk.Proofs.Snapshot.Accepted
import ThreatDesk.Proofs.Tree.Writing
import ThreatDesk.Proofs.Host.Confined
import ThreatDesk.Proofs.Shell.Confining
import ThreatDesk.Proofs.Encoding.Surrogates
import ThreatDesk.Proofs.Host.Alike
import ThreatDesk.Proofs.Shell.Alike
import ThreatDesk.Proofs.Shell.Spelling
import ThreatDesk.Proofs.Tree.Relative
import ThreatDesk.Proofs.Tree.Search
import ThreatDesk.Proofs.Shell.Contents
import ThreatDesk.Proofs.Tree.Merging
import ThreatDesk.Proofs.Snapshot.Bumping
import ThreatDesk.Proofs.Shell.Exporting
import ThreatDesk.Proofs.Shell.Conversing
import ThreatDesk.Proofs.Engine.Grouping
import ThreatDesk.Proofs.Shell.Suggesting
import ThreatDesk.Proofs.Engine.Work
import ThreatDesk.Proofs.Engine.Replies
import ThreatDesk.Proofs.Engine.Researching
import ThreatDesk.Proofs.Tree.Elsewhere
import ThreatDesk.Proofs.Shell.Artifacts
import ThreatDesk.Proofs.Engine.Fences
import ThreatDesk.Proofs.Tree.Moving
import ThreatDesk.Proofs.Shell.Documents
import ThreatDesk.Proofs.Engine.Contacts
import ThreatDesk.Proofs.Shell.Keys
import ThreatDesk.Proofs.Shell.Dispatching
import ThreatDesk.Proofs.Tree.Ensuring
import ThreatDesk.Proofs.Engine.Sources
