import MachineKeeper.Object.Marker
import MachineKeeper.Rehearsal.Keeper
import MachineKeeper.Rehearsal.Trial
import MachineKeeper.Settings
import MachineKeeper.Proofs.Fleet.Orphan
import MachineKeeper.Proofs.Fleet.Trespass
import MachineKeeper.Proofs.Object.Marker
import MachineKeeper.Proofs.Reconcile.Calls
import MachineKeeper.Proofs.Reconcile.Alone
import MachineKeeper.Proofs.Reconcile.Gate
import MachineKeeper.Proofs.Reconcile.Course
import MachineKeeper.Proofs.Reconcile.News
import MachineKeeper.Proofs.Reconcile.Timeless
import MachineKeeper.Proofs.Fleet.Steady
import MachineKeeper.Proofs.Fleet.Lifetime
import MachineKeeper.Proofs.Rehearsal.Recovery
import MachineKeeper.Proofs.Rehearsal.Interleaving
import MachineKeeper.Proofs.Store.Life
import MachineKeeper.Proofs.Store.LostUpdate
import MachineKeeper.Proofs.Object.Condition
import MachineKeeper.Proofs.Store.Duplicates
import MachineKeeper.Proofs.Worker.Shutdown
import MachineKeeper.Proofs.Rehearsal.AnyDaemon
import MachineKeeper.Proofs.Rehearsal.Accounting
import MachineKeeper.Proofs.Daemon.Reply
import MachineKeeper.Proofs.Traces
import MachineKeeper.Proofs.Daemon.Stages
import MachineKeeper.Proofs.Daemon.Operations
import MachineKeeper.Proofs.Daemon.Look
import MachineKeeper.Proofs.Rehearsal.Client
import MachineKeeper.Proofs.Rehearsal.Absence
import MachineKeeper.Proofs.Object.History
import MachineKeeper.Proofs.Daemon.Posting
import MachineKeeper.Proofs.Daemon.Addressing
import MachineKeeper.Proofs.Rehearsal.Requeues
import MachineKeeper.Proofs.Rehearsal.Addressed
import MachineKeeper.Proofs.Settings
import MachineKeeper.Proofs.Rehearsal.Timeouts
import MachineKeeper.Proofs.Clock.FirstCome
