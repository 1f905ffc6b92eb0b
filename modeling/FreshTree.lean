import FreshTree.Proofs.Convergence
import FreshTree.Proofs.Handover
import FreshTree.Proofs.Scenes
import FreshTree.Settings.File
import FreshTree.Proofs.Chronicle
import FreshTree.Proofs.Integrity
import FreshTree.Proofs.Provenance
import FreshTree.Proofs.Standing
import FreshTree.Proofs.OwnCycle
import FreshTree.Proofs.Completion
import FreshTree.Proofs.Delivery
import FreshTree.Proofs.Disposal
import FreshTree.Proofs.Waiters
import FreshTree.Proofs.Custody
import FreshTree.Proofs.Abandonment
import FreshTree.Proofs.Course
import FreshTree.Proofs.Diary
import FreshTree.Proofs.Footprint
import FreshTree.Proofs.Guard
import FreshTree.Proofs.Patience
import FreshTree.Proofs.Telling
import FreshTree.Proofs.Wakeups
import FreshTree.Proofs.Noting
import FreshTree.Proofs.Debounce
import FreshTree.Proofs.Parses
import FreshTree.Proofs.Tables
import FreshTree.Proofs.ReadBack
import FreshTree.Proofs.Slices
