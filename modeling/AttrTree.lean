import AttrTree.Proofs.Access
import AttrTree.Proofs.AccessLists
import AttrTree.Proofs.Agreement
import AttrTree.Proofs.Book
import AttrTree.Proofs.Bounds
import AttrTree.Proofs.Clearing
import AttrTree.Proofs.Coherence
import AttrTree.Proofs.Corruption
import AttrTree.Proofs.Decoding
import AttrTree.Proofs.Deletion
import AttrTree.Proofs.Exclusive
import AttrTree.Proofs.Failing
import AttrTree.Proofs.Faithful
import AttrTree.Proofs.Filling
import AttrTree.Proofs.FlatFile
import AttrTree.Proofs.Following
import AttrTree.Proofs.Harmless
import AttrTree.Proofs.InPlace
import AttrTree.Proofs.Intact
import AttrTree.Proofs.Later
import AttrTree.Proofs.Located
import AttrTree.Proofs.Locking
import AttrTree.Proofs.Mended
import AttrTree.Proofs.Missing
import AttrTree.Proofs.MountOutcome
import AttrTree.Proofs.Mounting
import AttrTree.Proofs.Naming
import AttrTree.Proofs.Ownership
import AttrTree.Proofs.Passing
import AttrTree.Proofs.Policy
import AttrTree.Proofs.Racing
import AttrTree.Proofs.Recency
import AttrTree.Proofs.Refinement
import AttrTree.Proofs.Registration
import AttrTree.Proofs.Rehearsing
import AttrTree.Proofs.Reliable
import AttrTree.Proofs.Removing
import AttrTree.Proofs.Reserved
import AttrTree.Proofs.Resuming
import AttrTree.Proofs.Retrying
import AttrTree.Proofs.Revising
import AttrTree.Proofs.Rooted
import AttrTree.Proofs.Secrecy
import AttrTree.Proofs.Serving
import AttrTree.Proofs.Sparing
import AttrTree.Proofs.StoredAcls
import AttrTree.Proofs.Storing
import AttrTree.Proofs.Tearing
import AttrTree.Proofs.Transparent
import AttrTree.Proofs.Turns
import AttrTree.Proofs.Usability
import AttrTree.Proofs.UserData
import AttrTree.Proofs.Visits
import AttrTree.Proofs.Withdrawing
import AttrTree.Store.Memory
import AttrTree.Store.Scripted
