import RedBlackMap.Datum.Printer
import RedBlackMap.Map.Entries
import RedBlackMap.Map.Operation
import RedBlackMap.Map.Shrink
import RedBlackMap.Order.Laws
import RedBlackMap.Order.Strings
import RedBlackMap.Proofs.Entries.Lookup
import RedBlackMap.Tree.Invariant
import RedBlackMap.Proofs.Tree.Insertion
import RedBlackMap.Proofs.Entries.Separation
import RedBlackMap.Proofs.Tree.Search
import RedBlackMap.Proofs.Tree.Descent
import RedBlackMap.Proofs.Tree.Removal
import RedBlackMap.Proofs.Entries.Operation
import RedBlackMap.Proofs.Map.WellFormed
import RedBlackMap.Proofs.Entries.Rules
import RedBlackMap.Proofs.Map.Refinement
import RedBlackMap.Proofs.Entries.Alignment
import RedBlackMap.Proofs.Entries.Isolation
import RedBlackMap.Proofs.Map.Isolation
import RedBlackMap.Proofs.Tree.Traversal
import RedBlackMap.Proofs.Map.Equality
import RedBlackMap.Proofs.Entries.Union
import RedBlackMap.Proofs.Map.Union
import RedBlackMap.Proofs.Tree.Iteration
import RedBlackMap.Proofs.Order.Utf8
import RedBlackMap.Proofs.Tree.Image
import RedBlackMap.Proofs.Map.Image
import RedBlackMap.Proofs.Map.Folding
import RedBlackMap.Proofs.Tree.Checked
import RedBlackMap.Proofs.Entries.Accounting
import RedBlackMap.Proofs.Tree.Accounting
import RedBlackMap.Proofs.Map.Accounting
import RedBlackMap.Proofs.Map.Blocks
import RedBlackMap.Proofs.Map.Balance
import RedBlackMap.Proofs.Tree.Recorded
import RedBlackMap.Proofs.Map.Storing
import RedBlackMap.Proofs.Order.Less
import RedBlackMap.Proofs.Map.Lookup
import RedBlackMap.Proofs.Entries.Shrink
import RedBlackMap.Proofs.Map.Shrink
import RedBlackMap.Proofs.Tree.Traced
import RedBlackMap.Proofs.Tree.Termination
import RedBlackMap.Proofs.Tree.Hooked
