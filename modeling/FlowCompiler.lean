import FlowCompiler.Main
import FlowCompiler.Proofs.Attributes.Filtering
import FlowCompiler.Proofs.Bounds.Attached
import FlowCompiler.Proofs.Bounds.Held
import FlowCompiler.Proofs.Buffers
import FlowCompiler.Proofs.Calls.Agreement
import FlowCompiler.Proofs.Calls.Families
import FlowCompiler.Proofs.Calls.Matching
import FlowCompiler.Proofs.Calls.Sharing
import FlowCompiler.Proofs.Calls.Sites
import FlowCompiler.Proofs.Database.Spelling
import FlowCompiler.Proofs.Dispatch
import FlowCompiler.Proofs.Division
import FlowCompiler.Proofs.Flow.Accepted
import FlowCompiler.Proofs.Flow.Handlers
import FlowCompiler.Proofs.Integers.Arithmetic
import FlowCompiler.Proofs.Integers.Checked
import FlowCompiler.Proofs.Integers.Narrowing
import FlowCompiler.Proofs.Items.Returning
import FlowCompiler.Proofs.Items.Runs
import FlowCompiler.Proofs.Lowering.ClassNumbers
import FlowCompiler.Proofs.Lowering.Helpers
import FlowCompiler.Proofs.Merging
import FlowCompiler.Proofs.Numbers
import FlowCompiler.Proofs.Peeling.Unrolling
import FlowCompiler.Proofs.Registers.Running
import FlowCompiler.Proofs.Resume.Decoding
import FlowCompiler.Proofs.Rewriting.Comparisons
import FlowCompiler.Proofs.Rewriting.Simplify
import FlowCompiler.Proofs.Strings.Folding
import FlowCompiler.Proofs.Threads
import FlowCompiler.Proofs.Tokens.Entries
import FlowCompiler.Proofs.Types.Interning
import FlowCompiler.Proofs.Union.Subsumption
import FlowCompiler.Script
