import Scriptlet.Main
import Scriptlet.Proofs.Syntax.Depth
import Scriptlet.Proofs.Syntax.Derivation
import Scriptlet.Proofs.Syntax.Soundness
import Scriptlet.Proofs.Syntax.Completeness
import Scriptlet.Proofs.Eval.Runs
import Scriptlet.Proofs.Eval.Steps
import Scriptlet.Proofs.Eval.Permanence
import Scriptlet.Proofs.Syntax.Pieces
import Scriptlet.Proofs.Syntax.WellFormed
import Scriptlet.Proofs.Syntax.Printing
import Scriptlet.Proofs.Syntax.Reported
import Scriptlet.Proofs.Syntax.Guarded
import Scriptlet.Proofs.Syntax.Steady
import Scriptlet.Proofs.Syntax.Completable
import Scriptlet.Proofs.Syntax.Predictive
import Scriptlet.Proofs.Syntax.Expectations
import Scriptlet.Proofs.Syntax.Cuts
import Scriptlet.Proofs.Syntax.Layout
import Scriptlet.Proofs.Syntax.Lookahead
import Scriptlet.Proofs.Syntax.Splitting
import Scriptlet.Proofs.Eval.Correspondence
import Scriptlet.Proofs.Eval.Sequence
import Scriptlet.Proofs.Eval.Reach
import Scriptlet.Proofs.Eval.Lockstep
import Scriptlet.Proofs.Eval.Locality
import Scriptlet.Proofs.Eval.Printings
import Scriptlet.Proofs.Syntax.Coverage
import Scriptlet.Proofs.Syntax.Respelling
import Scriptlet.Proofs.Eval.Growth
import Scriptlet.Proofs.Eval.Objects
import Scriptlet.Proofs.Number.Packing
import Scriptlet.Proofs.Number.Rounding
import Scriptlet.Proofs.Number.Whole
import Scriptlet.Proofs.Syntax.Literals
import Scriptlet.Proofs.Eval.PlainData
import Scriptlet.Proofs.Eval.Walks
import Scriptlet.Proofs.Eval.Trail
import Scriptlet.Proofs.Eval.Provenance
import Scriptlet.Proofs.Eval.Sourced
import Scriptlet.Proofs.Eval.Nesting
import Scriptlet.Proofs.Syntax.Founded
import Scriptlet.Proofs.Syntax.Numerals
import Scriptlet.Proofs.Syntax.Refusals
import Scriptlet.Proofs.Number.Words
import Scriptlet.Proofs.Eval.Vocabulary
import Scriptlet.Proofs.CommandLine
import Scriptlet.Proofs.Eval.Parameters
import Scriptlet.Proofs.Text.ByteOrder
import Scriptlet.Proofs.Eval.ObjectLiterals
import Scriptlet.Proofs.Eval.Homes
import Scriptlet.Proofs.Eval.Identity
import Scriptlet.Proofs.Eval.Rewriting
import Scriptlet.Proofs.Eval.Rewritten
import Scriptlet.Proofs.Eval.Shorthands
import Scriptlet.Proofs.Eval.Renaming
import Scriptlet.Proofs.Number.Quotients
import Scriptlet.Proofs.Number.ReadBack
import Scriptlet.Proofs.Eval.NumberKeys
import Scriptlet.Proofs.Syntax.Calls
import Scriptlet.Proofs.Syntax.Ending
