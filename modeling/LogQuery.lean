import LogQuery.Main
import LogQuery.Edit.Inspect
import LogQuery.Stream.Rows
import LogQuery.Suggest.Provider
import LogQuery.Suggest.Scope
import LogQuery.Tree.Edit
import LogQuery.Tree.Writer
import LogQuery.Proofs.Filter.BareWord
import LogQuery.Proofs.Stats.Listing
import LogQuery.Proofs.Quoting.RoundTrip
import LogQuery.Proofs.Token.Interior
import LogQuery.Proofs.Query.Layout
import LogQuery.Proofs.Filter.Sequence
import LogQuery.Proofs.Query.Labels
import LogQuery.Proofs.Stream.Rows
import LogQuery.Proofs.Tree.Negation
import LogQuery.Proofs.Edit.Undo
import LogQuery.Proofs.Edit.Balance
import LogQuery.Proofs.Edit.Connective
import LogQuery.Proofs.Suggest.Provider
import LogQuery.Proofs.Query.Joint
import LogQuery.Proofs.Token.Rebuild
import LogQuery.Proofs.Filter.Time
import LogQuery.Proofs.Query.Progress
import LogQuery.Proofs.Filter.Legacy
import LogQuery.Proofs.Filter.Range
import LogQuery.Proofs.Filter.UnknownCall
import LogQuery.Proofs.Quoting.Unquoted
import LogQuery.Proofs.Tree.Unpaired
import LogQuery.Proofs.Pipe.Partition
import LogQuery.Proofs.Token.WhiteSpace
import LogQuery.Proofs.Filter.Neighbours
import LogQuery.Proofs.Tree.Leaves
import LogQuery.Proofs.Tree.OutOfRange
import LogQuery.Proofs.Pipe.Unpack
import LogQuery.Proofs.Stream.Alternatives
import LogQuery.Proofs.Stream.RoundTrip
import LogQuery.Proofs.Suggest.Scope
import LogQuery.Proofs.Suggest.Narrowing
import LogQuery.Proofs.Query.Comments
import LogQuery.Proofs.Edit.TimeSort
import LogQuery.Proofs.Stats.Mention
import LogQuery.Proofs.Suggest.Chronology
import LogQuery.Proofs.Token.Shape
