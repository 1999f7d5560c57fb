import GraphQuery.Token.Cursor
import GraphQuery.Document.Size
import GraphQuery.Subscription
import GraphQuery.Main
import GraphQuery.Proofs.Derivation
import GraphQuery.Proofs.Derivation.Tokens
import GraphQuery.Proofs.Derivation.ReadBack
import GraphQuery.Proofs.Acceptance
import GraphQuery.Proofs.Derivation.Overflow
import GraphQuery.Proofs.Lexing
import GraphQuery.Proofs.Spelling
import GraphQuery.Proofs.Places
import GraphQuery.Proofs.Layout
import GraphQuery.Proofs.Trail
import GraphQuery.Proofs.Concatenation
import GraphQuery.Proofs.Truncation
import GraphQuery.Proofs.WellFormed
import GraphQuery.Proofs.Nodes
import GraphQuery.Proofs.Shape
import GraphQuery.Proofs.Depth
import GraphQuery.Proofs.Delivery
import GraphQuery.Proofs.Finality
import GraphQuery.Proofs.HandOut
import GraphQuery.Proofs.Session
import GraphQuery.Proofs.FieldByField
import GraphQuery.Proofs.JsonText
import GraphQuery.Proofs.WellKeyed
import GraphQuery.Proofs.SortedMembers
import GraphQuery.Proofs.ValueJson
import GraphQuery.Proofs.Strictness
import GraphQuery.Proofs.DepthGuard
import GraphQuery.Proofs.SelectedData
import GraphQuery.Proofs.ResolverCalls
import GraphQuery.Proofs.Termination
import GraphQuery.Proofs.Placement
import GraphQuery.Proofs.ValueEquality
import GraphQuery.Proofs.DivergingPaths
import GraphQuery.Proofs.Idempotence
import GraphQuery.Proofs.WholeRecord
import GraphQuery.Proofs.Lookahead
import GraphQuery.Proofs.TypeText
import GraphQuery.Proofs.Calls
import GraphQuery.Proofs.MissingParts
import GraphQuery.Proofs.Slots
import GraphQuery.Proofs.ItemLimit
import GraphQuery.Proofs.PartialEquivalence
import GraphQuery.Proofs.Rendering
import GraphQuery.Proofs.ListGrowth
import GraphQuery.Proofs.Registrations
import GraphQuery.Proofs.SkippedGroups
import GraphQuery.Proofs.IntegerLiterals
