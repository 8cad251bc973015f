import RecordFilter.Cache
import RecordFilter.Condition.Walk
import RecordFilter.Condition.Written
import RecordFilter.PlainQuery
import RecordFilter.Proofs.Precedence
import RecordFilter.Proofs.Parsing
import RecordFilter.Settings.Json
import RecordFilter.Proofs.RoundTrip
import RecordFilter.Proofs.Conformance
import RecordFilter.Proofs.Interchange
import RecordFilter.Proofs.Duality
import RecordFilter.Proofs.SingleEquals
import RecordFilter.Proofs.CacheRuns
import RecordFilter.Proofs.Equality
import RecordFilter.Proofs.Nesting
import RecordFilter.Proofs.Answers
import RecordFilter.Proofs.Reordering
import RecordFilter.Proofs.Flattening
import RecordFilter.Proofs.QueryGroups
import RecordFilter.Proofs.QueryReading
import RecordFilter.Proofs.QueryValues
import RecordFilter.Proofs.BagFaults
import RecordFilter.Proofs.Congruence
import RecordFilter.Proofs.BracketFaults
import RecordFilter.Proofs.ComparisonFaults
import RecordFilter.Proofs.OuterBrackets
import RecordFilter.Proofs.Decomposition
import RecordFilter.Proofs.ComparatorSearch
import RecordFilter.Proofs.FaultCategories
import RecordFilter.Proofs.WellFormed
import RecordFilter.Proofs.Filling
import RecordFilter.Proofs.Branches
import RecordFilter.Proofs.ValueOrder
import RecordFilter.Proofs.OneOrder
import RecordFilter.Proofs.ValueSymmetry
import RecordFilter.Proofs.PathGrammar
import RecordFilter.Proofs.Aliases
import RecordFilter.Proofs.Retention
import RecordFilter.Proofs.Resolution
import RecordFilter.Proofs.Numerals
import RecordFilter.Proofs.Visits
