import IssueQuery.Cache.Session
import IssueQuery.Main
import IssueQuery.Query.OfIds
import IssueQuery.Highlight
import IssueQuery.SearchText
import IssueQuery.Watch
import IssueQuery.Proofs.Query.MeaningPreserved
import IssueQuery.Proofs.Query.ParserCorrect
import IssueQuery.Proofs.Query.FirstError
import IssueQuery.Proofs.Token.Tiling
import IssueQuery.Proofs.Query.Parameters
import IssueQuery.Proofs.Cache.Freshness
import IssueQuery.Proofs.Cache.Isolation
import IssueQuery.Proofs.Engine.Transparent
import IssueQuery.Proofs.Engine.Invalidation
import IssueQuery.Proofs.Query.FixedText
import IssueQuery.Proofs.Engine.LiveIssues
import IssueQuery.Proofs.Cache.PlainMap
import IssueQuery.Proofs.Cache.SingleFlight
import IssueQuery.Proofs.Graph.Expansion
import IssueQuery.Proofs.Query.QuotedIds
import IssueQuery.Proofs.Engine.AbortedCalls
import IssueQuery.Proofs.Graph.Composition
import IssueQuery.Proofs.Graph.Duality
import IssueQuery.Proofs.Engine.Relationships
import IssueQuery.Proofs.Engine.ExpandedResults
import IssueQuery.Proofs.Engine.StatementCounts
import IssueQuery.Proofs.Engine.StoreFailures
import IssueQuery.Proofs.Query.Layout
import IssueQuery.Proofs.Query.Typing
import IssueQuery.Proofs.Query.Words
import IssueQuery.Proofs.Query.Dates
import IssueQuery.Proofs.Highlight.Extents
import IssueQuery.Proofs.Highlight.Roles
import IssueQuery.Proofs.Watch.Debounce
import IssueQuery.Proofs.Cli.Released
import IssueQuery.Proofs.Cli.Output
import IssueQuery.Proofs.Cli.Arguments
import IssueQuery.Proofs.Graph.Mirror
