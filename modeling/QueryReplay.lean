import QueryReplay.Service
import QueryReplay.Settings.Document
import QueryReplay.Settings.Logging
import QueryReplay.Sql.Encoding
import QueryReplay.Proofs.FinalResult
import QueryReplay.Proofs.Relations
import QueryReplay.Proofs.Splicing
import QueryReplay.Proofs.StageOrder
import QueryReplay.Proofs.Invariants
import QueryReplay.Proofs.RowIndices
import QueryReplay.Proofs.Chaining
import QueryReplay.Proofs.Identities
import QueryReplay.Proofs.Fallback
import QueryReplay.Proofs.Expressions
import QueryReplay.Proofs.Questions
import QueryReplay.Proofs.HeadedLists
import QueryReplay.Proofs.AuxiliaryQueries
import QueryReplay.Proofs.Inertness
import QueryReplay.Proofs.Precedence
import QueryReplay.Proofs.CaseTexts
import QueryReplay.Proofs.Preflight
import QueryReplay.Proofs.Statements
import QueryReplay.Proofs.Endings
import QueryReplay.Proofs.TableNames
import QueryReplay.Proofs.Spans
import QueryReplay.Proofs.Targets
import QueryReplay.Proofs.Admissibility
import QueryReplay.Proofs.JoinCells
import QueryReplay.Proofs.Positions
import QueryReplay.Proofs.RelationalJoin
import QueryReplay.Proofs.Qualifiers
import QueryReplay.Proofs.Scopes
import QueryReplay.Proofs.JoinKeys
import QueryReplay.Proofs.References
import QueryReplay.Proofs.Reconciliation
import QueryReplay.Proofs.Matchings
import QueryReplay.Proofs.Magnitudes
import QueryReplay.Proofs.GroupKeys
import QueryReplay.Proofs.Grouping
import QueryReplay.Proofs.KeyedGroups
import QueryReplay.Proofs.Projection
import QueryReplay.Proofs.StepDocuments
import QueryReplay.Proofs.Commands
import QueryReplay.Proofs.Sessions
import QueryReplay.Proofs.Erasures
import QueryReplay.Proofs.Instants
import QueryReplay.Proofs.Hints
import QueryReplay.Proofs.Resets
import QueryReplay.Proofs.Aggregates
