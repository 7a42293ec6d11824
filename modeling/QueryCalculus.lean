import QueryCalculus.Alphabet
import QueryCalculus.Atom.Matching
import QueryCalculus.Command.Run
import QueryCalculus.Cube.Implication
import QueryCalculus.Datalog.Parser
import QueryCalculus.Formula.Explicit
import QueryCalculus.Main
import QueryCalculus.Proofs.Datalog.HeadVariables
import QueryCalculus.Proofs.Formula.ActiveAlphabet
import QueryCalculus.Proofs.Formula.Agreement
import QueryCalculus.Proofs.Formula.Binding
import QueryCalculus.Proofs.Formula.Equivalence
import QueryCalculus.Proofs.Formula.EvidentValidity
import QueryCalculus.Proofs.Formula.FlatForm
import QueryCalculus.Proofs.Formula.IntroducedNames
import QueryCalculus.Proofs.Formula.NamedBlanks
import QueryCalculus.Proofs.Formula.Nodes
import QueryCalculus.Proofs.Formula.NormalForms
import QueryCalculus.Proofs.Formula.Prefix
import QueryCalculus.Proofs.Formula.PrenexConversion
import QueryCalculus.Proofs.Formula.PrenexForm
import QueryCalculus.Proofs.Formula.PrenexVariables
import QueryCalculus.Proofs.Formula.Quantification
import QueryCalculus.Proofs.Formula.RangeRestriction
import QueryCalculus.Proofs.Formula.ReducedForm
import QueryCalculus.Proofs.Formula.RenamingApart
import QueryCalculus.Proofs.Formula.Simplification
import QueryCalculus.Proofs.FreshNames
import QueryCalculus.Proofs.Sparql.Correctness
import QueryCalculus.Proofs.Sparql.Evaluation
import QueryCalculus.Proofs.Sparql.Representation
import QueryCalculus.Proofs.Sparql.Selections
import QueryCalculus.Proofs.Sql.Columns
import QueryCalculus.Proofs.Sql.Correctness
import QueryCalculus.Proofs.Sql.Coverage
import QueryCalculus.Proofs.Sql.DistinctAliases
import QueryCalculus.Proofs.Sql.Evaluation
import QueryCalculus.Proofs.Sql.Literals
import QueryCalculus.Proofs.Sql.Normalization
import QueryCalculus.Proofs.Sql.Precedence
import QueryCalculus.Proofs.Sql.Projection
import QueryCalculus.Proofs.Sql.Quotation
import QueryCalculus.Proofs.Sql.References
import QueryCalculus.Proofs.Sql.Solutions
import QueryCalculus.Proofs.Sql.Tasks
import QueryCalculus.Proofs.Sql.Unions
import QueryCalculus.Semantics
import QueryCalculus.Settings
import QueryCalculus.Proofs.Failures
import QueryCalculus.Proofs.Sql.ConjunctiveQueries
import QueryCalculus.Proofs.Datalog.Grammar
import QueryCalculus.Proofs.Datalog.RoundTrip
import QueryCalculus.Proofs.Datalog.TokenRules
import QueryCalculus.Proofs.Datalog.Tokenization
import QueryCalculus.Proofs.Datalog.Constants
import QueryCalculus.Proofs.Datalog.Kinds
import QueryCalculus.Proofs.Cube.Classes
import QueryCalculus.Proofs.Cube.Satisfiability
import QueryCalculus.Proofs.Cube.Consequence
import QueryCalculus.Proofs.Cube.Saturation
import QueryCalculus.Proofs.Substitution
import QueryCalculus.Proofs.Cube.Containment
import QueryCalculus.Proofs.Datalog.Inconsistency
import QueryCalculus.Proofs.Cube.Order
import QueryCalculus.Proofs.Formula.NegationForms
import QueryCalculus.Proofs.Formula.NameClashes
import QueryCalculus.Proofs.Formula.Replacement
import QueryCalculus.Proofs.Formula.ReplacementInTurn
import QueryCalculus.Proofs.Matching
import QueryCalculus.Proofs.Formula.ExplodedAtoms
import QueryCalculus.Proofs.Declarations
import QueryCalculus.Proofs.Formula.ExplicitBlanks
import QueryCalculus.Proofs.Formula.PrintedLines
import QueryCalculus.Proofs.Formula.PrintedMeaning
