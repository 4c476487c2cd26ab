import NameBinding.Conversion.Cost
import NameBinding.Conversion.Qualification
import NameBinding.Conversion.Standard
import NameBinding.Conversion.UserDefined
import NameBinding.Descriptor.Basic
import NameBinding.Descriptor.Flags
import NameBinding.Descriptor.Kind
import NameBinding.Diagnostic
import NameBinding.Error
import NameBinding.Inheritance.Basic
import NameBinding.Inheritance.Visibility
import NameBinding.Journal
import NameBinding.Lookup.Associated
import NameBinding.Lookup.Basic
import NameBinding.Lookup.Collect
import NameBinding.Lookup.Directive
import NameBinding.Lookup.Filter
import NameBinding.Lookup.Inherited
import NameBinding.Lookup.Position
import NameBinding.Lookup.Query
import NameBinding.Lookup.UsingDeclaration
import NameBinding.Name
import NameBinding.Overload.Candidate
import NameBinding.Overload.Resolution
import NameBinding.Symbol.Basic
import NameBinding.Symbol.Declarations
import NameBinding.Symbol.Edit
import NameBinding.SymbolId
import NameBinding.Table.Attach
import NameBinding.Table.Basic
import NameBinding.Table.Create
import NameBinding.Table.Identity
import NameBinding.Table.Redeclaration
import NameBinding.Table.Rendering
import NameBinding.Table.Scope
import NameBinding.Table.Signature
import NameBinding.Table.Transaction
import NameBinding.Template.Argument
import NameBinding.Template.Copy
import NameBinding.Template.Deduction
import NameBinding.Template.ExplicitSpecialization
import NameBinding.Template.Instantiate
import NameBinding.Template.Resolution
import NameBinding.Template.Specialization
import NameBinding.Template.State
import NameBinding.Template.Substitution
import NameBinding.Text.LetterCase
import NameBinding.Text.Lowercase
import NameBinding.Traversal
import NameBinding.Proofs.Symbol.Reversal
import NameBinding.Proofs.Table.Unwind
import NameBinding.Proofs.Template.CopySteps
import NameBinding.Proofs.Template.Copying
import NameBinding.Proofs.Template.Outermost
import NameBinding.Proofs.Table.Evolution
import NameBinding.Proofs.Lookup.Keeps
import NameBinding.Proofs.Table.Mutators
import NameBinding.Proofs.Operation.Reachable
import NameBinding.Proofs.Operation.Rollback
import NameBinding.Proofs.Operation.Marks
import NameBinding.Proofs.Template.HalfBuilt
import NameBinding.Proofs.Table.Rejected
import NameBinding.Proofs.Table.Links
import NameBinding.Proofs.Table.ForwardDeclarations
import NameBinding.Proofs.Symbol.Mentions
import NameBinding.Proofs.Table.Represented
import NameBinding.Proofs.Table.Changes
import NameBinding.Proofs.Analysis.Moves
import NameBinding.Proofs.Template.DeducedArguments
import NameBinding.Proofs.Template.InstanceMoves
import NameBinding.Proofs.Template.CopyMoves
import NameBinding.Proofs.Template.SubstitutionMoves
import NameBinding.Proofs.Template.Reading
import NameBinding.Proofs.Template.InstantiationMoves
import NameBinding.Proofs.Overload.Dominance
import NameBinding.Proofs.Overload.Assessments
import NameBinding.Proofs.Overload.Moves
import NameBinding.Proofs.Lookup.Moves
import NameBinding.Proofs.Table.MutatorMoves
import NameBinding.Proofs.Table.LinkMoves
import NameBinding.Proofs.Operation.Representation
import NameBinding.Proofs.Operation.Acyclic
import NameBinding.Proofs.Table.Signatures
import NameBinding.Proofs.Table.Unambiguous
import NameBinding.Proofs.Table.Checking
import NameBinding.Proofs.Table.Preparing
import NameBinding.Proofs.Table.Declaring
import NameBinding.Proofs.Operation.Remembered
import NameBinding.Proofs.Lookup.Exact
import NameBinding.Proofs.Operation.Declarations
import NameBinding.Proofs.Table.Growth
import NameBinding.Proofs.Table.Typedefs
import NameBinding.Proofs.Template.SameArguments
import NameBinding.Proofs.Table.Asking
import NameBinding.Proofs.Template.Repetition
import NameBinding.Proofs.Template.Completed
import NameBinding.Proofs.Operation.Repetition
import NameBinding.Proofs.Operation.Questions
import NameBinding.Proofs.Template.PlainArguments
import NameBinding.Proofs.Operation.Specialized
import NameBinding.Proofs.Operation.CompletedTemplates
import NameBinding.Proofs.Traversal
import NameBinding.Proofs.Lookup.Outcome
import NameBinding.Proofs.Lookup.Nominated
import NameBinding.Proofs.Inheritance.Acyclic
import NameBinding.Proofs.Inheritance.Subobjects
import NameBinding.Proofs.Table.Skeleton
import NameBinding.Proofs.Lookup.Inherited
import NameBinding.Proofs.Table.Enclosing
import NameBinding.Proofs.Lookup.Levels
import NameBinding.Proofs.Lookup.Outward
import NameBinding.Proofs.Lookup.Merging
import NameBinding.Proofs.Lookup.Alike
import NameBinding.Proofs.Lookup.DirectiveOrder
import NameBinding.Proofs.Inheritance.Circles
import NameBinding.Proofs.Inheritance.Ways
import NameBinding.Proofs.Inheritance.Surveys
import NameBinding.Proofs.Template.Failures
import NameBinding.Proofs.Lookup.CircularBases
import NameBinding.Proofs.Lookup.MemberAccess
import NameBinding.Proofs.Lookup.Exclusion
import NameBinding.Proofs.Lookup.Overloads
import NameBinding.Proofs.Lookup.Listing
import NameBinding.Proofs.Lookup.Gathered
import NameBinding.Proofs.Lookup.InheritedListing
import NameBinding.Proofs.Table.Interned
import NameBinding.Proofs.Lookup.Completion
import NameBinding.Proofs.Lookup.Ambiguities
import NameBinding.Proofs.Operation.UsingDeclaration
import NameBinding.Proofs.Conversion.Ranks
import NameBinding.Proofs.Conversion.Resolved
import NameBinding.Proofs.Table.Spellings
import NameBinding.Proofs.Inheritance.Arrivals
import NameBinding.Proofs.Lookup.Hiding
import NameBinding.Proofs.Table.FunctionLinks
import NameBinding.Proofs.Overload.Prototypes
import NameBinding.Proofs.Template.MemberPointers
import NameBinding.Proofs.Template.Matching
import NameBinding.Proofs.Template.Selection
import NameBinding.Proofs.Template.SelfReferences
import NameBinding.Proofs.Template.SelfInstances
import NameBinding.Proofs.Template.FoundInstances
import NameBinding.Proofs.Template.Adoption
import NameBinding.Proofs.Template.Origins
import NameBinding.Proofs.Template.TemplateOrder
import NameBinding.Proofs.Overload.Renaming
import NameBinding.Proofs.Overload.Ties
import NameBinding.Proofs.Overload.CandidateOrder
import NameBinding.Proofs.Template.ReadNames
import NameBinding.Proofs.Symbol.Outline
import NameBinding.Proofs.Template.UnderwayCopies
import NameBinding.Proofs.Template.MirroredCopies
import NameBinding.Proofs.Template.CompleteCopies
import NameBinding.Proofs.Conversion.Ladder
import NameBinding.Proofs.Inheritance.Distance
import NameBinding.Proofs.Conversion.PointerRanks
import NameBinding.Proofs.Conversion.BestFunction
import NameBinding.Proofs.Conversion.GenuineFunction
import NameBinding.Proofs.Lookup.HiddenTags
import NameBinding.Proofs.Operation.FailedUsing
import NameBinding.Proofs.Table.Flattening
import NameBinding.Proofs.Lookup.AssociatedClasses
