import SchemaPress.CommandLine.Run
import SchemaPress.Main
import SchemaPress.Proofs.BundleOrder
import SchemaPress.Unchecked
import SchemaPress.Proofs.Deferral
import SchemaPress.Proofs.Mentions
import SchemaPress.Proofs.PlainPlans
import SchemaPress.Proofs.SeparateModules
import SchemaPress.Proofs.Strategies
import SchemaPress.Proofs.BundleText
import SchemaPress.Proofs.UsablePlans
import SchemaPress.Proofs.BestEffort
import SchemaPress.Proofs.Barrels
import SchemaPress.Proofs.Locality
import SchemaPress.Proofs.FileWrites
import SchemaPress.Proofs.BundleRuns
import SchemaPress.Proofs.SupportSections
import SchemaPress.Proofs.DeclaredNames
import SchemaPress.Proofs.CodeSpreads
import SchemaPress.Proofs.MergedSpreads
import SchemaPress.Proofs.LexicalPlaces
import SchemaPress.Proofs.OutputPlaces
import SchemaPress.Proofs.Pointers
import SchemaPress.Proofs.Drafts
import SchemaPress.Proofs.FormatterProtocol
import SchemaPress.Proofs.UnrunFormatter
import SchemaPress.Proofs.SchemaWalks
import SchemaPress.Proofs.DependencyTrees
import SchemaPress.Proofs.PlanDescriptions
import SchemaPress.Proofs.RecursiveVisits
import SchemaPress.Proofs.TransposedDependencies
import SchemaPress.Proofs.ObjectShapes
import SchemaPress.Proofs.ImportBlocks
import SchemaPress.Proofs.RelativePaths
import SchemaPress.Proofs.ImportSpecifiers
import SchemaPress.Proofs.CodeTexts
import SchemaPress.Proofs.ShownReferences
import SchemaPress.Proofs.MergedObjects
import SchemaPress.Proofs.CuratedFields
import SchemaPress.Proofs.OfferedFields
import SchemaPress.Proofs.ReadSchemas
import SchemaPress.Proofs.HonouredOverrides
import SchemaPress.Proofs.PropertyKeys
import SchemaPress.Proofs.DocComments
import SchemaPress.Proofs.ReadLiterals
import SchemaPress.Proofs.AtomicWrites
import SchemaPress.Proofs.FirstOccurrences
import SchemaPress.Proofs.Identifiers
