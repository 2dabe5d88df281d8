import TestScaffold.Syntax.Listing
import TestScaffold.Scaffold.Probe
import TestScaffold.Main
import TestScaffold.Proofs.CallTrace
import TestScaffold.Proofs.WellFormed
import TestScaffold.Proofs.Insertion
import TestScaffold.Proofs.TopLevelNames
import TestScaffold.Proofs.LowerCase
import TestScaffold.Proofs.Formals
import TestScaffold.Proofs.CallScope
import TestScaffold.Proofs.CallHead
import TestScaffold.Proofs.TestCoverage
import TestScaffold.Proofs.MockAgreement
import TestScaffold.Proofs.CommentFree
import TestScaffold.Proofs.ImportTokens
import TestScaffold.Proofs.ImportReading
import TestScaffold.Proofs.ImportFaithful
import TestScaffold.Proofs.SharedScaffolds
import TestScaffold.Proofs.UnitPlaces
import TestScaffold.Proofs.FaultReports
import TestScaffold.Proofs.SurfaceGrowth
import TestScaffold.Proofs.PlainAccesses
import TestScaffold.Proofs.UsageGroups
import TestScaffold.Proofs.PromotedFunction
import TestScaffold.Proofs.ReportedDiagnostics
import TestScaffold.Proofs.GrownTrees
import TestScaffold.Proofs.AttachedFunctions
import TestScaffold.Proofs.ClassMembers
import TestScaffold.Proofs.BodyFacts
import TestScaffold.Proofs.CallSites
import TestScaffold.Proofs.RequiredNames
import TestScaffold.Proofs.InstanceSetup
import TestScaffold.Proofs.OutputPaths
import TestScaffold.Proofs.SourceFiles
import TestScaffold.Proofs.Layout
import TestScaffold.Proofs.DistinctImports
import TestScaffold.Proofs.Traversal
import TestScaffold.Proofs.CollectingTraversals
import TestScaffold.Proofs.QuotedTexts
import TestScaffold.Proofs.Rendering
