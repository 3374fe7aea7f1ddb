import GoCalls.Build.Header
import GoCalls.Calls.Scan
import GoCalls.Command.Run
import GoCalls.Config.Settings
import GoCalls.Graph.Format
import GoCalls.Main
import GoCalls.Module.Roots
import GoCalls.Project.Load
import GoCalls.Source.Lower
import GoCalls.Typing.Check
import GoCalls.Proofs.CallSites
import GoCalls.Proofs.TableChoice
import GoCalls.Proofs.Marks
import GoCalls.Proofs.Visits
import GoCalls.Proofs.IndexTypes
import GoCalls.Proofs.MethodNames
import GoCalls.Proofs.Passing
import GoCalls.Proofs.PassingParts
import GoCalls.Proofs.CheckedBodies
import GoCalls.Proofs.TopNames
import GoCalls.Proofs.ImportedCalls
import GoCalls.Proofs.ClosureScopes
import GoCalls.Proofs.Contributions
import GoCalls.Proofs.IntroducedNames
import GoCalls.Proofs.PredeclaredCalls
import GoCalls.Proofs.IndexAgreement
import GoCalls.Proofs.ReachableDeclarations
import GoCalls.Proofs.GraphNodes
import GoCalls.Proofs.Paths
import GoCalls.Proofs.FileTrees
import GoCalls.Proofs.ProjectFiles
import GoCalls.Proofs.PackageBuilds
import GoCalls.Proofs.LoadedFiles
import GoCalls.Proofs.Readers
import GoCalls.Proofs.ImportPaths
import GoCalls.Proofs.LoadFailures
import GoCalls.Proofs.ScopeBalance
import GoCalls.Proofs.TableNames
import GoCalls.Proofs.ConstraintGrammar
import GoCalls.Proofs.ConstraintTexts
import GoCalls.Proofs.ConstraintForms
import GoCalls.Proofs.ByteOrder
import GoCalls.Proofs.GraphListings
import GoCalls.Proofs.DotReading
import GoCalls.Proofs.JsonGrammar
import GoCalls.Proofs.JsonReading
import GoCalls.Proofs.GraphTexts
import GoCalls.Proofs.UniqueNumbers
import GoCalls.Proofs.EmbeddedMembers
import GoCalls.Proofs.UnderlyingTypes
import GoCalls.Proofs.AliasMeanings
import GoCalls.Proofs.HeaderScan
import GoCalls.Proofs.CommentLayouts
import GoCalls.Proofs.DeclarationOrder
import GoCalls.Proofs.FileOrder
import GoCalls.Proofs.PlainCalls
import GoCalls.Proofs.ClosureAssignments
import GoCalls.Proofs.ModuleCache
import GoCalls.Proofs.TypeTruncation
import GoCalls.Proofs.SyntaxPaths
import GoCalls.Proofs.TokenSpacing
import GoCalls.Proofs.WordRows
import GoCalls.Proofs.RequirementLines
import GoCalls.Proofs.CaseEncoding
