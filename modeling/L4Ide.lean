import L4Ide.BooleanDecisionQueryCorrect
import L4Ide.StateGraphReachability
import L4Ide.StateGraphRuntime
import L4Ide.CoverageAnalysisTiers
import L4Ide.OperatorStatus
import L4Ide.Residuation
import L4Ide.UnificationMostGeneral
import L4Ide.EditorQueryPlanSimplified
import L4Ide.CompatibilitySound
import L4Ide.SanitizedNamesRoundTrip
import L4Ide.PartialEvalConsistent
import L4Ide.LadderPaths
import L4Ide.ImportResolutionCorrect
import L4Ide.BundleStoreCrashes
import L4Ide.StoppedTurns
import L4Ide.DeployJobsRuns
import L4Ide.ConversationWritesKept
import L4Ide.RunLeasesFenced
import L4Ide.ResilientStreamExact
import L4Ide.CloudCommandsKept
import L4Ide.WorkspaceToolsPermitted
import L4Ide.NodeWorkspaceConfined
import L4Ide.Dictionaries
import L4Ide.JsonSchemasClosed
import L4Ide.EventPollerInOrder
import L4Ide.CredentialsConfined
import L4Ide.ChatPipelineKept
import L4Ide.RollBackRestores
import L4Ide.RationalCoreExact
import L4Ide.RationalDoubles
import L4Ide.TransformNormal
import L4Ide.InputRefsClosed
import L4Ide.ForkedChoice
import L4Ide.OperatorTrees
import L4Ide.RedundantClauses
import L4Ide.ComputedFieldCapture
import L4Ide.TokenLexerLossless
import L4Ide.QueryPlanAsks
import L4Ide.SynonymExpansion
import L4Ide.DateSerialsInverse
import L4Ide.AnnotationLookups
import L4Ide.RefusalsUncaught
import L4Ide.RenderedChains
import L4Ide.MixfixProjections
import L4Ide.EvalTracesAgree
import L4Ide.LadderSelectionExact
import L4Ide.EditGuard
import L4Ide.EditRounds
import L4Ide.KeyChain
import L4Ide.RenameEdits
import L4Ide.WorkspaceEdits
import L4Ide.AnchoredEdits
import L4Ide.DayDate
import L4Ide.MonthArithmetic
import L4Ide.WorkingDays
import L4Ide.WeekNumbers
import L4Ide.SourceRanges
import L4Ide.MessageDigest
import L4Ide.TextPositions
import L4Ide.CurrencyAmounts
