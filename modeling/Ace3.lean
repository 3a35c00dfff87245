import Ace3.Analysis.DependencyOrder
import Ace3.Database.IndexExactness
import Ace3.Engine.MutualExclusion
import Ace3.Engine.LockLoss
import Ace3.Engine.AtMostOnce
import Ace3.Engine.WakeUp
import Ace3.Engine.DetectionAlerts
import Ace3.Engine.DrainedDone
import Ace3.Engine.TransferWhole
import Ace3.Engine.DeclaredDependencies
import Ace3.App.FilterMeaning
import Ace3.Collectors.PermitBalance
import Ace3.Collectors.SuppressionWindows
import Ace3.Crypto.PasswordChange
import Ace3.EmailArchive.ReadBack
import Ace3.Cache.BlobReferences
import Ace3.Cache.BlobCollection
import Ace3.Analysis.ReplayFailure
import Ace3.Analysis.FileManager
import Ace3.Collectors.HuntCoverage
import Ace3.Analysis.TreeReferences
import Ace3.Analysis.DetectionChain
import Ace3.Correlation.Routing
import Ace3.Correlation.TraceSecrets
import Ace3.Correlation.Memoisation
import Ace3.Correlation.ConditionErrors
import Ace3.Correlation.MergeOrder
import Ace3.NetworkSemaphore.HolderLimit
import Ace3.Collectors.StagedSubmissions
import Ace3.Collectors.WorkloadCleanup
import Ace3.Collectors.DeliveryCoverage
import Ace3.Collectors.NodeRouting
import Ace3.Remediation.Cancellation
import Ace3.Remediation.PendingCollections
import Ace3.HuntCompiler.Containment
import Ace3.HuntCompiler.Faithfulness
import Ace3.Observables.TypeHierarchy
import Ace3.Analysis.CacheHit
import Ace3.Cache.CacheKey
import Ace3.ObservableModifier.TreeScopes
import Ace3.ObservableModifier.IgnoreAction
import Ace3.Query.FlatteningOrder
import Ace3.Query.RelationshipTracking
import Ace3.Query.SummaryDetails
import Ace3.Query.UntouchedEvent
import Ace3.Remediation.History
import Ace3.Database.BoundedRetries
import Ace3.Observables.DetectionStatus
import Ace3.Database.DispositionReviews
import Ace3.App.ApiAccess
import Ace3.Collectors.HuntIncludes
import Ace3.Collectors.EventGrouping
import Ace3.Email.ConversationCaps
import Ace3.NetworkSemaphore.PermitChannels
import Ace3.Util.DateRange
import Ace3.Nrd.DomainLookup
import Ace3.Analysis.CorrelatedTags
import Ace3.Export.YaraLiterals
import Ace3.Observables.DetectionFiring
import Ace3.Analysis.ExclusionList
import Ace3.Collectors.HuntStateDir
import Ace3.Analysis.ObservableKeys
import Ace3.App.FilterUrl
