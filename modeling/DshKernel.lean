import DshKernel.Agent.CrashRuns
import DshKernel.Agent.InboxSplices
import DshKernel.Agent.RuntimeContext
import DshKernel.Agent.ToolOrder
import DshKernel.Agent.TurnEnds
import DshKernel.Agent.Wakes
import DshKernel.Compaction.ToolResultPruner
import DshKernel.Compaction.Transaction
import DshKernel.DeepSeek.SerializeAgree
import DshKernel.DeepSeek.WellFormed
import DshKernel.Files.NoBlindOverwrite
import DshKernel.Files.WholeWindow
import DshKernel.Gateway.JournalWindow
import DshKernel.Gateway.MuxRuns
import DshKernel.Gateway.RemoteEventRuns
import DshKernel.Goal.GoalRuns
import DshKernel.Jobs.JobLifecycle
import DshKernel.Jsonl.HandleFiles
import DshKernel.Jsonl.PathSegments
import DshKernel.Llm.PiContext
import DshKernel.Llm.PiStream
import DshKernel.Projection.Restore
import DshKernel.Retention.CodePointCuts
import DshKernel.Scope.ScopeRuns
import DshKernel.Session.Fork
import DshKernel.Session.GapArithmetic
import DshKernel.Session.StoreLifecycle
import DshKernel.Session.ToolResultRewrites
import DshKernel.SessionQuery.PageChains
import DshKernel.SessionQuery.Snippet
import DshKernel.Settings.KeptEdits
import DshKernel.Settings.Redact
import DshKernel.Settings.Revisions
import DshKernel.Spill.SweepRuns
import DshKernel.Subprocess.OutputCollector
import DshKernel.Titles.KeptTitles
import DshKernel.TokenMeter.StateSchemas
import DshKernel.Tools.AuthorCompile
import DshKernel.Tools.Visibility
import DshKernel.Util.Deque
import DshKernel.Values.DeepEqual
import DshKernel.Values.Snapshot
