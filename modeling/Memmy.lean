import Memmy.AgentChat.OpenChat
import Memmy.AgentRuntime.Checkpoint
import Memmy.AgentRuntime.QueueOrder
import Memmy.AgentRuntime.SnipHistory
import Memmy.AgentRuntime.Requests
import Memmy.Evidence.Freshness
import Memmy.Conversation.Compaction
import Memmy.Conversation.ExactSave
import Memmy.Conversation.Storage
import Memmy.Conversation.TranscriptFile
import Memmy.Conversation.Window
import Memmy.Cron.Completion
import Memmy.Cron.Once
import Memmy.Desktop.Mirror
import Memmy.Goal.Stranded
import Memmy.Providers.Streamed
import Memmy.SessionDag.ActivePath
import Memmy.SessionDag.CurrentTask
import Memmy.SessionDag.GoalRules
import Memmy.SessionDag.Slots
import Memmy.SessionDag.TaskChain
import Memmy.SessionDag.Worker
import Memmy.Service.Feedback
import Memmy.Service.FeedbackExperience
import Memmy.Service.NegativeExperience
import Memmy.Storage.EmbeddingRetries
import Memmy.Skills.Support
import Memmy.Skills.Trials
import Memmy.Storage.PanelChanges
import Memmy.Storage.Partition
import Memmy.Storage.JobTable
import Memmy.Storage.Triggers
import Memmy.Tools.AllOrNothing
import Memmy.SkillClusters.Kept
import Memmy.Bundle.Redaction
import Memmy.Streams.SameResponse
import Memmy.Security.UrlGuard
import Memmy.Capture.RecallFeedback
import Memmy.Reward.BatchReflection
import Memmy.Reward.Complete
import Memmy.AgentSource.Control
import Memmy.Mcp.Ownership
import Memmy.Storage.WorldModel
import Memmy.WorkMemory.Decisions
import Memmy.Retrieval.CrossAccount
import Memmy.Goal.CountedOnce
