import Piki.Transition
import Piki.Table
import Piki.Contracts
import Piki.Conversations
import Piki.ProcessingFencing
import Piki.OutboxRows
import Piki.DeliveryStore
import Piki.DeliveryCallbacks
import Piki.GroundingNumbers
import Piki.Provenance
import Piki.Answers
import Piki.Isolation
import Piki.WorkerAttempts
import Piki.WorkerCompletion
import Piki.WorkerContention
import Piki.WorkerHistory
import Piki.WorkerFailures
import Piki.WorkerSurvival
import Piki.WorkerWindow
import Piki.DeliveryAttempts
import Piki.PromptEncoding
import Piki.ConversationLock
import Piki.Retry
import Piki.HandoffPause
import Piki.IngressConvergence
import Piki.Handoffs
import Piki.CustomerOrders
import Piki.Identifiers
import Piki.CallbackOrder
import Piki.DeliveryEmissions
import Piki.PendingActions
import Piki.CleanUps
import Piki.LLMProviders
import Piki.Sha256
import Piki.WebhookAuth
import Piki.MetaPayload
import Piki.WebhookReceive
import Piki.CallbackBatches
import Piki.Newest
import Piki.HistoryOrder
import Piki.ActivePicks
import Piki.PickImages
import Piki.MetaSend
import Piki.OrderEvidence
import Piki.TextWords
import Piki.GroundingDigits
import Piki.RiskAnchors
import Piki.FallbackGrounding
import Piki.WebhookFaithful
import Piki.MarkerSpacing
import Piki.AbsenceClaims
import Piki.ResponsesEnvelopes
import Piki.ReadRetries
import Piki.LineBreaks
import Piki.ChatMessages
import Piki.ArsAmounts
import Piki.SystemTables
import Piki.SystemRows
import Piki.SystemRuns
import Piki.SystemIntegrity
import Piki.SystemOnce
import Piki.SystemVoices
import Piki.Descent
import Piki.WorkerDrain
import Piki.DeliveryAgreement
import Piki.Leases
import Piki.TurnExclusion
import Piki.TurnHistories
import Piki.StatusEvents
import Piki.WebhookHandlers
import Piki.WebhookAnswers
import Piki.WebhookRedelivery
