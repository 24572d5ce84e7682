import Llmleaf.Lib.Runs
import Llmleaf.Route
import Llmleaf.RateLimit
import Llmleaf.RateLimit.Bound
import Llmleaf.RateLimit.Size
import Llmleaf.RateLimit.Rollback
import Llmleaf.Topology
import Llmleaf.Topology.Layer
import Llmleaf.Topology.Base
import Llmleaf.Topology.Converge
import Llmleaf.Topology.Carry
import Llmleaf.Topology.Cooldown
import Llmleaf.Dispatch.Availability
import Llmleaf.Dispatch.Sites
import Llmleaf.Dispatch.Budget
import Llmleaf.Pipeline.Brackets
import Llmleaf.Pipeline.Accounting
import Llmleaf.Pipeline.Billing
import Llmleaf.Pipeline.Screening
import Llmleaf.Providers.Usage
import Llmleaf.Keys
import Llmleaf.Keys.Names
import Llmleaf.Keys.Pulls
import Llmleaf.Keys.Wildcard
import Llmleaf.Keys.CacheBound
import Llmleaf.Keys.Roster
import Llmleaf.Keys.Buffer
import Llmleaf.Oauth.Cache
import Llmleaf.Compat.Openai
import Llmleaf.Compat.Anthropic.Reading
import Llmleaf.Compat.Responses.Items
import Llmleaf.Batch.Owner
import Llmleaf.Batch.Codec
import Llmleaf.Server.Listing
import Llmleaf.Server.RoutesBack
import Llmleaf.Providers.Cohere
import Llmleaf.Providers.GeminiRequest
import Llmleaf.Providers.MoonshotTame
import Llmleaf.Providers.NodeHop
import Llmleaf.Providers.Cutoff
import Llmleaf.Providers.ChatThrough
import Llmleaf.Providers.MessagesThrough
import Llmleaf.Providers.ResultLines
import Llmleaf.Realtime.Models
import Llmleaf.Realtime.Turns
import Llmleaf.Realtime.History
import Llmleaf.Realtime.Probe
import Llmleaf.OutputCap
import Llmleaf.Providers.BatchUrls
import Llmleaf.Providers.BatchCreate
import Llmleaf.Providers.Ollama
import Llmleaf.Providers.BatchHop
import Llmleaf.Web.Issue
import Llmleaf.Web.Attribution
import Llmleaf.Web.BatchUsage
import Llmleaf.Web.Throttle
import Llmleaf.Control.Metering
import Llmleaf.Web.Wire
import Llmleaf.Control.Refresh
import Llmleaf.Compat.Modalities
import Llmleaf.Lib.Forms
import Llmleaf.Lib.Relay
import Llmleaf.Providers.Modalities
import Llmleaf.Providers.ModalityHops
import Llmleaf.Web.Redirect
import Llmleaf.Web.SignIn
import Llmleaf.Client.Received
