import MetadataGraph.Session.CleanWrites
import MetadataGraph.Session.UndoChain
import MetadataGraph.Session.Rollback
import MetadataGraph.Session.Broadcast
import MetadataGraph.Session.Ledger
import MetadataGraph.Session.Budget
import MetadataGraph.Session.Edits
import MetadataGraph.Session.Integrity
import MetadataGraph.Client.Admission
import MetadataGraph.Client.Editing
import MetadataGraph.Client.Mirror
import MetadataGraph.Graph.Replay
import MetadataGraph.Graph.RoundTrip
import MetadataGraph.Execution.Exclusion
import MetadataGraph.Agents.Truth
import MetadataGraph.Events.Delivery
import MetadataGraph.Events.Dispatcher
import MetadataGraph.Federation.Events
import MetadataGraph.Agents.Consistency
import MetadataGraph.Api.Gate
import MetadataGraph.Gateway.Codes
import MetadataGraph.Gateway.RoundTrip
import MetadataGraph.Agents.Scheduler
import MetadataGraph.Chat.Actions
import MetadataGraph.Gateway.Redirects
import MetadataGraph.Skills.Cleanliness
import MetadataGraph.Lib.FirstOfKey
import MetadataGraph.Skills.Progressive
import MetadataGraph.Service.Access
import MetadataGraph.Service.Search
import MetadataGraph.Service.Page
import MetadataGraph.Service.Ranking
import MetadataGraph.Service.Similarity
import MetadataGraph.Lib.LayeredSearch
import MetadataGraph.Service.Related
import MetadataGraph.Annotations.Builders
import MetadataGraph.Annotations.Exactness
import MetadataGraph.Annotations.AgentEdits
import MetadataGraph.Session.Throttle
import MetadataGraph.Canvas.Freehand
import MetadataGraph.Canvas.Distribute
import MetadataGraph.Graph.Sidecar
import MetadataGraph.Session.Presence
import MetadataGraph.Annotations.ImageIngest
import MetadataGraph.Api.Login
import MetadataGraph.Client.Diff
import MetadataGraph.Client.Drift
import MetadataGraph.Session.Versions
import MetadataGraph.Client.Prediction
import MetadataGraph.Client.Acks
import MetadataGraph.Client.SoleWriter
import MetadataGraph.Canvas.GraphLayout
import MetadataGraph.Session.Conflicts
import MetadataGraph.Events.AutoAdd
import MetadataGraph.Session.Handed
import MetadataGraph.Graph.Frames
import MetadataGraph.Service.Mutations
import MetadataGraph.Service.Adoption
import MetadataGraph.Service.SavedViews
