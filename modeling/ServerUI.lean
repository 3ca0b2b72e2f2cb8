import ServerUI.Action.Request
import ServerUI.Identifier
import ServerUI.Json.Writer
import ServerUI.Registry.Shared
import ServerUI.Settings
import ServerUI.Callback
import ServerUI.Client
import ServerUI.Clock
import ServerUI.Container
import ServerUI.Log.Output
import ServerUI.Metrics.Exposition
import ServerUI.Scenario.Catalog
import ServerUI.Scenario.Probe
import ServerUI.Scenario.Script
import ServerUI.Scenario.Session
import ServerUI.Proofs.Action.Identity
import ServerUI.Proofs.Container.FirstRequest
import ServerUI.Proofs.Descriptor.NormalForm
import ServerUI.Proofs.Descriptor.Premade
import ServerUI.Proofs.Descriptor.Spelling
import ServerUI.Proofs.Dispatch.Accounting
import ServerUI.Proofs.Dispatch.ApiFailures
import ServerUI.Proofs.Dispatch.Order
import ServerUI.Proofs.Dispatch.Quantity
import ServerUI.Proofs.Dispatch.Sequence
import ServerUI.Proofs.Dispatch.UpFront
import ServerUI.Proofs.Identifier.DateTime
import ServerUI.Proofs.Json.RoundTrip
import ServerUI.Proofs.Payload.Encoded
import ServerUI.Proofs.Payload.Identified
import ServerUI.Proofs.Payload.Stages
import ServerUI.Proofs.Registry.Snapshots
import ServerUI.Proofs.Render.Bounded
import ServerUI.Proofs.Render.FirstItem
import ServerUI.Proofs.Render.Parsed
import ServerUI.Proofs.Render.PostOrder
import ServerUI.Proofs.Render.Props
import ServerUI.Proofs.Render.Repeated
import ServerUI.Proofs.Render.Surroundings
import ServerUI.Proofs.Render.Termination
import ServerUI.Proofs.Run.Scopes
import ServerUI.Proofs.Trace.Screen
