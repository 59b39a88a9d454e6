import LocalModelWorks.Agent.Contained
import LocalModelWorks.Agent.Publish
import LocalModelWorks.Agent.TreeDigest
import LocalModelWorks.Deploy.Monotone
import LocalModelWorks.Downloads.Lifecycle
import LocalModelWorks.Downloads.Storage
import LocalModelWorks.Downloads.Safety
import LocalModelWorks.Events.Resume
import LocalModelWorks.Fabric.Service
import LocalModelWorks.Jobs.Completion
import LocalModelWorks.Plan.Complete
import LocalModelWorks.Plan.Ports
import LocalModelWorks.Recipe.Installed
import LocalModelWorks.Recipe.SavedChanges
import LocalModelWorks.RecipeBuilder.Comparison
import LocalModelWorks.RecipeBuilder.Reviewed
import LocalModelWorks.Runs.Interleaving
import LocalModelWorks.Runs.Ledger
import LocalModelWorks.Server.Enroll
import LocalModelWorks.Server.Progress
import LocalModelWorks.Server.Sessions
import LocalModelWorks.SourceConfig.MergeLines
import LocalModelWorks.Update.Restore
import LocalModelWorks.Upstream.Configuration
import LocalModelWorks.Upstream.Installation
import LocalModelWorks.Upstream.Path
import LocalModelWorks.Upstream.Release
import LocalModelWorks.WorkerSsh.Commands
import LocalModelWorks.Endpoint
import LocalModelWorks.Identifier
import LocalModelWorks.Recipe.Numbers
import LocalModelWorks.Runs.Listing
import LocalModelWorks.Agent.Reconcile
import LocalModelWorks.Runs.LogStream
import LocalModelWorks.Agent.Mirror
import LocalModelWorks.Serving.Probe
import LocalModelWorks.Commands.Broker
import LocalModelWorks.Recipe.Registration
import LocalModelWorks.Recipe.Repositories
import LocalModelWorks.Diag.Compaction
import LocalModelWorks.Cjson
import LocalModelWorks.Recipe.ShellView
