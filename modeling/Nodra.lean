import Nodra.Queue.Torn
import Nodra.Queue.Agreement
import Nodra.Store.Dedupe
import Nodra.Store.Crash
import Nodra.Store.Postgres
import Nodra.Server.Requeue
import Nodra.Server.Retries
import Nodra.Server.TwinUpdates
import Nodra.Server.CanaryWaves
import Nodra.Server.CampaignCompletion
import Nodra.Server.CampaignFailures
import Nodra.Server.CampaignAborts
import Nodra.Server.SiteIsolation
import Nodra.Server.EventIsolation
import Nodra.Server.Certificates
import Nodra.Agent.Ingest
import Nodra.Agent.Deployments
import Nodra.Agent.Progress
import Nodra.Agent.Rotation
import Nodra.Mqtt.Grants
import Nodra.Mqtt.Sessions
import Nodra.Mqtt.Acks
import Nodra.Mqtt.Inbound
import Nodra.Mqtt.ExactlyOnce
import Nodra.Mqtt.SessionQueues
import Nodra.Opcua.Browse
import Nodra.Opcua.Calls
import Nodra.Opcua.Poller
import Nodra.Audit.FileLog
import Nodra.Server.ConsoleSessions
