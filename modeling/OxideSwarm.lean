import OxideSwarm.Queue.Ownership
import OxideSwarm.Master.Stranded
import OxideSwarm.Master.Slots
import OxideSwarm.Blob.Pinned
import OxideSwarm.Queue.Room
import OxideSwarm.Queue.Retries
import OxideSwarm.Queue.Delayed
import OxideSwarm.Wire.Transport
import OxideSwarm.Auth.Agreement
import OxideSwarm.Master.Pins
import OxideSwarm.Queue.Failures
import OxideSwarm.Scheduler.FreeSlots
import OxideSwarm.Master.Cancels
import OxideSwarm.Worker.RoundTrip
import OxideSwarm.Mesh.Identity
import OxideSwarm.Worker.Delivery
import OxideSwarm.Queue.Failover
import OxideSwarm.Scheduler.DeadShapes
import OxideSwarm.Queue.Walk
import OxideSwarm.Queue.Recent
import OxideSwarm.Master.Unfulfillable
import OxideSwarm.Master.Output
import OxideSwarm.Worker.Returned
import OxideSwarm.Worker.Guards
import OxideSwarm.Core.Constraints
import OxideSwarm.Master.Reduce
