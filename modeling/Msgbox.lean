import Msgbox.Spec.Lifetime
import Msgbox.Spec.Dangling
import Msgbox.Spec.TimeoutError
import Msgbox.Spec.Delivery
import Msgbox.Spec.FiniteMap
import Msgbox.Spec.Descriptors
import Msgbox.Spec.Addresses
import Msgbox.Spec.Received
import Msgbox.Spec.Unmatched
import Msgbox.Spec.AddressText
import Msgbox.Spec.SendAll
import Msgbox.Spec.Output
import Msgbox.Spec.Opening
import Msgbox.Spec.Connecting
import Msgbox.Spec.Reconnecting
import Msgbox.Spec.RoundTrip
import Msgbox.Lib.Cycles
import Msgbox.Spec.Remotes
import Msgbox.Spec.Serving
import Msgbox.Spec.Lifecycle
import Msgbox.Spec.Contexts
import Msgbox.LinkedList
import Msgbox.Spec.LinkedLists
import Msgbox.MapMemory
import Msgbox.Spec.BucketLists
import Msgbox.Spec.MapRefined
import Msgbox.ArrayStruct
import Msgbox.Spec.Arrays
import Msgbox.Spec.PollPass
import Msgbox.Spec.Answers
import Msgbox.Spec.Network
import Msgbox.Spec.Closings
import Msgbox.Spec.OwnContexts
