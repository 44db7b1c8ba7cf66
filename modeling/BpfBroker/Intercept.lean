import BpfBroker.Reference
import BpfBroker.Hash.Delivery
import BpfBroker.Clone.Datapath

/-! # What the Kernel Programs Intercept

    The programs take a frame out of the stack's hands when it looks like a
    publication at fixed offsets. A frame with IPv4 options, a later fragment,
    a frame of another version or one with bytes behind its datagram can look
    like one without being one. -/

namespace BpfBroker

open Reference

end BpfBroker
