import OpenURMA.Apps.KvServer
import OpenURMA.Codec.Accessors
import OpenURMA.Eval.Cache
import OpenURMA.Memory.ArrayBounds
import OpenURMA.Memory.Coherence
import OpenURMA.Memory.InlineWrite
import OpenURMA.Memory.LoadStore
import OpenURMA.Memory.MrMap
import OpenURMA.Memory.Rejection
import OpenURMA.Memory.ResponseData
import OpenURMA.Nic.Descriptors
import OpenURMA.Nic.Interrupt
import OpenURMA.Nic.Matching
import OpenURMA.Nic.PacketBounds
import OpenURMA.Ordering.CompletionData
import OpenURMA.Ordering.Fence
import OpenURMA.Ordering.Outstanding
import OpenURMA.Ordering.Overtaking
import OpenURMA.Ordering.RoiOrder
import OpenURMA.Ordering.RotExtensions
import OpenURMA.Ordering.RotOrder
import OpenURMA.Ordering.RotProgress
import OpenURMA.Ordering.Wholeness
import OpenURMA.Provider.CompletionOrder
import OpenURMA.Provider.CompletionStatus
import OpenURMA.Provider.SubmitFifo
import OpenURMA.Provider.Tokens
import OpenURMA.Provider.WireQueue
import OpenURMA.Roce.AckPath
import OpenURMA.Roce.Dcqcn
import OpenURMA.Roce.QpRx
import OpenURMA.Transport.AtMostOnce
import OpenURMA.Transport.Bidirectional
import OpenURMA.Transport.CongestionWindow
import OpenURMA.Transport.EndToEnd
import OpenURMA.Transport.Isolation
import OpenURMA.Transport.Provisioning
import OpenURMA.Transport.PsnAllocation
import OpenURMA.Transport.RetransWindow
import OpenURMA.Transport.RtoTimer
import OpenURMA.Transport.SelectiveAck
import OpenURMA.Verbs.CompareSwap
import OpenURMA.Verbs.PollJfc
import OpenURMA.Verbs.RecvQueue
import OpenURMA.Verbs.Tassns
