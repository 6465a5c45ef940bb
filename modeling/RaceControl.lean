import RaceControl.FrameRule
import RaceControl.Node
import RaceControl.Uplink
import RaceControl.Broadcast
import RaceControl.Downlink
import RaceControl.Library.StartOnce
import RaceControl.TaskStart
import RaceControl.RootReply
import RaceControl.Subscription
import RaceControl.Library.History
import RaceControl.Network
import RaceControl.Provenance
import RaceControl.Storm
import RaceControl.TopicFormat
import RaceControl.ReplyEncoding
import RaceControl.Dispatch
import RaceControl.Terminator
import RaceControl.Library.Leb128
import RaceControl.Nanopb.Varint
import RaceControl.Nanopb.Wire
import RaceControl.Nanopb.Concat
import RaceControl.Nanopb.Codec
import RaceControl.RoundTrip
import RaceControl.Lifecycle
import RaceControl.Delivery
import RaceControl.Conservation
import RaceControl.Library.BitFields
import RaceControl.Nanopb.Descriptor
import RaceControl.Nanopb.Iterator
import RaceControl.Descriptors
import RaceControl.Structs
import RaceControl.Indicator
import RaceControl.Library.Record
import RaceControl.Nanopb.StructField
import RaceControl.Nanopb.StructLoop
import RaceControl.Nanopb.StructView
import RaceControl.Nanopb.StructKinds
