import Packetia.Reorder.Delivery
import Packetia.Sender.Resume
import Packetia.H264.Frames
import Packetia.H264.RoundTrip
import Packetia.Twcc.Feedback
import Packetia.Rtcp.RoundTrip
import Packetia.Downlink.Stability
import Packetia.Nack.MissingSet
import Packetia.SendSide.Attribution
import Packetia.Memory.Exhaustion
import Packetia.Stun.RoundTrip
import Packetia.Ice.Nomination
import Packetia.Turn.Limits
import Packetia.Turn.Integrity
import Packetia.Channel.Accounting
import Packetia.Room.Interleaving
import Packetia.Room.Bookkeeping
import Packetia.Cluster.Lease
import Packetia.WebRtc.Deliveries
import Packetia.Account.Sessions
import Packetia.Sdp.Agreement
import Packetia.Record.Queue
import Packetia.Transcode.Continuity
import Packetia.Auth.JoinToken
import Packetia.Resume.Classifier
import Packetia.Rtp.Rtx
import Packetia.Rtp.Unwrapping
import Packetia.Rtcp.Decoding
import Packetia.Rtcp.Rtt
import Packetia.Turn.Credentials
import Packetia.Reorder.Deadline
