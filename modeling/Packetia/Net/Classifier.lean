import Packetia.Lib.Bytes

/-!
# Classes of datagrams

`DatagramProtocolClassifier` (`network/transport/DatagramProtocolClassifier.cpp`): which protocol a
datagram belongs to, by its first bytes.
-/

namespace Packetia.Net

inductive DatagramProtocol
  | stun
  | dtls
  | rtp
  | rtcp
  | unknown

variable (data : List Byte)

def isStun : Bool := data.length ≥ 20 && byteAt data 0 &&& 0xC0 = 0 && u32At data 4 = 0x2112A442

def isDtls : Bool :=
  data.length ≥ 13 && 20 ≤ byteAt data 0 && byteAt data 0 ≤ 23 && byteAt data 1 = 0xFE &&
    (byteAt data 2 = 0xFD || byteAt data 2 = 0xFF)

def isRtcp : Bool :=
  data.length ≥ 4 && byteAt data 0 >>> 6 = 2 && 192 ≤ byteAt data 1 && byteAt data 1 ≤ 223

def isRtp : Bool := data.length ≥ 12 && byteAt data 0 >>> 6 = 2 && !isRtcp data

def classify : DatagramProtocol :=
  if isStun data then .stun
  else if isDtls data then .dtls
  else if isRtcp data then .rtcp
  else if isRtp data then .rtp
  else .unknown

end Packetia.Net
