import DaimDistributed.BigEndian

/-!
OpenFlow messages as byte strings, and the small ones that `ovs_persistent_adapter.c` builds.

`htons` and `htonl` followed by `memcpy` write a number with its highest byte first.
-/

namespace DaimDistributed.OfMessage

open BigEndian

def ofpVersion13 : UInt8 := 0x04

def ofptHello : UInt8 := 0

def ofptEchoRequest : UInt8 := 2

def ofptEchoReply : UInt8 := 3

def ofptFlowMod : UInt8 := 14

def putU8 (v : UInt8) : List UInt8 := [v]

def putU16 (v : UInt16) : List UInt8 := bytes 2 v.toNat

def putU32 (v : UInt32) : List UInt8 := bytes 4 v.toNat

/-- Written in two halves. -/
def putU64 (v : UInt64) : List UInt8 :=
  putU32 (v >>> 32).toUInt32 ++ putU32 (v &&& 0xffffffff).toUInt32

def putZero (n : ℕ) : List UInt8 := List.replicate n 0

def buildHello (xid : UInt32) : List UInt8 :=
  putU8 ofpVersion13 ++ putU8 ofptHello ++ putU16 8 ++ putU32 xid

def buildEchoReply (xid : UInt32) : List UInt8 :=
  putU8 ofpVersion13 ++ putU8 ofptEchoReply ++ putU16 8 ++ putU32 xid

def ofpHeaderSize : ℕ := 8

/-- A well-formed message: the header without the length, and what follows it. The length is
that of the whole message and has 16 bits. -/
structure Message where
  version : UInt8
  type : UInt8
  xid : UInt32
  body : List UInt8
  fits : ofpHeaderSize + body.length < 2 ^ 16
  deriving DecidableEq

def Message.length (m : Message) : ℕ := ofpHeaderSize + m.body.length

def Message.header (m : Message) : List UInt8 :=
  putU8 m.version ++ putU8 m.type ++ bytes 2 m.length ++ putU32 m.xid

def Message.bytes (m : Message) : List UInt8 := m.header ++ m.body

/-- The fields of a header, as the adapter and the switch read them. -/
def headerType (header : List UInt8) : UInt8 := header.getD 1 0

def headerLength (header : List UInt8) : ℕ := value ((header.drop 2).take 2)

def headerXid (header : List UInt8) : UInt32 := UInt32.ofNat (value ((header.drop 4).take 4))

variable (m : Message)

@[simp] lemma length_header : m.header.length = ofpHeaderSize := by
  simp [Message.header, putU8, putU32, ofpHeaderSize]

@[simp] lemma length_bytes : m.bytes.length = m.length := by
  simp [Message.bytes, Message.length]

lemma headerType_header : headerType m.header = m.type := rfl

lemma headerLength_header : headerLength m.header = m.length := by
  have h : (m.header.drop 2).take 2 = BigEndian.bytes 2 m.length := rfl
  rw [headerLength, h, value_bytes m.fits]

lemma headerXid_header : headerXid m.header = m.xid := by
  have h : (m.header.drop 4).take 4 = BigEndian.bytes 4 m.xid.toNat := rfl
  rw [headerXid, h, value_bytes m.xid.toNat_lt, UInt32.ofNat_toNat]

lemma take_bytes (rest : List UInt8) : (m.bytes ++ rest).take ofpHeaderSize = m.header := by
  rw [Message.bytes, List.append_assoc, List.take_left' (length_header m)]

lemma drop_bytes (rest : List UInt8) :
    (m.bytes ++ rest).drop ofpHeaderSize = m.body ++ rest := by
  rw [Message.bytes, List.append_assoc, List.drop_left' (length_header m)]

end DaimDistributed.OfMessage
