import ZephyrApps.LittleEndianWords

/-!
# The pstop wire protocol as this remote uses it

The protocol library `pstop_c` is a west project outside this repository. Its
message codes and the 48-byte layout are the documented ones; its functions are
the fields of `PstopC`, and what the code relies on about them is stated in
`CarriesCode`, `CarriesCounter` and `CarriesSender`.
-/
namespace ZephyrApps.Pstop
open LittleEndianWords

/-- `PSTOP_MESSAGE_OK` -/
def messageOk : UInt8 := 0x55
/-- `PSTOP_MESSAGE_STOP` -/
def messageStop : UInt8 := 0x92
/-- `PSTOP_MESSAGE_BOND` -/
def messageBond : UInt8 := 0xAD
/-- `PSTOP_MESSAGE_UNBOND` -/
def messageUnbond : UInt8 := 0x6A
/-- `PSTOP_MESSAGE_UNKNOWN` -/
def messageUnknown : UInt8 := 0x0F

/-- `PSTOP_MESSAGE_SIZE` -/
def messageSize : ℕ := 48

/-- `pstop_aux_role_t` -/
inductive AuxRole where
  | stopOnly | operator
  deriving DecidableEq

/-- `pstop_msg_t`; a device id is its 32-bit value. -/
structure Msg where
  version : UInt8
  message : UInt8
  stamp : UInt64
  receivedStamp : UInt64
  id : UInt32
  receiverId : UInt32
  heartbeatTimeout : UInt32
  counter : UInt32
  receivedCounter : UInt32
  padding1 : UInt32
  padding2 : UInt32
  checksum : UInt16
  calculatedChecksum : UInt16
  deriving DecidableEq

/-- An encoded message: a buffer of `PSTOP_MESSAGE_SIZE` bytes. -/
structure Frame where
  bytes : List UInt8
  size : bytes.length = messageSize
  deriving DecidableEq

def Frame.zero : Frame := ⟨List.replicate messageSize 0, by simp⟩

/-- The message code, byte 1 of the frame. -/
def Frame.message (f : Frame) : UInt8 := f.bytes.getD 1 0
/-- The sender's device id, bytes 18 to 21. -/
def Frame.sender (f : Frame) : UInt32 := UInt32.ofNat (wordAt 4 18 f.bytes)
/-- The message counter, bytes 30 to 33. -/
def Frame.counter (f : Frame) : UInt32 := UInt32.ofNat (wordAt 4 30 f.bytes)

/-- The fields of `protocol_data_t` that the sessions read or write. -/
structure ProtocolData where
  msgCounter : UInt32
  lastReceivedCounter : UInt32
  lastReceivedStamp : UInt64
  remoteId : UInt32
  deriving DecidableEq

/-- The functions of `pstop_c` (and its role channel) that the sessions call. -/
structure PstopC where
  protocolDataInit : ProtocolData → ProtocolData
  createBondMessage : (now : UInt64) → (me remote : UInt32) → (counter : UInt32) → Msg
  createGenericMessage : (type : UInt8) → (now receivedStamp : UInt64) → (me remote : UInt32) →
    (counter receivedCounter : UInt32) → Msg
  auxEncodeRole : Msg → AuxRole → Msg
  messageEncode : Msg → Frame
  messageDecode : Frame → Msg

/-- A constructed message has the code asked for, and the frame carries it. -/
structure PstopC.CarriesCode (p : PstopC) : Prop where
  bond : ∀ now me remote counter,
    (p.createBondMessage now me remote counter).message = messageBond
  generic : ∀ type now stamp me remote counter received,
    (p.createGenericMessage type now stamp me remote counter received).message = type
  role : ∀ m r, (p.auxEncodeRole m r).message = m.message
  encode : ∀ m, (p.messageEncode m).message = m.message

/-- `protocol_data_init` zeroes the counter, and a frame carries the counter its
message was constructed with. -/
structure PstopC.CarriesCounter (p : PstopC) : Prop where
  init : ∀ d, (p.protocolDataInit d).msgCounter = 0
  bond : ∀ now me remote counter,
    (p.createBondMessage now me remote counter).counter = counter
  generic : ∀ type now stamp me remote counter received,
    (p.createGenericMessage type now stamp me remote counter received).counter = counter
  role : ∀ m r, (p.auxEncodeRole m r).counter = m.counter
  encode : ∀ m, (p.messageEncode m).counter = m.counter

/-- `protocol_data_init` zeroes the counters and the stamp of the last reply. -/
structure PstopC.StartsAtZero (p : PstopC) : Prop where
  counter : ∀ d, (p.protocolDataInit d).msgCounter = 0
  received : ∀ d, (p.protocolDataInit d).lastReceivedCounter = 0
  stamp : ∀ d, (p.protocolDataInit d).lastReceivedStamp = 0

structure PstopC.CarriesSender (p : PstopC) : Prop where
  bond : ∀ now me remote counter, (p.createBondMessage now me remote counter).id = me
  generic : ∀ type now stamp me remote counter received,
    (p.createGenericMessage type now stamp me remote counter received).id = me
  role : ∀ m r, (p.auxEncodeRole m r).id = m.id
  encode : ∀ m, (p.messageEncode m).sender = m.id

end ZephyrApps.Pstop
