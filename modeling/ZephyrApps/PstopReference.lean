import ZephyrApps.PstopMessages

/-!
# A reference instance of the protocol library

The 48-byte layout and checksum that the repository's golden frames pin down:
little-endian fields and a CRC-16 with polynomial 0x8D95 over the first 46 bytes.
It instantiates `PstopC` on concrete inputs; the theorems never unfold it.
-/
namespace ZephyrApps.Pstop
open LittleEndianWords

/-- One bit of the checksum: shift left, fold the polynomial in on a carry. -/
def crcBit (c : ℕ) : ℕ :=
  if c.testBit 15 then (2 * c % 65536) ^^^ 0x8D95 else 2 * c % 65536

def crcByte (c : ℕ) (b : UInt8) : ℕ :=
  crcBit (crcBit (crcBit (crcBit (crcBit (crcBit (crcBit (crcBit
    (c ^^^ b.toNat * 256))))))))

def crc16 (bs : List UInt8) : ℕ := bs.foldl crcByte 0xFFFF

def payload (m : Msg) : List UInt8 :=
  m.version :: m.message :: (wordBytes 8 m.stamp.toNat ++ (wordBytes 8 m.receivedStamp.toNat ++
    (wordBytes 4 m.id.toNat ++ (wordBytes 4 m.receiverId.toNat ++
    (wordBytes 4 m.heartbeatTimeout.toNat ++ (wordBytes 4 m.counter.toNat ++
    (wordBytes 4 m.receivedCounter.toNat ++ (wordBytes 4 m.padding1.toNat ++
    wordBytes 4 m.padding2.toNat))))))))

def encodeMsg (m : Msg) : Frame :=
  ⟨payload m ++ wordBytes 2 (crc16 (payload m)), by simp [payload, messageSize]⟩

def decodeFrame (f : Frame) : Msg where
  version := f.bytes.getD 0 0
  message := f.bytes.getD 1 0
  stamp := UInt64.ofNat (wordAt 8 2 f.bytes)
  receivedStamp := UInt64.ofNat (wordAt 8 10 f.bytes)
  id := UInt32.ofNat (wordAt 4 18 f.bytes)
  receiverId := UInt32.ofNat (wordAt 4 22 f.bytes)
  heartbeatTimeout := UInt32.ofNat (wordAt 4 26 f.bytes)
  counter := UInt32.ofNat (wordAt 4 30 f.bytes)
  receivedCounter := UInt32.ofNat (wordAt 4 34 f.bytes)
  padding1 := UInt32.ofNat (wordAt 4 38 f.bytes)
  padding2 := UInt32.ofNat (wordAt 4 42 f.bytes)
  checksum := UInt16.ofNat (wordAt 2 46 f.bytes)
  calculatedChecksum := UInt16.ofNat (crc16 (f.bytes.take 46))

def genericMsg (type : UInt8) (now receivedStamp : UInt64) (me remote counter received : UInt32) :
    Msg where
  version := 0x02
  message := type
  stamp := now
  receivedStamp := receivedStamp
  id := me
  receiverId := remote
  heartbeatTimeout := 0
  counter := counter
  receivedCounter := received
  padding1 := 0
  padding2 := 0
  checksum := 0
  calculatedChecksum := 0

def reference : PstopC where
  protocolDataInit _ := ⟨0, 0, 0, 0⟩
  createBondMessage now me remote counter := genericMsg messageBond now 0 me remote counter 0
  createGenericMessage := genericMsg
  auxEncodeRole m r := { m with padding1 := match r with | .stopOnly => 0 | .operator => 1 }
  messageEncode := encodeMsg
  messageDecode := decodeFrame

private theorem ofNat_mod_word (x : UInt32) : UInt32.ofNat (x.toNat % 256 ^ 4) = x := by
  have h : x.toNat < 256 ^ 4 := x.toNat_lt
  rw [Nat.mod_eq_of_lt h, UInt32.ofNat_toNat]

theorem encodeMsg_sender (m : Msg) : (encodeMsg m).sender = m.id := by
  have hl : (m.version :: m.message ::
      (wordBytes 8 m.stamp.toNat ++ wordBytes 8 m.receivedStamp.toNat)).length = 18 := by simp
  have h := wordAt_append (k := 4) hl m.id.toNat
    (wordBytes 4 m.receiverId.toNat ++ (wordBytes 4 m.heartbeatTimeout.toNat ++
      (wordBytes 4 m.counter.toNat ++ (wordBytes 4 m.receivedCounter.toNat ++
      (wordBytes 4 m.padding1.toNat ++ (wordBytes 4 m.padding2.toNat ++
      wordBytes 2 (crc16 (payload m))))))))
  simp only [Frame.sender, encodeMsg, payload, List.cons_append, List.append_assoc] at h ⊢
  rw [h, ofNat_mod_word]

theorem encodeMsg_counter (m : Msg) : (encodeMsg m).counter = m.counter := by
  have hl : (m.version :: m.message ::
      (wordBytes 8 m.stamp.toNat ++ (wordBytes 8 m.receivedStamp.toNat ++
      (wordBytes 4 m.id.toNat ++ (wordBytes 4 m.receiverId.toNat ++
      wordBytes 4 m.heartbeatTimeout.toNat))))).length = 30 := by simp
  have h := wordAt_append (k := 4) hl m.counter.toNat
    (wordBytes 4 m.receivedCounter.toNat ++ (wordBytes 4 m.padding1.toNat ++
      (wordBytes 4 m.padding2.toNat ++ wordBytes 2 (crc16 (payload m)))))
  simp only [Frame.counter, encodeMsg, payload, List.cons_append, List.append_assoc] at h ⊢
  rw [h, ofNat_mod_word]

theorem reference_carriesCode : reference.CarriesCode where
  bond _ _ _ _ := rfl
  generic _ _ _ _ _ _ _ := rfl
  role _ _ := rfl
  encode _ := rfl

theorem reference_carriesCounter : reference.CarriesCounter where
  init _ := rfl
  bond _ _ _ _ := rfl
  generic _ _ _ _ _ _ _ := rfl
  role _ _ := rfl
  encode := encodeMsg_counter

theorem reference_startsAtZero : reference.StartsAtZero := ⟨fun _ => rfl, fun _ => rfl, fun _ => rfl⟩

theorem reference_carriesSender : reference.CarriesSender where
  bond _ _ _ _ := rfl
  generic _ _ _ _ _ _ _ := rfl
  role _ _ := rfl
  encode := encodeMsg_sender

-- The golden BOND frame of the wire tests.
example : (encodeMsg (genericMsg messageBond 0x1234 0 0xC0A80105 0x01020304 1 0)).bytes =
    [0x02, 0xAD, 0x34, 0x12, 0x00, 0x00, 0x00, 0x00, 0x00, 0x00, 0x00, 0x00,
     0x00, 0x00, 0x00, 0x00, 0x00, 0x00, 0x05, 0x01, 0xA8, 0xC0, 0x04, 0x03,
     0x02, 0x01, 0x00, 0x00, 0x00, 0x00, 0x01, 0x00, 0x00, 0x00, 0x00, 0x00,
     0x00, 0x00, 0x00, 0x00, 0x00, 0x00, 0x00, 0x00, 0x00, 0x00, 0x65, 0x2A] := by
  decide +kernel

end ZephyrApps.Pstop
