import Mathlib.Data.List.Basic

/-!
# Packets on the wire

The bytes of one packet, as `codec.rs` lays them out:

```
offset  size  field
0       2     start token 0xB5AD, little-endian; NOT in checksum
2       1     sync
3       1     proto<<4 | packet_type
4       2     payload length, little-endian
6       2     Fletcher-16 of bytes [2..6]
8       N     payload
8+N     2     Fletcher-16 of bytes [2..8+N]; ABSENT if N == 0
```

`decode` reads its buffer through bounds-checked accesses, so `none` is the panic
of an index or a slice out of range.
-/

namespace MarlinTransfer.Codec

/-- A byte string. -/
abbrev Bytes := List UInt8

/-- `PACKET_TOKEN`. -/
def packetToken : UInt16 := 0xB5AD

/-- `HEADER_LEN`. -/
def headerLen : Nat := 8

/-- `MAX_PAYLOAD`, that is `u16::MAX`. -/
def maxPayload : Nat := 65535

structure Packet where
  sync : UInt8
  protocol : UInt8
  packetType : UInt8
  payload : Bytes
  deriving DecidableEq, Repr

inductive DecodeError where
  | incomplete (need have_ : Nat)
  | badToken (expected got : UInt16)
  | headerChecksum (stored computed : UInt16)
  | payloadChecksum (stored computed : UInt16)
  deriving DecidableEq, Repr

inductive EncodeError where
  | payloadTooLarge (len : Nat)
  | badProtocol (protocol : UInt8)
  | badPacketType (packetType : UInt8)
  deriving DecidableEq, Repr

/-- `Packet::new`. -/
def Packet.new (sync protocol packetType : UInt8) (payload : Bytes) :
    Except EncodeError Packet :=
  if protocol > 0xF then .error (.badProtocol protocol)
  else if packetType > 0xF then .error (.badPacketType packetType)
  else if payload.length > maxPayload then .error (.payloadTooLarge payload.length)
  else .ok { sync, protocol, packetType, payload }

/-- `Packet::wire_len`. -/
def Packet.wireLen (p : Packet) : Nat :=
  if p.payload.isEmpty then headerLen else headerLen + p.payload.length + 2

/-- `u16::to_le_bytes`. -/
def toLeBytes (x : UInt16) : Bytes := [x.toUInt8, (x >>> 8).toUInt8]

/-- `u16::from_le_bytes`. -/
def fromLeBytes (lo hi : UInt8) : UInt16 := lo.toUInt16 + (hi.toUInt16 <<< 8)

/-- The body of the checksum loop. -/
def fletcherStep (cs : UInt16) (b : UInt8) : UInt16 :=
  let csLow := ((cs &&& 0xFF) + b.toUInt16) % 255
  ((((cs >>> 8) + csLow) % 255) <<< 8) ||| csLow

/-- `fletcher16`: byte sum in the low byte, sum of the sums in the high byte, mod 255. -/
def fletcher16 (buf : Bytes) : UInt16 := buf.foldl fletcherStep 0

/-- `encode`: what it returns, and `out` as it leaves it. -/
def encode (packet : Packet) (out : Bytes) : Except EncodeError Nat × Bytes :=
  if packet.protocol > 0xF then (.error (.badProtocol packet.protocol), out)
  else if packet.packetType > 0xF then (.error (.badPacketType packet.packetType), out)
  else if packet.payload.length > maxPayload then
    (.error (.payloadTooLarge packet.payload.length), out)
  else
    let start := out.length
    let out := out ++ toLeBytes packetToken
    let headerPayloadStart := out.length
    let out := out ++ [packet.sync]
    let out := out ++ [((packet.protocol &&& 0xF) <<< 4) ||| (packet.packetType &&& 0xF)]
    let out := out ++ toLeBytes (UInt16.ofNat packet.payload.length)
    let headerCs := fletcher16 (out.drop headerPayloadStart)
    let out := out ++ toLeBytes headerCs
    let out :=
      if packet.payload.isEmpty then out
      else
        let out := out ++ packet.payload
        let bodyEnd := out.length
        -- everything after the token: the header with its checksum, then the payload
        let payloadCs := fletcher16 ((out.take bodyEnd).drop headerPayloadStart)
        out ++ toLeBytes payloadCs
    (.ok (out.length - start), out)

/-- `&buf[a..b]`. -/
def slice (buf : Bytes) (a b : Nat) : Option Bytes :=
  if a ≤ b ∧ b ≤ buf.length then some ((buf.take b).drop a) else none

/-- `decode`, with `none` where an access would be out of bounds. -/
def decode (buf : Bytes) : Option (Except DecodeError (Packet × Nat)) :=
  if buf.length < headerLen then
    some (.error (.incomplete headerLen buf.length))
  else do
    let token := fromLeBytes (← buf[0]?) (← buf[1]?)
    if token ≠ packetToken then
      return .error (.badToken packetToken token)
    let sync ← buf[2]?
    let protoType ← buf[3]?
    let protocol := protoType >>> 4
    let packetType := protoType &&& 0x0F
    let payloadLen := (fromLeBytes (← buf[4]?) (← buf[5]?)).toNat
    let storedHeaderCs := fromLeBytes (← buf[6]?) (← buf[7]?)
    let computedHeaderCs := fletcher16 (← slice buf 2 6)
    if storedHeaderCs ≠ computedHeaderCs then
      return .error (.headerChecksum storedHeaderCs computedHeaderCs)
    if payloadLen = 0 then
      return .ok ({ sync, protocol, packetType, payload := [] }, headerLen)
    let totalLen := headerLen + payloadLen + 2
    if buf.length < totalLen then
      return .error (.incomplete totalLen buf.length)
    let payload ← slice buf headerLen (headerLen + payloadLen)
    let csOff := headerLen + payloadLen
    let storedPayloadCs := fromLeBytes (← buf[csOff]?) (← buf[csOff + 1]?)
    let computedPayloadCs := fletcher16 (← slice buf 2 csOff)
    if storedPayloadCs ≠ computedPayloadCs then
      return .error (.payloadChecksum storedPayloadCs computedPayloadCs)
    return .ok ({ sync, protocol, packetType, payload }, totalLen)

-- the SYNC packet of the fixtures
example : encode { sync := 0, protocol := 0, packetType := 1, payload := [] } []
    = (.ok 8, [0xAD, 0xB5, 0x00, 0x01, 0x00, 0x00, 0x01, 0x03]) := by decide +kernel

end MarlinTransfer.Codec
