import Sizigy.PacketCodec

/-! The CONNECT packer and unpacker. They agree on the header and on the length of the id,
and then disagree on the order of the other three fields. -/
namespace Sizigy.ConnectCodec

open Bytes PacketCodec

/-- Bytes after the id length, in the order of the packer. -/
def packedFields (pkt : Connect) : List UInt8 :=
  (cstr pkt.id).bytes ++ encode 2 pkt.keepalive.toNat ++ encode 1 pkt.cleanSession.toNat

/-- The same fields in the order of the unpacker. -/
def expectedFields (pkt : Connect) : List UInt8 :=
  encode 1 pkt.cleanSession.toNat ++ encode 2 pkt.keepalive.toNat ++ (cstr pkt.id).bytes

theorem packConnect_wrote (size : Nat) (junk : Memory) (pkt : Connect) :
    Wrote (packConnect (bufferInit size junk) pkt) size
      (headerBytes pkt.header.opcode size ++ encode 2 (UInt16.ofNat (strlen (cstr pkt.id))).toNat ++
        packedFields pkt) := by
  have idlen := (packHeader_wrote pkt.header size junk).put (encode 2 (UInt16.ofNat (strlen (cstr pkt.id))).toNat)
  have keepalive := (idlen.put (cstr pkt.id).bytes).put (encode 2 pkt.keepalive.toNat)
  have clean := keepalive.put (encode 1 pkt.cleanSession.toNat)
  simp only [packedFields,← List.append_assoc]
  exact clean

/-- The four fields of the claim survive packing and unpacking. -/
def RoundTrips (pkt : Connect) (junk : Memory) : Prop :=
  let decoded := (unpackConnect (packConnect (bufferInit pkt.header.size.toNat junk) pkt).rewind).1
  decoded.idlen = pkt.idlen ∧ decoded.id = (cstr pkt.id).bytes ∧
    decoded.keepalive = pkt.keepalive ∧ decoded.cleanSession = pkt.cleanSession

theorem unpackConnect_ahead {b : Buffer} {idlen : UInt16} {clean keep id : List UInt8}
    (ahead : b.Ahead (headerBytes opcode size ++
      (encode 2 idlen.toNat ++ (clean ++ (keep ++ (id ++ rest))))))
    (cleanSize : clean.length = 1) (keepSize : keep.length = 2) (idSize : id.length = idlen.toNat) :
    (unpackConnect b).1 = ⟨⟨opcode,UInt32.ofNat size⟩,idlen,id,UInt16.ofNat (decode keep),
      UInt8.ofNat (decode clean)⟩ := by
  obtain ⟨header,ahead₁⟩ := unpackHeader_ahead ahead
  obtain ⟨len,ahead₂⟩ := readUint16_ahead ahead₁ (by simp)
  obtain ⟨flag,ahead₃⟩ := readUint8_ahead ahead₂ cleanSize
  obtain ⟨seconds,ahead₄⟩ := readUint16_ahead ahead₃ keepSize
  obtain ⟨name,_⟩ := take_ahead ahead₄ idSize
  rw [uint16_wire] at len
  simp only [unpackConnect,header,len,flag,seconds,readString,name]

theorem uint8_decode_iff {bytes : List UInt8} (size : bytes.length = 1) (v : UInt8) :
    UInt8.ofNat (decode bytes) = v ↔ bytes = encode 1 v.toNat := by
  constructor
  · rintro rfl
    have small := decode_lt bytes
    rw [size] at small
    rw [UInt8.toNat_ofNat_of_lt' (by simpa using small),← size,encode_decode]
  · rintro rfl
    exact uint8_wire v

theorem uint16_decode_iff {bytes : List UInt8} (size : bytes.length = 2) (v : UInt16) :
    UInt16.ofNat (decode bytes) = v ↔ bytes = encode 2 v.toNat := by
  constructor
  · rintro rfl
    have small := decode_lt bytes
    rw [size] at small
    rw [UInt16.toNat_ofNat_of_lt' (by simpa using small),← size,encode_decode]
  · rintro rfl
    exact uint16_wire v

theorem fields_split (pkt : Connect) : ∃ clean keep id : List UInt8,
    packedFields pkt = clean ++ (keep ++ id) ∧ clean.length = 1 ∧ keep.length = 2 ∧
    id.length = strlen (cstr pkt.id) := by
  refine ⟨(packedFields pkt).take 1,((packedFields pkt).drop 1).take 2,(packedFields pkt).drop 3,
    ?_,?_,?_,?_⟩
  · rw [show (packedFields pkt).drop 3 = ((packedFields pkt).drop 1).drop 2 by simp,
      List.take_append_drop,List.take_append_drop]
  all_goals simp [packedFields,strlen]

/-- The bytes of a short enough id survive exactly when both field orders give the same bytes. -/
theorem roundTrips_iff_fields (pkt : Connect) (junk : Memory)
    (idlen : pkt.idlen = UInt16.ofNat (strlen (cstr pkt.id))) (short : strlen (cstr pkt.id) < 2 ^ 16) :
    RoundTrips pkt junk ↔ packedFields pkt = expectedFields pkt := by
  obtain ⟨clean,keep,id,shape,cleanSize,keepSize,idSize⟩ := fields_split pkt
  have ahead := rewind_ahead (packConnect_wrote pkt.header.size.toNat junk pkt).filled
  rw [shape,List.append_assoc,← List.append_nil id] at ahead
  have lengths : id.length = (UInt16.ofNat (strlen (cstr pkt.id))).toNat := by
    rw [idSize,UInt16.toNat_ofNat_of_lt' short]
  have decoded := unpackConnect_ahead ahead cleanSize keepSize lengths
  unfold RoundTrips
  simp only [decoded,idlen,true_and,uint8_decode_iff cleanSize,uint16_decode_iff keepSize]
  rw [shape,expectedFields]
  constructor
  · rintro ⟨rfl,rfl,rfl⟩
    simp
  · intro equal
    rw [List.append_assoc] at equal
    obtain ⟨first,rest⟩ := List.append_inj equal (by simp [cleanSize])
    obtain ⟨second,third⟩ := List.append_inj rest (by simp [keepSize])
    exact ⟨third,second,first⟩

theorem encode_byte (v : UInt8) : encode 1 v.toNat = [v] := by
  simp [encode]

/-- `connect_pkt` takes the keepalive as one byte, so its high byte on the wire is zero. -/
theorem encode_keepalive (v : UInt8) : encode 2 v.toUInt16.toNat = [0,v] := by
  have small := v.toNat_lt
  have high : v.toNat / 256 = 0 := Nat.div_eq_of_lt small
  simp [encode,high]

theorem rotated_iff (id : CString) (keep clean : UInt8) :
    id.bytes ++ [0,keep] ++ [clean] = [clean] ++ [0,keep] ++ id.bytes ↔
      (id.bytes = [] ∧ keep = 0 ∧ clean = 0) ∨ id.bytes = [clean] := by
  have nulFree := id.nulFree
  rcases bytes : id.bytes with _ | ⟨a,_ | ⟨b,rest⟩⟩
  · have zero : [0,keep,clean] = [clean,0,keep] ↔ keep = 0 ∧ clean = 0 := by
      constructor
      · intro equal
        obtain ⟨head,tail⟩ := List.cons.inj equal
        exact ⟨(List.cons.inj tail).1,head.symm⟩
      · rintro ⟨rfl,rfl⟩
        rfl
    simpa using zero
  · simp [eq_comm]
  · have apart : b ≠ 0 := by
      rintro rfl
      simp [bytes] at nulFree
    simp [apart]

/-- A CONNECT packet survives exactly when the two field orders give the same bytes; one
built by `connect_pkt` only when its id is empty with the other two fields zero, or is the
single byte of its clean session flag. -/
theorem connect_roundTrips_iff (id : CString) (short : strlen id < 2 ^ 16) (cleanSession : UInt8)
    (junk : Memory) :
    (∀ keepalive : UInt16,
      RoundTrips { connectPkt id.bytes 0 cleanSession with keepalive := keepalive } junk ↔
        id.bytes ++ encode 2 keepalive.toNat ++ [cleanSession] =
          [cleanSession] ++ encode 2 keepalive.toNat ++ id.bytes) ∧
    ∀ keepalive : UInt8, RoundTrips (connectPkt id.bytes keepalive cleanSession) junk ↔
      (id.bytes = [] ∧ keepalive = 0 ∧ cleanSession = 0) ∨ id.bytes = [cleanSession] := by
  have short' : strlen (cstr id.bytes) < 2 ^ 16 := by rwa [cstr_bytes]
  constructor
  · intro keepalive
    rw [roundTrips_iff_fields _ junk rfl short',packedFields,expectedFields]
    simp only [connectPkt,cstr_bytes,encode_byte]
  · intro keepalive
    rw [roundTrips_iff_fields _ junk rfl short',packedFields,expectedFields]
    simp only [connectPkt,cstr_bytes,encode_byte,encode_keepalive]
    exact rotated_iff id keepalive cleanSession

def idA : CString := ⟨[97],by decide⟩

theorem idA_roundTrips_iff : strlen idA < 2 ^ 16 ∧
    (RoundTrips (connectPkt idA.bytes 60 97) (fun _ => 0) ↔
      (idA.bytes = [] ∧ (60 : UInt8) = 0 ∧ (97 : UInt8) = 0) ∨ idA.bytes = [97]) :=
  ⟨by decide,(connect_roundTrips_iff idA (by decide) 97 fun _ => 0).2 60⟩

/-- The id `a` with a clean session comes back as the byte of the flag. -/
theorem idA_lost : ¬RoundTrips (connectPkt idA.bytes 60 1) (fun _ => 0) := by
  rintro ⟨_,id,_⟩
  exact absurd id (by decide)

end Sizigy.ConnectCodec
