import Sizigy.Protocol

/-! Buffers as streams of bytes. A packer extends the bytes written so far, an unpacker
takes the bytes ahead of it; no proof about a packet needs the memory behind the two. -/
namespace Sizigy

open Bytes

variable {b : Buffer}

/-- The first bytes of the buffer, up to its position, are the given ones. -/
def Buffer.Filled (b : Buffer) (bytes : List UInt8) : Prop :=
  b.pos = bytes.length ∧ load b.data 0 bytes.length = bytes

/-- The given bytes lie ahead of the position. -/
def Buffer.Ahead (b : Buffer) (rest : List UInt8) : Prop := load b.data b.pos rest.length = rest

def Buffer.rewind (b : Buffer) : Buffer := { b with pos := 0, touched := [] }

theorem bufferInit_filled (len : Nat) (junk : Memory) : (bufferInit len junk).Filled [] :=
  ⟨rfl,rfl⟩

theorem put_filled (filled : b.Filled bytes) (more : List UInt8) :
    (b.put more).Filled (bytes ++ more) := by
  obtain ⟨position,written⟩ := filled
  refine ⟨by simp [Buffer.put,position],?_⟩
  rw [List.length_append,load_add,Buffer.put,position,Nat.zero_add,load_store,
    load_store_below _ _ (by omega),written]

theorem rewind_ahead (filled : b.Filled bytes) : b.rewind.Ahead bytes := filled.2

theorem take_ahead {first : List UInt8} (ahead : b.Ahead (first ++ rest)) (size : first.length = n) :
    (b.take n).1 = first ∧ (b.take n).2.Ahead rest := by
  subst size
  unfold Buffer.Ahead at ahead
  rw [List.length_append,load_add] at ahead
  obtain ⟨here,later⟩ := List.append_inj ahead (by simp)
  exact ⟨here,later⟩

theorem readUint8_ahead {first : List UInt8} (ahead : b.Ahead (first ++ rest)) (size : first.length = 1) :
    (readUint8 b).1 = UInt8.ofNat (decode first) ∧ (readUint8 b).2.Ahead rest := by
  obtain ⟨here,later⟩ := take_ahead ahead size
  exact ⟨by simp only [readUint8,here],later⟩

theorem readUint16_ahead {first : List UInt8} (ahead : b.Ahead (first ++ rest)) (size : first.length = 2) :
    (readUint16 b).1 = UInt16.ofNat (decode first) ∧ (readUint16 b).2.Ahead rest := by
  obtain ⟨here,later⟩ := take_ahead ahead size
  exact ⟨by simp only [readUint16,here],later⟩

theorem readUint32_ahead {first : List UInt8} (ahead : b.Ahead (first ++ rest)) (size : first.length = 4) :
    (readUint32 b).1 = UInt32.ofNat (decode first) ∧ (readUint32 b).2.Ahead rest := by
  obtain ⟨here,later⟩ := take_ahead ahead size
  exact ⟨by simp only [readUint32,here],later⟩

@[simp] theorem uint8_wire (v : UInt8) : UInt8.ofNat (decode (encode 1 v.toNat)) = v := by
  rw [decode_encode_of_lt (by simpa using v.toNat_lt),UInt8.ofNat_toNat]

@[simp] theorem uint16_wire (v : UInt16) : UInt16.ofNat (decode (encode 2 v.toNat)) = v := by
  rw [decode_encode_of_lt (by simpa using v.toNat_lt),UInt16.ofNat_toNat]

@[simp] theorem uint32_wire (v : UInt32) : UInt32.ofNat (decode (encode 4 v.toNat)) = v := by
  rw [decode_encode_of_lt (by simpa using v.toNat_lt),UInt32.ofNat_toNat]

/-- The five bytes a header takes on the wire. -/
def headerBytes (opcode : UInt8) (size : Nat) : List UInt8 :=
  encode 1 opcode.toNat ++ encode 4 (UInt32.ofNat size).toNat

theorem unpackHeader_ahead (ahead : b.Ahead (headerBytes opcode size ++ rest)) :
    (unpackHeader b).1 = ⟨opcode,UInt32.ofNat size⟩ ∧ (unpackHeader b).2.Ahead rest := by
  unfold headerBytes at ahead
  rw [List.append_assoc] at ahead
  obtain ⟨op,ahead₁⟩ := readUint8_ahead ahead (by simp)
  obtain ⟨total,ahead₂⟩ := readUint32_ahead ahead₁ (by simp)
  exact ⟨by simp only [unpackHeader,op,total,uint8_wire,uint32_wire],ahead₂⟩

end Sizigy
