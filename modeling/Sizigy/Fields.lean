import Mathlib.Tactic.IntervalCases
import Sizigy.ProtocolStream

/-! The fields of a packet one by one. Whatever the format, a packer is a sequence of writes and an unpacker
a sequence of reads, and what the two do to each other does not depend on which fields there are. -/
namespace Sizigy.Fields

open Bytes

/-- Where the bytes of a number end up, most significant first. -/
def shifts : List UInt64 := [56,48,40,32,24,16,8,0]

def htonll (num : UInt64) : List UInt8 := shifts.map fun shift => (num >>> shift &&& 0xFF).toUInt8

def ntohll (block : List UInt8) : UInt64 :=
  (List.zipWith (fun byte shift => byte.toUInt64 <<< shift) block shifts).foldl (· ||| ·) 0

def readUint64 (b : Buffer) : UInt64 × Buffer :=
  let (block,b) := b.take 8
  (ntohll block,b)

def writeUint64 (b : Buffer) (val : UInt64) : Buffer := b.put (htonll val)

inductive Field where
  | uint8 (val : UInt8)
  | uint16 (val : UInt16)
  | uint32 (val : UInt32)
  | uint64 (val : UInt64)
  | string (str : List UInt8)
  deriving DecidableEq

/-- What a reader has to know of a field. -/
inductive Kind where
  | uint8
  | uint16
  | uint32
  | uint64
  | string (len : Nat)

def write (b : Buffer) : Field → Buffer
  | .uint8 val => writeUint8 b val
  | .uint16 val => writeUint16 b val
  | .uint32 val => writeUint32 b val
  | .uint64 val => writeUint64 b val
  | .string str => writeString b str

def read (b : Buffer) : Kind → Field × Buffer
  | .uint8 => ((readUint8 b).map .uint8 id)
  | .uint16 => ((readUint16 b).map .uint16 id)
  | .uint32 => ((readUint32 b).map .uint32 id)
  | .uint64 => ((readUint64 b).map .uint64 id)
  | .string len => ((readString b len).map .string id)

def writeAll (b : Buffer) (fields : List Field) : Buffer := fields.foldl write b

def readAll (b : Buffer) : List Kind → List Field × Buffer
  | [] => ([],b)
  | kind :: kinds =>
    let (field,b) := read b kind
    let (fields,b) := readAll b kinds
    (field :: fields,b)

/-- The kind under which a field is read again; a string is as long as the C string it stands for. -/
def Field.kind : Field → Kind
  | .uint8 _ => .uint8
  | .uint16 _ => .uint16
  | .uint32 _ => .uint32
  | .uint64 _ => .uint64
  | .string str => .string (strlen (cstr str))

def Field.cut : Field → Field
  | .string str => .string (cstr str).bytes
  | field => field

def Field.nulFree : Field → Bool
  | .string str => 0 ∉ str
  | _ => true

def Field.bytes : Field → List UInt8
  | .uint8 val => encode 1 val.toNat
  | .uint16 val => encode 2 val.toNat
  | .uint32 val => encode 4 val.toNat
  | .uint64 val => htonll val
  | .string str => (cstr str).bytes

def Kind.size : Kind → Nat
  | .uint8 => 1
  | .uint16 => 2
  | .uint32 => 4
  | .uint64 => 8
  | .string len => len

def Kind.parse (bytes : List UInt8) : Kind → Field
  | .uint8 => .uint8 (UInt8.ofNat (decode bytes))
  | .uint16 => .uint16 (UInt16.ofNat (decode bytes))
  | .uint32 => .uint32 (UInt32.ofNat (decode bytes))
  | .uint64 => .uint64 (ntohll bytes)
  | .string _ => .string bytes

theorem htonll_encode (num : UInt64) : htonll num = encode 8 num.toNat := by
  have byte (shift : UInt64) (n : Nat) (small : shift.toNat = 8 * n) (inside : n < 8) :
      (num >>> shift &&& 0xFF).toUInt8 = UInt8.ofNat (num.toNat / 256 ^ n) := by
    apply UInt8.toNat_inj.mp
    have mask : (0xFF : UInt64).toNat = 2 ^ 8 - 1 := rfl
    have power : (2 : Nat) ^ (8 * n) = 256 ^ n := by
      rw [Nat.pow_mul]
    rw [UInt64.toNat_toUInt8,UInt64.toNat_and,mask,Nat.and_two_pow_sub_one_eq_mod,UInt64.toNat_shiftRight,small,
      Nat.mod_eq_of_lt (a := 8 * n) (by omega),Nat.shiftRight_eq_div_pow,power,UInt8.toNat_ofNat']
    omega
  simp only [htonll,shifts,List.map_cons,List.map_nil,encode]
  rw [byte 56 7 rfl (by decide),byte 48 6 rfl (by decide),byte 40 5 rfl (by decide),byte 32 4 rfl (by decide),
    byte 24 3 rfl (by decide),byte 16 2 rfl (by decide),byte 8 1 rfl (by decide),byte 0 0 rfl (by decide)]

theorem toNat_or_byte (acc : UInt64) (byte : UInt8) (shift : UInt64) (n : Nat) (small : shift.toNat = 8 * n)
    (inside : n < 8) (clear : 256 ^ (n + 1) ∣ acc.toNat) :
    (acc ||| byte.toUInt64 <<< shift).toNat = acc.toNat + byte.toNat * 256 ^ n := by
  have power : (2 : Nat) ^ (8 * n) = 256 ^ n := by
    rw [Nat.pow_mul]
  have below : byte.toNat * 256 ^ n < 256 ^ (n + 1) := by
    rw [Nat.pow_succ']
    exact Nat.mul_lt_mul_of_pos_right byte.toNat_lt (by positivity)
  have fits : byte.toNat * 256 ^ n < 2 ^ 64 := by
    have wide : 256 ^ (n + 1) ≤ 256 ^ 8 := Nat.pow_le_pow_right (by decide) inside
    exact Nat.lt_of_lt_of_le below wide
  obtain ⟨high,acc_eq⟩ := clear
  have apart := Nat.two_pow_add_eq_or_of_lt (i := 8 * (n + 1)) (by rwa [Nat.pow_mul]) high
  rw [Nat.pow_mul] at apart
  rw [UInt64.toNat_or,UInt64.toNat_shiftLeft,UInt8.toNat_toUInt64,small,Nat.mod_eq_of_lt (a := 8 * n) (by omega),
    Nat.shiftLeft_eq,power,Nat.mod_eq_of_lt fits,acc_eq,apart]

theorem shifts_drop (inside : n < 8) :
    ∃ shift : UInt64, shift.toNat = 8 * n ∧ shifts.drop (8 - (n + 1)) = shift :: shifts.drop (8 - n) := by
  interval_cases n <;> exact ⟨_,rfl,rfl⟩

/-- The digits not read yet are zero in what has been put together. -/
theorem toNat_foldl_or (block : List UInt8) (short : block.length ≤ 8) (acc : UInt64)
    (clear : 256 ^ block.length ∣ acc.toNat) :
    ((List.zipWith (fun byte shift => byte.toUInt64 <<< shift) block (shifts.drop (8 - block.length))).foldl
      (· ||| ·) acc).toNat = acc.toNat + decode block := by
  induction block generalizing acc with
  | nil => simp [decode]
  | cons byte rest ih =>
    rw [List.length_cons] at short
    obtain ⟨shift,small,drop⟩ := shifts_drop (n := rest.length) (by omega)
    have sum := toNat_or_byte acc byte shift rest.length small (by omega) clear
    have clear' : 256 ^ rest.length ∣ (acc ||| byte.toUInt64 <<< shift).toNat := by
      rw [sum]
      exact Nat.dvd_add ((Nat.pow_dvd_pow 256 (Nat.le_succ _)).trans clear) (Nat.dvd_mul_left _ _)
    rw [List.length_cons,drop,List.zipWith_cons_cons,List.foldl_cons,ih (by omega) _ clear',sum,decode]
    omega

theorem ntohll_decode (block : List UInt8) (size : block.length = 8) : ntohll block = UInt64.ofNat (decode block) := by
  apply UInt64.toNat_inj.mp
  have small : decode block < 2 ^ 64 := by simpa [size] using decode_lt block
  have whole := toNat_foldl_or block (by omega) 0 (by simp)
  rw [size] at whole
  rw [UInt64.toNat_ofNat_of_lt' small,ntohll]
  simpa using whole

/-- A field as it lies in memory is read as what it was written for. -/
theorem parse_bytes (field : Field) : field.kind.parse field.bytes = field.cut := by
  cases field with
  | uint8 val => simp [Field.kind,Kind.parse,Field.bytes,Field.cut]
  | uint16 val => simp [Field.kind,Kind.parse,Field.bytes,Field.cut]
  | uint32 val => simp [Field.kind,Kind.parse,Field.bytes,Field.cut]
  | uint64 val =>
    have wire : UInt64.ofNat (decode (encode 8 val.toNat)) = val := by
      rw [decode_encode_of_lt (by simpa using val.toNat_lt),UInt64.ofNat_toNat]
    simp only [Field.kind,Kind.parse,Field.bytes,Field.cut,htonll_encode]
    rw [ntohll_decode _ (encode_length 8 _),wire]
  | string str => rfl

theorem kind_size (field : Field) : field.kind.size = field.bytes.length := by
  cases field <;> simp [Field.kind,Kind.size,Field.bytes,htonll_encode,strlen]

/-- Bytes that were read as a field are the bytes of that field, unless a string has a zero in it. -/
theorem bytes_parse (kind : Kind) (bytes : List UInt8) (size : bytes.length = kind.size)
    (free : (kind.parse bytes).nulFree) : (kind.parse bytes).bytes = bytes := by
  have digits := encode_decode bytes
  have small := decode_lt bytes
  rw [size] at digits small
  cases kind with
  | uint8 => simpa [Kind.parse,Field.bytes,UInt8.toNat_ofNat_of_lt' small,Kind.size] using digits
  | uint16 => simpa [Kind.parse,Field.bytes,UInt16.toNat_ofNat_of_lt' small,Kind.size] using digits
  | uint32 => simpa [Kind.parse,Field.bytes,UInt32.toNat_ofNat_of_lt' small,Kind.size] using digits
  | uint64 =>
    simpa [Kind.parse,Field.bytes,htonll_encode,ntohll_decode _ size,UInt64.toNat_ofNat_of_lt' small,
      Kind.size] using digits
  | string len =>
    have free : 0 ∉ bytes := by simpa [Kind.parse,Field.nulFree] using free
    exact congrArg CString.bytes (cstr_bytes ⟨bytes,free⟩)

theorem parse_shorter (kind : Kind) (bytes : List UInt8) (size : bytes.length = kind.size)
    (cut : ¬(kind.parse bytes).nulFree) : (kind.parse bytes).bytes.length < kind.size := by
  cases kind with
  | string len =>
    have zero : 0 ∈ bytes := by simpa [Kind.parse,Field.nulFree] using cut
    rw [← size]
    refine Nat.lt_of_le_of_ne (strlen_cstr_le bytes) fun whole => ?_
    have same : (cstr bytes).bytes = bytes :=
      (List.takeWhile_prefix _).eq_of_length whole
    rw [← same] at zero
    exact (cstr bytes).nulFree zero
  | _ => exact absurd rfl cut

theorem write_put (b : Buffer) (field : Field) : write b field = b.put field.bytes := by
  cases field <;> rfl

theorem read_take (b : Buffer) (kind : Kind) :
    read b kind = (kind.parse (b.take kind.size).1,(b.take kind.size).2) := by
  cases kind <;> rfl

theorem put_append (b : Buffer) (bytes more : List UInt8) : (b.put bytes).put more = b.put (bytes ++ more) := by
  have join := List.range'_append_1 (s := b.pos) (m := bytes.length) (n := more.length)
  have memory : store (store b.data b.pos bytes) (b.pos + bytes.length) more = store b.data b.pos (bytes ++ more) := by
    funext i
    simp only [store,List.getD_eq_getElem?_getD,List.getElem?_append]
    grind
  simp only [Buffer.put,memory,List.length_append,Nat.add_assoc,List.append_assoc,join]

theorem put_nil (b : Buffer) : b.put [] = b := by
  have memory : store b.data b.pos [] = b.data := by
    funext i
    simp [store]
  simp [Buffer.put,memory]

theorem writeAll_put (b : Buffer) (fields : List Field) : writeAll b fields = b.put (fields.flatMap Field.bytes) := by
  induction fields generalizing b with
  | nil => exact (put_nil b).symm
  | cons field fields ih =>
    have rest := ih (write b field)
    rw [write_put,put_append] at rest
    simpa [writeAll,write_put] using rest

def total (kinds : List Kind) : Nat := (kinds.map Kind.size).sum

theorem total_kind (fields : List Field) : total (fields.map Field.kind) = (fields.flatMap Field.bytes).length := by
  induction fields with
  | nil => rfl
  | cons field fields ih =>
    rw [List.flatMap_cons,List.length_append,← ih,← kind_size]
    rfl

theorem take_take (b : Buffer) (m n : Nat) : ((b.take m).2.take n).2 = (b.take (m + n)).2 := by
  have join := List.range'_append_1 (s := b.pos) (m := m) (n := n)
  simp only [Buffer.take,Nat.add_assoc,List.append_assoc,join]

theorem readAll_take (b : Buffer) (kinds : List Kind) : (readAll b kinds).2 = (b.take (total kinds)).2 := by
  induction kinds generalizing b with
  | nil => simp [readAll,total,Buffer.take]
  | cons kind kinds ih =>
    have rest := ih (b.take kind.size).2
    rw [take_take] at rest
    simpa [readAll,read_take,total] using rest

theorem readAll_ahead (fields : List Field) (ahead : b.Ahead (fields.flatMap Field.bytes)) :
    (readAll b (fields.map Field.kind)).1 = fields.map Field.cut := by
  induction fields generalizing b with
  | nil => rfl
  | cons field fields ih =>
    rw [List.flatMap_cons] at ahead
    obtain ⟨here,later⟩ := take_ahead ahead (kind_size field).symm
    have rest := ih later
    simp only [List.map_cons,readAll,read_take,here,parse_bytes,rest]

/-- What is read is in memory, unless a string has a zero in it. -/
theorem readAll_bytes (b : Buffer) (kinds : List Kind) (free : ∀ field ∈ (readAll b kinds).1, field.nulFree) :
    (readAll b kinds).1.flatMap Field.bytes = load b.data b.pos (total kinds) := by
  induction kinds generalizing b with
  | nil => rfl
  | cons kind kinds ih =>
    simp only [readAll,read_take,List.forall_mem_cons] at free
    have first := bytes_parse kind (b.take kind.size).1 (by simp [Buffer.take]) free.1
    have rest := ih _ free.2
    simp only [readAll,read_take,List.flatMap_cons,first,rest]
    exact (load_add b.data b.pos kind.size (total kinds)).symm

theorem readAll_length (b : Buffer) (kinds : List Kind) :
    ((readAll b kinds).1.flatMap Field.bytes).length ≤ total kinds ∧
      (((readAll b kinds).1.flatMap Field.bytes).length = total kinds ↔
        ∀ field ∈ (readAll b kinds).1, field.nulFree) := by
  induction kinds generalizing b with
  | nil => simp [readAll,total]
  | cons kind kinds ih =>
    obtain ⟨most,exact_iff⟩ := ih (b.take kind.size).2
    have sum : total (kind :: kinds) = kind.size + total kinds := rfl
    have size : (b.take kind.size).1.length = kind.size := by simp [Buffer.take]
    simp only [readAll,read_take,List.flatMap_cons,List.length_append,List.forall_mem_cons,sum,← exact_iff]
    by_cases free : (kind.parse (b.take kind.size).1).nulFree
    · rw [bytes_parse kind _ size free,size]
      refine ⟨by omega,?_⟩
      simp only [free,true_and]
      omega
    · have shorter := parse_shorter kind _ size free
      exact ⟨by omega,iff_of_false (by omega) fun all => free all.1⟩

theorem store_load (mem : Memory) (pos n : Nat) : store mem pos (load mem pos n) = mem := by
  funext i
  simp only [store,List.getD_eq_getElem?_getD]
  by_cases ahead : pos ≤ i
  · by_cases inside : i - pos < n
    · simp [ahead,load_getElem? mem pos n (i - pos) inside]
    · simp [inside]
  · simp [ahead]

theorem written_read (b : Buffer) (fields : List Field) :
    (readAll { writeAll b fields with pos := b.pos } (fields.map Field.kind)).1 = fields.map Field.cut := by
  refine readAll_ahead fields ?_
  rw [writeAll_put]
  exact load_store _ _ _

theorem written_elsewhere (b : Buffer) (fields : List Field) (i : Nat)
    (outside : i < b.pos ∨ (writeAll b fields).pos ≤ i) : (writeAll b fields).data i = b.data i := by
  rw [writeAll_put] at outside ⊢
  simp only [Buffer.put] at outside ⊢
  rcases outside with below | beyond
  · exact store_below _ _ _ below
  · have past : (fields.flatMap Field.bytes).length ≤ i - b.pos := by omega
    simp [store,List.getElem?_eq_none past]

theorem read_written (b : Buffer) (kinds : List Kind) (free : ∀ field ∈ (readAll b kinds).1, field.nulFree) :
    (writeAll { (readAll b kinds).2 with pos := b.pos } (readAll b kinds).1).data = b.data := by
  rw [writeAll_put,readAll_bytes b kinds free,readAll_take]
  exact store_load _ _ _

/-- Fields written from any position on are read back from there, a string up to its first zero, and both the
writes and the reads touch the bytes between the two positions and no others. Fields that were read from
memory end where they did when they are written back exactly if no string has a zero in it, and then leave
the memory as it was. -/
theorem fields_roundTrip :
    (∀ (b : Buffer) (fields : List Field),
      let written := writeAll b fields
      let got := readAll { written with pos := b.pos } (fields.map Field.kind)
      got.1 = fields.map Field.cut ∧ got.2.pos = written.pos ∧
        (∀ i, i < b.pos ∨ written.pos ≤ i → written.data i = b.data i) ∧
        ∀ i, i ∈ got.2.touched ↔ i ∈ b.touched ∨ b.pos ≤ i ∧ i < written.pos) ∧
    ∀ (b : Buffer) (kinds : List Kind),
      let got := readAll b kinds
      let again := writeAll { got.2 with pos := b.pos } got.1
      (again.pos = got.2.pos ↔ ∀ field ∈ got.1, field.nulFree) ∧ (again.pos = got.2.pos → again.data = b.data) := by
  constructor
  · intro b fields written got
    have place : written.pos = b.pos + (fields.flatMap Field.bytes).length := by
      simp only [written,writeAll_put,Buffer.put]
    have final : got.2 = ({ written with pos := b.pos }.take (fields.flatMap Field.bytes).length).2 := by
      simp only [got,readAll_take,total_kind]
    refine ⟨written_read b fields,by rw [final,place,Buffer.take],written_elsewhere b fields,fun i => ?_⟩
    rw [final,place]
    simp only [written,writeAll_put,Buffer.put,Buffer.take,List.mem_append,List.mem_range'_1]
    tauto
  · intro b kinds got again
    obtain ⟨_,whole⟩ := readAll_length b kinds
    have place : again.pos = got.2.pos ↔ ∀ field ∈ got.1, field.nulFree := by
      rw [← whole]
      simp only [again,got,writeAll_put,readAll_take,Buffer.put,Buffer.take]
      omega
    exact ⟨place,fun same => read_written b kinds (place.mp same)⟩

end Sizigy.Fields
