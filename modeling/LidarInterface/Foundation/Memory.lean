import Mathlib.Data.List.Basic

/-! Byte memory as a program sees it through a pointer, and the loads of multi-byte fields on hosts of
    either byte order. A field that a protocol stores most significant byte first is read right by
    loading it natively and converting it once (`ntohs_load16`, `ntohl_load32`). -/

namespace Foundation

/-- The bytes at and after a pointer. -/
abbrev Memory := Nat → UInt8

inductive ByteOrder where
  | little
  | big
  deriving DecidableEq, Repr

namespace Memory

/-- Pointer arithmetic: the memory seen through `m + n`. -/
def shift (m : Memory) (n : Nat) : Memory := fun k => m (n + k)

@[simp] theorem shift_apply (m : Memory) (n k : Nat) : m.shift n k = m (n + k) := rfl

/-- The memory after the first `n` bytes of `bytes` are copied to its start. -/
def write (m : Memory) (bytes : List UInt8) (n : Nat) : Memory := fun k =>
  if k < n then bytes.getD k (m k) else m k

def bytes (m : Memory) (n : Nat) : List UInt8 := (List.range n).map m

@[simp] theorem length_bytes (m : Memory) (n : Nat) : (m.bytes n).length = n := by simp [bytes]

theorem bytes_congr {m m' : Memory} {n : Nat} : m.bytes n = m'.bytes n ↔ ∀ k < n, m k = m' k := by
  simp [bytes, List.map_inj_left]

theorem bytes_write (m : Memory) (bs : List UInt8) (n : Nat) (h : n ≤ bs.length) :
    (m.write bs n).bytes n = bs.take n := by
  apply List.ext_getElem
  · simp [h]
  · intro k hk _
    have hk' : k < n := by simpa using hk
    have hb : k < bs.length := by omega
    simp [bytes, write, hk', List.getD_eq_getElem?_getD, List.getElem?_eq_getElem hb]

theorem bytes_shift (m : Memory) (n k : Nat) : (m.shift n).bytes k = (m.bytes (n + k)).drop n := by
  apply List.ext_getElem
  · simp
  · intro j _ _
    simp [bytes]

def ofList (bs : List UInt8) : Memory := fun k => bs.getD k 0

theorem bytes_ofList (bs : List UInt8) : (ofList bs).bytes bs.length = bs := by
  apply List.ext_getElem
  · simp
  · intro k hk _
    have hb : k < bs.length := by simpa using hk
    simp [bytes, ofList, List.getD_eq_getElem?_getD, List.getElem?_eq_getElem hb]

/-! ### Big-endian fields -/

/-- The two-byte field at `off`, most significant byte first. -/
def be16 (m : Memory) (off : Nat) : UInt16 := .ofNat ((m off).toNat * 256 + (m (off + 1)).toNat)

def be32 (m : Memory) (off : Nat) : UInt32 :=
  .ofNat ((((m off).toNat * 256 + (m (off + 1)).toNat) * 256 + (m (off + 2)).toNat) * 256 + (m (off + 3)).toNat)

theorem be16_toNat (m : Memory) (off : Nat) : (m.be16 off).toNat = (m off).toNat * 256 + (m (off + 1)).toNat := by
  have h0 := (m off).toNat_lt
  have h1 := (m (off + 1)).toNat_lt
  rw [be16, UInt16.toNat_ofNat']
  omega

theorem be16_congr {m m' : Memory} {off : Nat} (h0 : m off = m' off) (h1 : m (off + 1) = m' (off + 1)) :
    m.be16 off = m'.be16 off := by
  rw [be16, be16, h0, h1]

theorem be16_shift (m : Memory) (n off : Nat) : (m.shift n).be16 off = m.be16 (n + off) := rfl

theorem be32_shift (m : Memory) (n off : Nat) : (m.shift n).be32 off = m.be32 (n + off) := rfl

/-- Byte `k` of a two-byte value, counted from the most significant one. -/
def byte16 (v : UInt16) : Nat → UInt8
  | 0 => .ofNat (v.toNat / 256)
  | _ => .ofNat v.toNat

def byte32 (v : UInt32) : Nat → UInt8
  | 0 => .ofNat (v.toNat / 16777216)
  | 1 => .ofNat (v.toNat / 65536)
  | 2 => .ofNat (v.toNat / 256)
  | _ => .ofNat v.toNat

theorem be16_eq_of_bytes {m : Memory} {off : Nat} {v : UInt16} (h : ∀ k < 2, m (off + k) = byte16 v k) :
    m.be16 off = v := by
  have hv := v.toNat_lt
  have h0 : m off = .ofNat (v.toNat / 256) := h 0 (by omega)
  have h1 : m (off + 1) = .ofNat v.toNat := h 1 (by omega)
  apply UInt16.toNat_inj.mp
  rw [be16_toNat, h0, h1, UInt8.toNat_ofNat', UInt8.toNat_ofNat']
  omega

theorem be32_eq_of_bytes {m : Memory} {off : Nat} {v : UInt32} (h : ∀ k < 4, m (off + k) = byte32 v k) :
    m.be32 off = v := by
  have hv := v.toNat_lt
  have h0 : m off = .ofNat (v.toNat / 16777216) := h 0 (by omega)
  have h1 : m (off + 1) = .ofNat (v.toNat / 65536) := h 1 (by omega)
  have h2 : m (off + 2) = .ofNat (v.toNat / 256) := h 2 (by omega)
  have h3 : m (off + 3) = .ofNat v.toNat := h 3 (by omega)
  apply UInt32.toNat_inj.mp
  rw [be32, UInt32.toNat_ofNat', h0, h1, h2, h3]
  simp only [UInt8.toNat_ofNat']
  omega

/-- The bytes of a field are those it is laid out in. -/
theorem byte16_be16 (m : Memory) (off : Nat) {k : Nat} (hk : k < 2) : byte16 (m.be16 off) k = m (off + k) := by
  have h1 := (m (off + 1)).toNat_lt
  apply UInt8.toNat_inj.mp
  match k, hk with
  | 0, _ =>
    rw [show off + 0 = off from rfl, byte16, UInt8.toNat_ofNat', be16_toNat]
    have h0 := (m off).toNat_lt
    omega
  | 1, _ =>
    rw [byte16, UInt8.toNat_ofNat', be16_toNat]
    · omega
    · exact Nat.one_ne_zero

theorem be32_toNat (m : Memory) (off : Nat) : (m.be32 off).toNat =
    (((m off).toNat * 256 + (m (off + 1)).toNat) * 256 + (m (off + 2)).toNat) * 256 + (m (off + 3)).toNat := by
  have h0 := (m off).toNat_lt
  have h1 := (m (off + 1)).toNat_lt
  have h2 := (m (off + 2)).toNat_lt
  have h3 := (m (off + 3)).toNat_lt
  rw [be32, UInt32.toNat_ofNat']
  omega

theorem byte32_be32 (m : Memory) (off : Nat) {k : Nat} (hk : k < 4) : byte32 (m.be32 off) k = m (off + k) := by
  have h0 := (m off).toNat_lt
  have h1 := (m (off + 1)).toNat_lt
  have h2 := (m (off + 2)).toNat_lt
  have h3 := (m (off + 3)).toNat_lt
  apply UInt8.toNat_inj.mp
  match k, hk with
  | 0, _ =>
    rw [show off + 0 = off from rfl, byte32, UInt8.toNat_ofNat', be32_toNat]
    omega
  | 1, _ =>
    rw [byte32, UInt8.toNat_ofNat', be32_toNat]
    omega
  | 2, _ =>
    rw [byte32, UInt8.toNat_ofNat', be32_toNat]
    omega
  | 3, _ =>
    have hlast : byte32 (m.be32 off) 3 = .ofNat (m.be32 off).toNat := rfl
    rw [hlast, UInt8.toNat_ofNat', be32_toNat]
    omega

/-! ### Native loads -/

/-- A packed `uint16_t` load at `off`. -/
def load16 (m : Memory) (host : ByteOrder) (off : Nat) : UInt16 :=
  match host with
  | .little => .ofNat ((m off).toNat + (m (off + 1)).toNat * 256)
  | .big => .ofNat ((m off).toNat * 256 + (m (off + 1)).toNat)

def load32 (m : Memory) (host : ByteOrder) (off : Nat) : UInt32 :=
  match host with
  | .little =>
    .ofNat ((m off).toNat + ((m (off + 1)).toNat + ((m (off + 2)).toNat + (m (off + 3)).toNat * 256) * 256) * 256)
  | .big =>
    .ofNat ((((m off).toNat * 256 + (m (off + 1)).toNat) * 256 + (m (off + 2)).toNat) * 256 + (m (off + 3)).toNat)

end Memory

namespace ByteOrder

/-- `ntohs`: the byte swap on a little-endian host, the identity on a big-endian one. -/
def ntohs : ByteOrder → UInt16 → UInt16
  | .little, v => .ofNat (v.toNat % 256 * 256 + v.toNat / 256)
  | .big, v => v

/-- `ntohl`: the reversal of the four bytes on a little-endian host, the identity on a big-endian one. -/
def ntohl : ByteOrder → UInt32 → UInt32
  | .little, v =>
    .ofNat (((v.toNat % 256 * 256 + v.toNat / 256 % 256) * 256 + v.toNat / 65536 % 256) * 256 + v.toNat / 16777216)
  | .big, v => v

/-- A native load converted once is the big-endian field, on either host. -/
@[simp] theorem ntohs_load16 (host : ByteOrder) (m : Memory) (off : Nat) :
    host.ntohs (m.load16 host off) = m.be16 off := by
  cases host with
  | big => rfl
  | little =>
    have h0 := (m off).toNat_lt
    have h1 := (m (off + 1)).toNat_lt
    have hload : (m.load16 .little off).toNat = (m off).toNat + (m (off + 1)).toNat * 256 := by
      rw [Memory.load16, UInt16.toNat_ofNat']
      omega
    rw [ntohs, Memory.be16, hload]
    refine congrArg UInt16.ofNat ?_
    omega

@[simp] theorem ntohl_load32 (host : ByteOrder) (m : Memory) (off : Nat) :
    host.ntohl (m.load32 host off) = m.be32 off := by
  cases host with
  | big => rfl
  | little =>
    have h0 := (m off).toNat_lt
    have h1 := (m (off + 1)).toNat_lt
    have h2 := (m (off + 2)).toNat_lt
    have h3 := (m (off + 3)).toNat_lt
    have hload : (m.load32 .little off).toNat =
        (m off).toNat + ((m (off + 1)).toNat + ((m (off + 2)).toNat + (m (off + 3)).toNat * 256) * 256) * 256 := by
      rw [Memory.load32, UInt32.toNat_ofNat']
      omega
    rw [ntohl, Memory.be32, hload]
    refine congrArg UInt32.ofNat ?_
    generalize (m off).toNat = b0, (m (off + 1)).toNat = b1, (m (off + 2)).toNat = b2,
      (m (off + 3)).toNat = b3 at h0 h1 h2 h3
    have d0 : (b0 + (b1 + (b2 + b3 * 256) * 256) * 256) % 256 = b0 := by omega
    have d1 : (b0 + (b1 + (b2 + b3 * 256) * 256) * 256) / 256 % 256 = b1 := by omega
    have d2 : (b0 + (b1 + (b2 + b3 * 256) * 256) * 256) / 65536 % 256 = b2 := by omega
    have d3 : (b0 + (b1 + (b2 + b3 * 256) * 256) * 256) / 16777216 = b3 := by omega
    rw [d0, d1, d2, d3]

theorem ntohs_ntohs (host : ByteOrder) (v : UInt16) : host.ntohs (host.ntohs v) = v := by
  cases host with
  | big => rfl
  | little =>
    have hv := v.toNat_lt
    have hswap : (ntohs .little v).toNat = v.toNat % 256 * 256 + v.toNat / 256 := by
      rw [ntohs, UInt16.toNat_ofNat']
      omega
    have hlow : (v.toNat % 256 * 256 + v.toNat / 256) % 256 = v.toNat / 256 := by omega
    have hhigh : (v.toNat % 256 * 256 + v.toNat / 256) / 256 = v.toNat % 256 := by omega
    have hback : v.toNat / 256 * 256 + v.toNat % 256 = v.toNat := by omega
    apply UInt16.toNat_inj.mp
    rw [ntohs, UInt16.toNat_ofNat', hswap, hlow, hhigh, hback]
    exact Nat.mod_eq_of_lt hv

theorem ntohl_ntohl (host : ByteOrder) (v : UInt32) : host.ntohl (host.ntohl v) = v := by
  cases host with
  | big => rfl
  | little =>
    -- The bytes of `v` in both orders: each load of one is the field of the other.
    let m : Memory := fun k => Memory.byte32 v k
    let m' : Memory := fun k => Memory.byte32 v (3 - k)
    have hfield : m.be32 0 = v := Memory.be32_eq_of_bytes fun k _ => by rw [Nat.zero_add]
    have h0 : m' 0 = m (0 + 3) := rfl
    have h1 : m' (0 + 1) = m (0 + 2) := rfl
    have h2 : m' (0 + 2) = m (0 + 1) := rfl
    have h3 : m' (0 + 3) = m 0 := rfl
    have hload : m'.load32 .little 0 = m.be32 0 := congrArg UInt32.ofNat (by rw [h0, h1, h2, h3]; omega)
    have hload' : m.load32 .little 0 = m'.be32 0 := congrArg UInt32.ofNat (by rw [h0, h1, h2, h3]; omega)
    rw [← hfield, ← hload, ntohl_load32, ← hload', ntohl_load32, hload]

theorem ntohl_inj (host : ByteOrder) {v w : UInt32} : host.ntohl v = host.ntohl w ↔ v = w :=
  ⟨fun h => by rw [← ntohl_ntohl host v, h, ntohl_ntohl], fun h => by rw [h]⟩

theorem ntohs_inj (host : ByteOrder) {v w : UInt16} : host.ntohs v = host.ntohs w ↔ v = w :=
  ⟨fun h => by rw [← ntohs_ntohs host v, h, ntohs_ntohs], fun h => by rw [h]⟩

end ByteOrder
end Foundation
