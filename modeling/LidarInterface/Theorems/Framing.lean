import LidarInterface.Reader2.Receive
import LidarInterface.Theorems.ScanDecode

/-! Which bytes of a datagram reach a parser. `reader2.0` receives into a buffer longer than any packet, so it
    sees the true length and skips a header of 42 bytes. `LiDARReader` receives into the packet itself: a
    longer datagram is cut before its length is tested, and its first 1206 bytes are decoded. -/

namespace LidarInterface
open Foundation Format

namespace Reader2

/-- The MSOP payload of a datagram: the whole of 1206 bytes, or what follows the header in 1248. -/
def payload (bytes : List UInt8) : Option (List UInt8) :=
  if bytes.length = 1206 then some bytes else if bytes.length = 1248 then some (bytes.drop 42) else none

section Payload
variable {bytes : List UInt8}

theorem payload_whole (h : bytes.length = 1206) : payload bytes = some bytes := if_pos h

theorem payload_header (h : bytes.length = 1248) : payload bytes = some (bytes.drop 42) := by
  rw [payload, if_neg (by omega), if_pos h]

theorem payload_other (h6 : bytes.length ≠ 1206) (h8 : bytes.length ≠ 1248) : payload bytes = none := by
  rw [payload, if_neg h6, if_neg h8]

end Payload

theorem receivePacket_datagram (buffer : Memory) (bytes : List UInt8) :
    receivePacket buffer (.datagram bytes) =
      (buffer.write bytes (min bytes.length 2048), some (min bytes.length 2048)) := by
  have hcall : receivePacket buffer (.datagram bytes) =
      if (min bytes.length 2048 : Int) < 0 then (buffer.write bytes (min bytes.length 2048), none)
      else (buffer.write bytes (min bytes.length 2048), some (min bytes.length 2048 : Int).toNat) := rfl
  rw [hcall, if_neg (by omega)]
  refine Prod.ext rfl (congrArg some ?_)
  omega

theorem dispatch_receivePacket (buffer : Memory) (bytes : List UInt8) :
    dispatch (buffer.write bytes (min bytes.length 2048)) (min bytes.length 2048) =
      if bytes.length = 1206 then some (buffer.write bytes 1206, 1206)
      else if bytes.length = 1248 then some ((buffer.write bytes 1248).shift 42, 1206) else none := by
  unfold dispatch
  by_cases h6 : bytes.length = 1206
  · rw [h6]
    rfl
  · by_cases h8 : bytes.length = 1248
    · rw [h8]
      rfl
    · rw [if_neg (by omega), if_neg (by omega), if_neg h6, if_neg h8]

/-- The bytes that the receive loop hands to the parser for one call of `recvfrom`, if any. -/
def handed (buffer : Memory) (r : Recv) : Option (List UInt8) :=
  match receivePacket buffer r with
  | (_, none) => none
  | (buffer, some receivedSize) => (dispatch buffer receivedSize).map fun handed => handed.1.bytes handed.2

theorem bytes_whole (buffer : Memory) {bytes : List UInt8} (h : bytes.length = 1206) :
    (buffer.write bytes 1206).bytes 1206 = bytes := by
  rw [Memory.bytes_write _ _ _ h.ge, List.take_of_length_le h.le]

theorem bytes_header (buffer : Memory) {bytes : List UInt8} (h : bytes.length = 1248) :
    ((buffer.write bytes 1248).shift 42).bytes 1206 = bytes.drop 42 := by
  rw [Memory.bytes_shift, Memory.bytes_write _ _ _ h.ge, List.take_of_length_le h.le]

theorem handed_datagram (buffer : Memory) (bytes : List UInt8) : handed buffer (.datagram bytes) = payload bytes := by
  rw [handed, receivePacket_datagram]
  simp only [dispatch_receivePacket]
  by_cases h6 : bytes.length = 1206
  · rw [if_pos h6, payload_whole h6, Option.map_some, bytes_whole _ h6]
  · by_cases h8 : bytes.length = 1248
    · rw [if_neg h6, if_pos h8, payload_header h8, Option.map_some, bytes_header _ h8]
    · rw [if_neg h6, if_neg h8, payload_other h6 h8, Option.map_none]

end Reader2

namespace Slam
open Reader2

section Rounded
variable [Arithmetic]

/-- The two readers frame the datagram alike: a scan is decoded from the bytes that `reader2.0` hands to its
    parser, which are the payload, and a datagram of another length makes `readScan` throw. -/
structure SameFrame (bytes : List UInt8) : Prop where
  scanned : ∀ (self : LiDARReader) (host : ByteOrder) (buf buffer : Memory) (scan : Scan),
    self.readScan host buf (.datagram bytes) = .ok scan →
      ∃ packet, recvPacket buf (.datagram bytes) = .ok packet ∧ scan = self.decodeScan host (.load host packet) ∧
        handed buffer (.datagram bytes) = some (packet.bytes 1206)
  whole : ∀ buffer, bytes.length = 1206 → handed buffer (.datagram bytes) = some bytes
  header : ∀ buffer, bytes.length = 1248 → handed buffer (.datagram bytes) = some (bytes.drop 42)
  refused : ∀ (self : LiDARReader) (host : ByteOrder) (buf : Memory),
    bytes.length ≠ 1206 → bytes.length ≠ 1248 → ∃ e, self.readScan host buf (.datagram bytes) = .error e

/-- In addition no scan is decoded from a truncated datagram. -/
structure Framed (bytes : List UInt8) : Prop extends SameFrame bytes where
  untruncated : ∀ (self : LiDARReader) (host : ByteOrder) (buf : Memory) (scan : Scan),
    self.readScan host buf (.datagram bytes) = .ok scan → bytes.length ≤ 1206

theorem readScan_of_le (self : LiDARReader) (host : ByteOrder) (buf : Memory) {bytes : List UInt8}
    (h : 1206 ≤ bytes.length) :
    self.readScan host buf (.datagram bytes) = .ok (self.decodeScan host (.load host (buf.write bytes 1206))) := by
  rw [readScan_datagram, if_pos h]

omit [Arithmetic] in
theorem recvPacket_of_le (buf : Memory) {bytes : List UInt8} (h : 1206 ≤ bytes.length) :
    recvPacket buf (.datagram bytes) = .ok (buf.write bytes 1206) := by
  rw [recvPacket_datagram, if_pos h]

/-- The frames agree up to 1206 bytes, and beyond only when cutting the end and skipping the header leave the
    same bytes. -/
theorem sameFrame_iff (bytes : List UInt8) :
    SameFrame bytes ↔ bytes.length ≤ 1206 ∨ bytes.length = 1248 ∧ bytes.take 1206 = bytes.drop 42 := by
  constructor
  · intro h
    by_cases hle : bytes.length ≤ 1206
    · exact Or.inl hle
    · obtain ⟨packet, hpacket, -, hsame⟩ :=
        h.scanned {} .little (fun _ => 0) (fun _ => 0) _ (readScan_of_le _ _ _ (by omega))
      obtain rfl := Except.ok.inj ((recvPacket_of_le _ (by omega)).symm.trans hpacket)
      rw [handed_datagram, Memory.bytes_write _ _ _ (by omega)] at hsame
      by_cases h8 : bytes.length = 1248
      · rw [payload_header h8] at hsame
        exact Or.inr ⟨h8, (Option.some.inj hsame).symm⟩
      · rw [payload_other (by omega) h8] at hsame
        cases hsame
  · intro h
    refine ⟨fun self host buf buffer scan hscan => ?_, fun buffer h6 => ?_, fun buffer h8 => ?_,
      fun self host buf h6 h8 => ?_⟩
    · have hlong : 1206 ≤ bytes.length := by
        by_contra hshort
        rw [readScan_datagram, if_neg hshort] at hscan
        cases hscan
      rw [readScan_of_le _ _ _ hlong] at hscan
      refine ⟨_, recvPacket_of_le _ hlong, (Except.ok.inj hscan).symm, ?_⟩
      rw [handed_datagram, Memory.bytes_write _ _ _ hlong]
      rcases h with hle | ⟨h8, hsame⟩
      · rw [payload_whole (by omega), List.take_of_length_le hle]
      · rw [payload_header h8, hsame]
    · rw [handed_datagram, payload_whole h6]
    · rw [handed_datagram, payload_header h8]
    · exact ⟨_, by rw [readScan_datagram, if_neg (by omega)]⟩

/-- Datagrams of at most 1206 bytes are framed alike; every longer one is cut, and a scan decoded from it. -/
theorem framed_iff (bytes : List UInt8) : Framed bytes ↔ bytes.length ≤ 1206 := by
  refine ⟨fun h => ?_, fun h => ⟨(sameFrame_iff bytes).mpr (Or.inl h), fun _ _ _ _ _ => h⟩⟩
  by_contra hlong
  exact hlong (h.untruncated {} .little (fun _ => 0) _ (readScan_of_le _ _ _ (by omega)))

end Rounded

open Ieee in
/-- A header of 42 bytes 0x45 before a packet of zeros: `reader2.0` hands over the packet, the scan is decoded
    from the header and the start of the packet. -/
theorem not_framed_header : ¬Framed (List.replicate 42 0x45 ++ List.replicate 1206 0) := by
  intro h
  rcases (sameFrame_iff _).mp h.toSameFrame with hle | ⟨-, hsame⟩
  · rw [List.length_append, List.length_replicate, List.length_replicate] at hle
    omega
  · have hfirst := congrArg (fun l => l[0]?) hsame
    simp only [List.getElem?_take, List.getElem?_drop, List.getElem?_append, List.length_replicate,
      List.getElem?_replicate] at hfirst
    exact absurd hfirst (by decide)

end Slam
end LidarInterface
