import LidarInterface.Reader2.Visualizer
import LidarInterface.Theorems.Framing
import LidarInterface.Theorems.Reader2Decode

/-! The receive loops of `reader2.0`, datagram by datagram. The reader hands every payload to its parser. After
    any run of the visualizer the map groups by bin the samples decoded from the payloads received, in order of
    arrival; nothing else of the run is left in it. -/

namespace LidarInterface.Reader2
open Foundation Format

/-! ### Payloads -/

def payloads (rs : List Recv) : List (List UInt8) := (rs.filterMap Recv.datagram?).filterMap payload

theorem payloads_append (rs rs' : List Recv) : payloads (rs ++ rs') = payloads rs ++ payloads rs' := by
  rw [payloads, List.filterMap_append, List.filterMap_append]
  rfl

theorem payloads_datagram (bytes : List UInt8) : payloads [.datagram bytes] = (payload bytes).toList := by
  cases h : payload bytes <;> simp [payloads, Recv.datagram?, h]

theorem samePacket_ofList {data : Memory} {p : List UInt8} (h : data.bytes 1206 = p) : SamePacket data (.ofList p) := by
  have hlen : p.length = 1206 := by rw [← h, Memory.length_bytes]
  apply Memory.bytes_congr.mp
  rw [packetSize, h, ← hlen, Memory.bytes_ofList]

section Rounded
variable [Arithmetic]

def emitted (host : ByteOrder) (p : List UInt8) : List LidarPoint :=
  (({} : MSOPParser).parsePacket host (.ofList p) 1206 []).points

theorem emitted_bytes (host : ByteOrder) (data : Memory) : emitted host (data.bytes 1206) = decode data := by
  have hsame : SamePacket data (.ofList (data.bytes 1206)) := samePacket_ofList (Eq.refl (data.bytes 1206))
  rw [emitted, parsePacket_of_size, decode_congr (sameValid_of_samePacket hsame)]

/-- What the parser and the caller's vector hold after a payload was parsed, whatever they held before. -/
theorem parsePacket_payload {host : ByteOrder} {self : MSOPParser} {data : Memory} {points : List LidarPoint}
    {p : List UInt8} (h : data.bytes 1206 = p) : self.parsePacket host data 1206 points =
      ⟨true, ⟨timestamp (.ofList p), factoryInfo (.ofList p)⟩, emitted host p⟩ := by
  have hsame := samePacket_ofList h
  rw [emitted, parsePacket_of_size, parsePacket_of_size, hsame.timestamp, hsame.factoryInfo,
    decode_congr (sameValid_of_samePacket hsame)]

/-- The samples of a run: the emitted points that pass the filter, in order of arrival. -/
def samples (host : ByteOrder) (rs : List Recv) : List LidarPoint :=
  ((payloads rs).flatMap (emitted host)).filter isSample

theorem samples_append (host : ByteOrder) (rs rs' : List Recv) :
    samples host (rs ++ rs') = samples host rs ++ samples host rs' := by
  rw [samples, payloads_append, List.flatMap_append, List.filter_append]
  rfl

/-! ### The loop of the reader -/

section Receiver
variable (host : ByteOrder) (st : Receiver)

theorem Receiver.step_datagram (bytes : List UInt8) :
    (st.step host (.datagram bytes)).packetCount = st.packetCount + 1 ∧
    ((st.step host (.datagram bytes)).parser, (st.step host (.datagram bytes)).points) =
      match payload bytes with
      | none => (st.parser, st.points)
      | some p => (⟨timestamp (.ofList p), factoryInfo (.ofList p)⟩, emitted host p) := by
  rw [Receiver.step, receivePacket_datagram]
  simp only [dispatch_receivePacket]
  by_cases h6 : bytes.length = 1206
  · rw [payload_whole h6, if_pos h6]
    simp only [parsePacket_payload (bytes_whole st.buffer h6), and_self]
  · by_cases h8 : bytes.length = 1248
    · rw [payload_header h8, if_neg h6, if_pos h8]
      simp only [parsePacket_payload (bytes_header st.buffer h8), and_self]
    · rw [payload_other h6 h8, if_neg h6, if_neg h8]
      exact ⟨rfl, rfl⟩

/-- After any run the parser and the points are those of the last payload, and every datagram is counted. -/
theorem Receiver.run (rs : List Recv) :
    (rs.foldl (Receiver.step host) st).packetCount = st.packetCount + (rs.filterMap Recv.datagram?).length ∧
    ((rs.foldl (Receiver.step host) st).parser, (rs.foldl (Receiver.step host) st).points) =
      match (payloads rs).getLast? with
      | none => (st.parser, st.points)
      | some p => (⟨timestamp (.ofList p), factoryInfo (.ofList p)⟩, emitted host p) := by
  induction rs using List.reverseRecOn with
  | nil => exact ⟨rfl, rfl⟩
  | append_singleton rs r ih =>
    obtain ⟨hcount, hlast⟩ := ih
    rw [List.foldl_append, List.filterMap_append, List.length_append, payloads_append]
    cases r with
    | error =>
      rw [show payloads [.error] = [] from rfl, List.append_nil]
      exact ⟨hcount, hlast⟩
    | datagram bytes =>
      obtain ⟨hcount', hlast'⟩ := Receiver.step_datagram host (rs.foldl (Receiver.step host) st) bytes
      refine ⟨hcount'.trans (by rw [hcount]; rfl), hlast'.trans ?_⟩
      rw [payloads_datagram]
      cases payload bytes with
      | none => simpa using hlast
      | some p => simp

end Receiver

/-! ### The loop of the visualizer -/

section Collector
variable (host : ByteOrder) (st : Collector)

theorem packetCount_step (bytes : List UInt8) :
    (st.step host (.datagram bytes)).packetCount = st.packetCount + 1 := by
  rw [Collector.step, receivePacket_datagram]
  simp only [apply_ite Collector.packetCount, ite_self]

theorem foldl_addPoint (points : List LidarPoint) (m : AngleMap) :
    points.foldl addPoint m = (points.filter isSample).foldl (fun m p => Groups.pushAt m (angleBin p) p) m := by
  rw [List.foldl_filter]
  rfl

/-- An accepted datagram adds the samples of its payload, another one nothing. -/
theorem step_datagram (bytes : List UInt8) : (st.step host (.datagram bytes)).angleMap =
    match payload bytes with
    | none => st.angleMap
    | some p => ((emitted host p).filter isSample).foldl (fun m p => Groups.pushAt m (angleBin p) p) st.angleMap := by
  rw [Collector.step, receivePacket_datagram]
  by_cases h6 : bytes.length = 1206
  · simp [payload_whole h6, h6, parsePacket_payload (bytes_whole st.buffer h6), foldl_addPoint]
  · by_cases h8 : bytes.length = 1248
    · simp [payload_header h8, h8, parsePacket_payload (bytes_header st.buffer h8), foldl_addPoint]
    · have hskip : ¬(min bytes.length 2048 = 1206 ∨ min bytes.length 2048 = 1248) := by omega
      simp [payload_other h6 h8, hskip]

theorem step_angleMap (rs : List Recv) (r : Recv) (h : st.angleMap = Groups.group angleBin (samples host rs)) :
    (st.step host r).angleMap = Groups.group angleBin (samples host (rs ++ [r])) := by
  rw [samples_append, Groups.group_append, ← h]
  cases r with
  | error => rfl
  | datagram bytes =>
    rw [step_datagram, samples, payloads_datagram]
    cases payload bytes with
    | none => rfl
    | some p => rw [Option.toList_some, List.flatMap_cons, List.flatMap_nil, List.append_nil]

end Collector

/-- After any run the map groups the samples of the run by bin. -/
theorem Collects.angleMap_eq {host : ByteOrder} {rs : List Recv} {st : Collector} (h : Collects host rs st) :
    st.angleMap = Groups.group angleBin (samples host rs) := by
  induction h with
  | start buffer => rfl
  | step _ _ r ih => exact step_angleMap host _ _ r ih

end Rounded

end LidarInterface.Reader2
