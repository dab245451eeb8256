import LidarInterface.Slam.Plotter
import LidarInterface.Theorems.Lakibeam

/-! The pictures of `lidar_plotter`. Each shows the strongest returns of one datagram and nothing of an earlier one. A
    return nearer than the edge of the canvas is always drawn, and a farther one never nearer to the centre. The
    program shows a picture for exactly the datagrams that `lakibeam_reader` prints a block for. -/

namespace LidarInterface.Plotter
open Foundation Format Lakibeam
open Slam (firstBlock)

section Frames
variable {K : Type} [Field K] [LinearOrder K] [FloorRing K] (T : Polar.Trig K)

/-! ### One picture -/

/-- The strongest return of measurement `i` is a candidate for the picture. -/
def Drawable (data : Memory) (i : Fin 16) : Prop :=
  Measured data ⟨firstBlock, i, .strongest⟩ ∧ rssi data ⟨firstBlock, i, .strongest⟩ ≠ 0

instance (data : Memory) : DecidablePred (Drawable data) := fun _ => inferInstanceAs (Decidable (_ ∧ _))

def pixelAt (data : Memory) (i : Fin 16) : ℤ × ℤ :=
  pixel T (degreesOf (azimuth data firstBlock)) (metersOf (distance data ⟨firstBlock, i, .strongest⟩))

def frame (data : Memory) : Canvas :=
  ((List.finRange 16).filter fun i => Drawable data i ∧ inside (pixelAt T data i) = true).map (pixelAt T data)

theorem drawReturn_eq (data : Memory) (i : Fin 16) (canvas : Canvas) :
    drawReturn T (data.shift (4 + i.val * 6)) (degreesOf (azimuth data firstBlock)) canvas =
      if Drawable data i ∧ inside (pixelAt T data i) = true then canvas ++ [pixelAt T data i] else canvas := by
  have hoff : 4 + i.val * 6 = 100 * firstBlock.val + (4 + 6 * i.val) := by
    have hfirst : firstBlock.val = 0 := rfl
    omega
  have hdist : readBe16 (data.shift (4 + i.val * 6)) = distance data ⟨firstBlock, i, .strongest⟩ := by
    refine (readBe16_eq _).trans ?_
    rw [Memory.be16_shift, hoff]
    rfl
  have hrssi : data.shift (4 + i.val * 6) 2 = rssi data ⟨firstBlock, i, .strongest⟩ := by
    rw [Memory.shift_apply, hoff]
    rfl
  rw [drawReturn, hdist, hrssi]
  by_cases hd : Drawable data i
  · have hskip : ¬(distance data ⟨firstBlock, i, .strongest⟩ = 0xFFFF ∨ distance data ⟨firstBlock, i, .strongest⟩ = 0 ∨
        rssi data ⟨firstBlock, i, .strongest⟩ = 0) := by
      rintro (h | h | h)
      · exact hd.1.2 h
      · exact hd.1.1 h
      · exact hd.2 h
    rw [if_neg hskip]
    exact if_congr (and_iff_right hd).symm rfl rfl
  · have hskip : distance data ⟨firstBlock, i, .strongest⟩ = 0xFFFF ∨ distance data ⟨firstBlock, i, .strongest⟩ = 0 ∨
        rssi data ⟨firstBlock, i, .strongest⟩ = 0 := by
      by_contra hne
      obtain ⟨h1, h2⟩ := not_or.mp hne
      obtain ⟨h2, h3⟩ := not_or.mp h2
      exact hd ⟨⟨h2, h1⟩, h3⟩
    rw [if_pos hskip, if_neg fun h => hd h.1]

theorem foldl_drawReturn (data : Memory) : (List.finRange 16).foldl (fun canvas i =>
    drawReturn T (data.shift (4 + i.val * 6)) (degreesOf (azimuth data firstBlock)) canvas) [] = frame T data := by
  have hfilter := @List.foldl_filter _ _ (fun i => decide (Drawable data i ∧ inside (pixelAt T data i) = true))
    (fun (canvas : Canvas) i => canvas ++ [pixelAt T data i]) (List.finRange 16) []
  simp only [decide_eq_true_eq] at hfilter
  simp only [drawReturn_eq]
  rw [← hfilter, List.foldl_append_eq_append, List.nil_append, frame, ← List.flatMap_def, ← List.map_eq_flatMap]

/-! ### Runs -/

/-- The datagrams that a picture is shown for. -/
def Accepted (bytes : List UInt8) : Prop :=
  100 ≤ bytes.length ∧ flag (.ofList bytes) firstBlock = dataFlag ∧ azimuth (.ofList bytes) firstBlock ≠ 0xFFFF

instance : DecidablePred Accepted := fun _ => inferInstanceAs (Decidable (_ ∧ _ ∧ _))

def accepted (r : Recv) : Option (List UInt8) := r.datagram?.filter fun bytes => Accepted bytes

theorem readsBelow_frame : Memory.ReadsBelow 100 (frame T) := by
  intro m m' hm
  have hblock : SameBlock m m' firstBlock := fun r hr => by
    have hfirst : firstBlock.val = 0 := rfl
    exact hm _ (by omega)
  have hdist : ∀ i, distance m ⟨firstBlock, i, .strongest⟩ = distance m' ⟨firstBlock, i, .strongest⟩ :=
    fun i => hblock.distance ⟨firstBlock, i, _⟩
  have hrssi : ∀ i, rssi m ⟨firstBlock, i, .strongest⟩ = rssi m' ⟨firstBlock, i, .strongest⟩ :=
    fun i => hblock.rssi ⟨firstBlock, i, _⟩
  have hpixel : pixelAt T m = pixelAt T m' := by
    funext i
    rw [pixelAt, pixelAt, hblock.azimuth, hdist]
  have hdrawable : ∀ i, Drawable m i ↔ Drawable m' i := fun i => by
    rw [Drawable, Drawable, Measured, Measured, hdist, hrssi]
  simp only [frame, hpixel, hdrawable]

theorem shown_eq (st : Plot) (buffer : Memory) {len : Int} (h : 100 ≤ len) (hcanvas : st.canvas = []) :
    shown T st buffer len =
      if flag buffer firstBlock = dataFlag ∧ azimuth buffer firstBlock ≠ 0xFFFF then some (frame T buffer)
      else none := by
  have hflag : readBe16 buffer = flag buffer firstBlock := readBe16_eq buffer
  have hazimuth : readBe16 (buffer.shift 2) = azimuth buffer firstBlock := readBe16_eq _
  rw [shown, if_neg (by omega), hflag, hazimuth, hcanvas]
  by_cases hf : flag buffer firstBlock = dataFlag
  · have hheader : ¬flag buffer firstBlock ≠ headerFlag := not_not.mpr hf
    by_cases ha : azimuth buffer firstBlock = 0xFFFF
    · rw [if_neg hheader, if_pos ha, if_neg fun h => h.2 ha]
    · rw [if_neg hheader, if_neg ha, if_pos ⟨hf, ha⟩]
      exact congrArg some (foldl_drawReturn T buffer)
  · have hheader : flag buffer firstBlock ≠ headerFlag := hf
    rw [if_pos hheader, if_neg fun h => hf h.1]

theorem shown_datagram (st : Plot) (hcanvas : st.canvas = []) (bytes : List UInt8) :
    shown T st (st.buffer.write bytes (min bytes.length buflen)) ((min bytes.length buflen : Nat) : Int) =
      if Accepted bytes then some (frame T (.ofList bytes)) else none := by
  have hle : min bytes.length buflen ≤ bytes.length := Nat.min_le_left _ _
  by_cases hlen : 100 ≤ bytes.length
  · have hlong : 100 ≤ min bytes.length buflen := by
      rw [buflen]
      omega
    have hsame : ∀ n < 100, st.buffer.write bytes (min bytes.length buflen) n = Memory.ofList bytes n :=
      fun n hn => Memory.write_apply_of_lt hle st.buffer (by omega)
    have hflag := Memory.readsBelow_be16 (n := 0) (by decide : 0 + 1 < 100) hsame
    have hazimuth := Memory.readsBelow_be16 (n := 2) (by decide : 2 + 1 < 100) hsame
    rw [shown_eq T st _ (by omega) hcanvas, readsBelow_frame T hsame]
    refine if_congr ?_ rfl rfl
    rw [Accepted, and_iff_right hlen]
    exact and_congr (Eq.congr_left hflag) (not_congr (Eq.congr_left hazimuth))
  · rw [shown, if_pos (by rw [buflen]; omega), if_neg fun h => hlen h.1]

theorem canvas_step (st : Plot) (r : Recv) (hcanvas : st.canvas = []) : ((main T).step st r).canvas = [] := by
  unfold main
  dsimp only
  split
  · exact hcanvas
  · rfl

theorem out_eq (st : Plot) (r : Recv) (hcanvas : st.canvas = []) :
    (main T).out st r = ((accepted r).map fun bytes => frame T (.ofList bytes)).toList := by
  cases r with
  | error => rfl
  | datagram bytes =>
    have hout : (main T).out st (.datagram bytes) = (shown T st (recvfrom st.buffer buflen (.datagram bytes)).1
        (recvfrom st.buffer buflen (.datagram bytes)).2).toList := rfl
    rw [hout, recvfrom_datagram, shown_datagram T st hcanvas, accepted, Recv.datagram?, Option.filter_some]
    by_cases h : Accepted bytes
    · rw [if_pos h, if_pos (decide_eq_true h), Option.map_some]
    · rw [if_neg h, if_neg (by simpa using h), Option.map_none]

theorem log_frames (buffer : Memory) (rs : List Recv) :
    (main T).log { buffer } rs = (rs.filterMap accepted).map fun bytes => frame T (.ofList bytes) := by
  rw [(main T).log_of_invariant (I := fun st => st.canvas = []) (canvas_step T) (out_eq T) rfl,
    List.map_filterMap, List.filterMap_eq_flatMap_toList]

/-- In every run one picture is shown for each datagram that is accepted, drawn from its bytes alone, and between two
    iterations the canvas is blank. -/
theorem log_eq_frames (buffer : Memory) (rs : List Recv) :
    (main T).log { buffer } rs = (rs.filterMap accepted).map (fun bytes => frame T (.ofList bytes)) ∧
    ((main T).state { buffer } rs).canvas = [] :=
  ⟨log_frames T buffer rs, (main T).state_invariant (I := fun st => st.canvas = []) (canvas_step T) rfl rs⟩

end Frames

/-! ### Geometry -/

/-- Seen from the centre the second pixel lies on the same side as the first one along each axis, and not nearer. -/
structure Outward (p q : ℤ × ℤ) : Prop where
  right : 0 ≤ p.1 - center ∧ 0 ≤ q.1 - center ∨ p.1 - center ≤ 0 ∧ q.1 - center ≤ 0
  up : 0 ≤ center - p.2 ∧ 0 ≤ center - q.2 ∨ center - p.2 ≤ 0 ∧ center - q.2 ≤ 0
  across : |p.1 - center| ≤ |q.1 - center|
  along : |center - p.2| ≤ |center - q.2|

section Geometry
variable {K : Type} [Field K] [LinearOrder K] [IsStrictOrderedRing K] [FloorRing K] (T : Polar.Trig K)

/-- A coordinate in pixels is at most a tenth of the distance in millimetres. -/
theorem trunc_scale_le {r c : K} {d : ℕ} (hr : r = (d : K) / 1000) (hc : |c| ≤ r) :
    |Rounding.trunc (c * scale)| * 10 ≤ (d : ℤ) := by
  have hscale : |c * scale| ≤ (d : K) / 10 := by
    rw [abs_mul, scale, abs_of_nonneg (by norm_num : (0 : K) ≤ 100)]
    linarith
  have hcast : ((|Rounding.trunc (c * scale)| * 10 : ℤ) : K) ≤ ((d : ℤ) : K) := by
    have hle := (Rounding.abs_trunc_le (c * scale)).trans hscale
    push_cast at hle ⊢
    linarith
  exact_mod_cast hcast

omit [IsStrictOrderedRing K] in
theorem sub_center (az r : K) : (pixel T az r).1 - center = Rounding.trunc (Polar.x T r az * scale) ∧
    center - (pixel T az r).2 = Rounding.trunc (Polar.y T r az * scale) :=
  ⟨add_sub_cancel_left _ _, sub_sub_cancel _ _⟩

theorem outward_pixel {r r' : K} (hr : 0 ≤ r) (hle : r ≤ r') (az : K) : Outward (pixel T az r) (pixel T az r') := by
  have hside : ∀ x x' : K, (0 ≤ x ∧ 0 ≤ x' ∨ x ≤ 0 ∧ x' ≤ 0) → 0 ≤ Rounding.trunc x ∧ 0 ≤ Rounding.trunc x' ∨
      Rounding.trunc x ≤ 0 ∧ Rounding.trunc x' ≤ 0 := by
    rintro x x' (⟨h, h'⟩ | ⟨h, h'⟩)
    · exact Or.inl ⟨Rounding.trunc_nonneg h, Rounding.trunc_nonneg h'⟩
    · exact Or.inr ⟨Rounding.trunc_nonpos h, Rounding.trunc_nonpos h'⟩
  obtain ⟨hx, hy⟩ := sub_center T az r
  obtain ⟨hx', hy'⟩ := sub_center T az r'
  have hassoc : ∀ d c : K, d * c * scale = d * (c * scale) := fun d c => mul_assoc d c scale
  obtain ⟨hsx, hlx⟩ := Polar.ray_mono hr hle (T.cos (az * T.pi / 180) * scale)
  obtain ⟨hsy, hly⟩ := Polar.ray_mono hr hle (T.sin (az * T.pi / 180) * scale)
  refine ⟨?_, ?_, ?_, ?_⟩
  · rw [hx, hx', Polar.x, Polar.x, hassoc, hassoc]
    exact hside _ _ hsx
  · rw [hy, hy', Polar.y, Polar.y, hassoc, hassoc]
    exact hside _ _ hsy
  · rw [hx, hx', Polar.x, Polar.x, hassoc, hassoc]
    exact Rounding.abs_trunc_mono hsx hlx
  · rw [hy, hy', Polar.y, Polar.y, hassoc, hassoc]
    exact Rounding.abs_trunc_mono hsy hly

/-- What is drawn lies on the canvas. A return stands at most a tenth of its millimetres from the centre along each
    axis, so those below 4 m are always drawn, and of two returns of a picture the farther is drawn outward of the
    nearer. -/
theorem picture (data : Memory) :
    (∀ p ∈ frame T data, 0 ≤ p.1 ∧ p.1 < 800 ∧ 0 ≤ p.2 ∧ p.2 < 800) ∧
    (∀ i, |(pixelAt T data i).1 - center| * 10 ≤ (distance data ⟨firstBlock, i, .strongest⟩).toNat ∧
      |center - (pixelAt T data i).2| * 10 ≤ (distance data ⟨firstBlock, i, .strongest⟩).toNat) ∧
    (∀ i, Drawable data i → (distance data ⟨firstBlock, i, .strongest⟩).toNat < 4000 →
      pixelAt T data i ∈ frame T data) ∧
    ∀ i j, distance data ⟨firstBlock, i, .strongest⟩ ≤ distance data ⟨firstBlock, j, .strongest⟩ →
      Outward (pixelAt T data i) (pixelAt T data j) := by
  have hinside : ∀ p : ℤ × ℤ, inside p = true ↔ 0 ≤ p.1 ∧ p.1 < 800 ∧ 0 ≤ p.2 ∧ p.2 < 800 := fun p => by
    simp only [inside, Bool.and_eq_true, decide_eq_true_eq, ge_iff_le, and_assoc]
    rfl
  have hnonneg : ∀ d : UInt16, (0 : K) ≤ metersOf d := fun d => by
    rw [metersOf]
    positivity
  have hbound : ∀ i, |(pixelAt T data i).1 - center| * 10 ≤ (distance data ⟨firstBlock, i, .strongest⟩).toNat ∧
      |center - (pixelAt T data i).2| * 10 ≤ (distance data ⟨firstBlock, i, .strongest⟩).toNat := fun i => by
    rw [pixelAt, (sub_center T _ _).1, (sub_center T _ _).2]
    exact ⟨trunc_scale_le rfl (Polar.abs_x_le T (hnonneg _) _), trunc_scale_le rfl (Polar.abs_y_le T (hnonneg _) _)⟩
  refine ⟨fun p hp => ?_, hbound, fun i hi hnear => ?_, fun i j hle => ?_⟩
  · obtain ⟨i, hi, rfl⟩ := List.mem_map.mp hp
    exact (hinside _).mp (of_decide_eq_true (List.mem_filter.mp hi).2).2
  · obtain ⟨h1, h2⟩ := hbound i
    have hcenter : center = 400 := rfl
    have h1' := abs_lt.mp (by omega : |(pixelAt T data i).1 - center| < 400)
    have h2' := abs_lt.mp (by omega : |center - (pixelAt T data i).2| < 400)
    refine List.mem_map_of_mem (List.mem_filter.mpr ⟨List.mem_finRange i, decide_eq_true ⟨hi, (hinside _).mpr ?_⟩⟩)
    omega
  · have hcast : ((distance data ⟨firstBlock, i, .strongest⟩).toNat : K) ≤
        (distance data ⟨firstBlock, j, .strongest⟩).toNat := by
      exact_mod_cast UInt16.le_iff_toNat_le.mp hle
    refine outward_pixel T (hnonneg _) ?_ _
    rw [metersOf, metersOf]
    linarith

end Geometry

/-- A packet whose first block has strongest returns at 1 and 3 m. -/
def twoReturns : Memory :=
  .ofList [0xFF, 0xEE, 0x46, 0x50, 0x03, 0xE8, 0x32, 0x03, 0xE8, 0x32, 0x0B, 0xB8, 0x28]

/-- Both are drawn, the second outward of the first. -/
theorem picture_real :
    pixelAt Polar.Trig.real twoReturns 0 ∈ frame Polar.Trig.real twoReturns ∧
    pixelAt Polar.Trig.real twoReturns 1 ∈ frame Polar.Trig.real twoReturns ∧
    Outward (pixelAt Polar.Trig.real twoReturns 0) (pixelAt Polar.Trig.real twoReturns 1) := by
  obtain ⟨-, -, hdrawn, houtward⟩ := picture Polar.Trig.real twoReturns
  exact ⟨hdrawn 0 (by decide) (by decide), hdrawn 1 (by decide) (by decide), houtward 0 1 (by decide)⟩

/-! ### The reader of the same datagrams -/

theorem count_separator_measured [Arithmetic] (data : Memory) (i : Fin 16) :
    (measured data i).count Line.separator = 0 := by
  refine List.count_eq_zero.mpr fun h => ?_
  rcases kind_of_mem_measured h with ⟨bytes, he⟩ | ⟨p, he⟩
  · cases he
  · cases he

theorem count_separator [Arithmetic] (floats : FloatFormat) (r : Recv) :
    (described floats r).count Line.separator = (accepted r).toList.length := by
  cases r with
  | error => rfl
  | datagram bytes =>
    rw [described, List.count_cons_of_ne (by exact Line.noConfusion), accepted, Recv.datagram?, Option.filter_some]
    by_cases hlen : bytes.length < 100
    · have hshort : ¬Accepted bytes := fun h => absurd h.1 (by omega)
      rw [if_pos hlen, if_neg (by simpa using hshort)]
      rfl
    · rw [if_neg hlen]
      by_cases hvalid : flag (.ofList bytes) firstBlock = dataFlag ∧ azimuth (.ofList bytes) firstBlock ≠ 0xFFFF
      · have haccepted : Accepted bytes := ⟨by omega, hvalid⟩
        have hnone : ((List.finRange 16).flatMap (measured (.ofList bytes))).count Line.separator = 0 := by
          rw [List.count_flatMap]
          exact List.sum_eq_zero fun n hn => by
            obtain ⟨i, -, rfl⟩ := List.mem_map.mp hn
            exact count_separator_measured _ i
        rw [if_pos (decide_eq_true haccepted), blockLines_of_valid hvalid.1 hvalid.2,
          List.count_cons_of_ne (by exact Line.noConfusion), List.count_append, hnone]
        rfl
      · have hrefused : ¬Accepted bytes := fun h => hvalid h.2
        rw [if_neg (by simpa using hrefused)]
        rcases blockLines_of_invalid floats hvalid with he | he
        · rw [he]
          rfl
        · rw [he]
          rfl

theorem count_separator_log [Arithmetic] (st : Reader) (rs : List Recv) :
    (Lakibeam.main.log st rs).count Line.separator = (rs.filterMap accepted).length := by
  induction rs generalizing st with
  | nil => rfl
  | cons r rs ih =>
    rw [Loop.log, List.count_append, ih, Lakibeam.out_eq, count_separator]
    cases h : accepted r with
    | none => rw [List.filterMap_cons_none h, Option.toList_none, List.length_nil, Nat.zero_add]
    | some bytes =>
      rw [List.filterMap_cons_some h, List.length_cons, Option.toList_some, List.length_singleton, Nat.add_comm]

/-- The program shows as many pictures in a run as the reader prints blocks, and each return that it may draw is one
    that the reader prints for the same datagram. -/
theorem pictures_of_blocks [Arithmetic] {K : Type} [Field K] [LinearOrder K] [FloorRing K] (T : Polar.Trig K)
    (buffer buffer' : Memory) (rs : List Recv) :
    ((main T).log { buffer } rs).length = (Lakibeam.main.log { buffer := buffer' } rs).count Line.separator ∧
    ∀ floats bytes, Accepted bytes → ∀ i, Drawable (.ofList bytes) i →
      Line.point (pointLine (.ofList bytes) ⟨firstBlock, i, .strongest⟩) ∈ described floats (.datagram bytes) := by
  constructor
  · rw [log_frames, count_separator_log, List.length_map]
  · intro floats bytes ⟨hlen, hflag, hazimuth⟩ i hi
    have hchosen : chosen (.ofList bytes) i = some ⟨firstBlock, i, .strongest⟩ := if_pos hi.1
    have hline := mem_measured.mpr (Or.inr ⟨_, hchosen, UInt8.pos_iff_ne_zero.mpr hi.2, rfl⟩)
    rw [described, if_neg (by omega), blockLines_of_valid hflag hazimuth]
    refine List.mem_cons_of_mem _ (List.mem_cons_of_mem _ (List.mem_append_left _ ?_))
    exact List.mem_flatMap.mpr ⟨i, List.mem_finRange i, hline⟩

end LidarInterface.Plotter
