import LidarInterface.Theorems.Outliers
import LidarInterface.Theorems.Progress

/-! Losing datagrams. A run that receives only some of the payloads of another has no more bins, and each holds some of
    the samples that it would have held. As long as a bin is left with more than twice the number of samples that were
    outliers in the complete run, it is kept with a sample near the others. -/

namespace LidarInterface.Reader2
open Foundation Exact

section Lossy
variable {host : ByteOrder} {rs rs' : List Recv} (hlossy : (payloads rs').Sublist (payloads rs))
include hlossy

theorem samples_sublist : (samples host rs').Sublist (samples host rs) :=
  (hlossy.flatMap (emitted host)).filter isSample

/-- A payload that is lost costs at most its 384 returns. -/
theorem length_samples_le : (samples host rs).length ≤
    (samples host rs').length + 384 * ((payloads rs).length - (payloads rs').length) := by
  rw [samples, samples]
  generalize payloads rs = sent at *
  generalize payloads rs' = received at *
  induction hlossy with
  | slnil => exact Nat.le_refl _
  | cons p hsub ih =>
    have hlen := hsub.length_le
    have hp := (List.length_filter_le isSample _).trans (length_emitted_le host p)
    rw [List.flatMap_cons, List.filter_append, List.length_append, List.length_cons]
    omega
  | cons_cons p hsub ih =>
    rw [List.flatMap_cons, List.flatMap_cons, List.filter_append, List.filter_append, List.length_append,
      List.length_append, List.length_cons, List.length_cons, Nat.add_sub_add_right]
    omega

end Lossy

/-! ### Robust bins -/

/-- The samples outside of the bounds. -/
def outliers (L H R1 R2 : ℚ) (samples : List LidarPoint) : Nat := samples.countP fun s => ¬Inlier L H R1 R2 s

/-- Fewer samples have fewer outliers. -/
theorem most_of_sublist {samples samples' : List LidarPoint} {L H R1 R2 : ℚ} (hsub : samples'.Sublist samples)
    (hleft : 2 * outliers L H R1 R2 samples < samples'.length) :
    samples'.length < 2 * samples'.countP fun s => Inlier L H R1 R2 s := by
  have hle : outliers L H R1 R2 samples' ≤ outliers L H R1 R2 samples := hsub.countP_le
  have hall := @List.length_eq_countP_add_countP _ (fun s => decide (Inlier L H R1 R2 s)) samples'
  simp only [decide_eq_true_eq] at hall
  rw [outliers] at hle
  omega

/-- A run that loses payloads of another. Its bins are among the bins of the complete run, each holds some of the
    samples in their order, and no more than 384 samples are missing for each payload lost. A bin of the complete run
    whose samples, but for some outliers, lie in a band is output at a distance near the band, as long as the samples
    that arrive are more than twice the outliers, and three at least. -/
theorem loss_tolerance {host : ByteOrder} {rs rs' : List Recv} {st st' : Collector} (h : Collects host rs st)
    (h' : Collects host rs' st') (hlossy : (payloads rs').Sublist (payloads rs)) :
    st'.angleMap.keys.Sublist st.angleMap.keys ∧
    (∀ b bin', (b, bin') ∈ st'.angleMap.toList → ∃ bin, (b, bin) ∈ st.angleMap.toList ∧ bin'.Sublist bin) ∧
    (select st'.angleMap).totalSamples ≤ (select st.angleMap).totalSamples ∧
    (select st.angleMap).totalSamples ≤
      (select st'.angleMap).totalSamples + 384 * ((payloads rs).length - (payloads rs').length) ∧
    ∀ b bin bin', (b, bin) ∈ st.angleMap.toList → (b, bin') ∈ st'.angleMap.toList → ∀ L H R1 R2 : ℚ,
      2 * H ≤ 3 * L → 20 < R1 → 7 * R2 ≤ 10 * R1 → 3 ≤ bin'.length → 2 * outliers L H R1 R2 bin < bin'.length →
      ∃ p ∈ (select st'.angleMap).uniquePoints, angleBin p = b ∧ L / 2 ≤ p.distance ∧ p.distance ≤ 3 * H / 2 := by
  have hsub := @samples_sublist host rs rs' hlossy
  rw [h.angleMap_eq, h'.angleMap_eq]
  refine ⟨Groups.keys_group_sublist hsub, fun b bin' hbin' => ?_, ?_, ?_, ?_⟩
  · obtain ⟨rfl, hne⟩ := Groups.mem_toList_group.mp hbin'
    have hbin : (Groups.fiber angleBin (samples host rs') b).Sublist (Groups.fiber angleBin (samples host rs) b) :=
      Groups.fiber_sublist hsub
    refine ⟨_, Groups.mem_toList_group.mpr ⟨rfl, fun hnil => hne ?_⟩, hbin⟩
    rw [hnil] at hbin
    exact List.sublist_nil.mp hbin
  · rw [select_group, select_group]
    exact hsub.length_le
  · rw [select_group, select_group]
    exact length_samples_le hlossy
  · intro b bin bin' hbin hbin' L H R1 R2 hspread hstrong hsignal hlen hleft
    obtain ⟨rfl, -⟩ := Groups.mem_toList_group.mp hbin
    obtain ⟨rfl, -⟩ := Groups.mem_toList_group.mp hbin'
    have hmost := most_of_sublist (Groups.fiber_sublist hsub) hleft
    have hpos : ∀ s ∈ Groups.fiber angleBin (samples host rs') b, 0 < s.distance := fun s hs =>
      positive_of_isSample (mem_samples (Groups.mem_fiber.mp hs).1).2.1
    obtain ⟨p, hp, hkeep, hlow, hhigh, -⟩ := exists_keep_of_most hlen hpos hmost hspread hstrong hsignal
    refine ⟨p, ?_, (Groups.mem_fiber.mp hp).2, hlow, hhigh⟩
    rw [select_group]
    exact List.mem_filterMap.mpr ⟨_, hbin', hkeep⟩

/-- Samples at 1 m to 1.1 m with one at 9 m in a bin, and a sample in another bin. -/
def scatteredScene : List Return :=
  [.inBlock 0 1000 50, .inBlock 0 1050 55, .inBlock 3 4000 60, .inBlock 0 9000 200, .inBlock 0 1100 52,
    .inBlock 0 1020 51]

/-- The third and the last of the datagrams are lost. The bin at 0 degrees is still output near 1 m, the other is
    gone. -/
theorem loss_tolerance_scattered :
    let st := collect .little (fun _ => 0) (returnDatagrams scatteredScene)
    let st' := collect .little (fun _ => 0)
      (returnDatagrams [⟨0, 1000, 50⟩, ⟨0, 1050, 55⟩, ⟨0, 9000, 200⟩, ⟨0, 1100, 52⟩])
    st.angleMap.keys = [0, 24] ∧ st'.angleMap.keys = [0] ∧
      ∃ p ∈ (select st'.angleMap).uniquePoints, angleBin p = 0 ∧ 1 / 2 ≤ p.distance ∧ p.distance ≤ 33 / 20 := by
  intro st st'
  have hrun : Collects .little (returnDatagrams scatteredScene) st := collects_collect .little _ (by decide)
  have hrun' : Collects .little (returnDatagrams _) st' := collects_collect .little _ (by decide)
  have hbins := hrun.angleMap_eq
  have hbins' := hrun'.angleMap_eq
  rw [samples_of_payloads (payloads_returnDatagrams _) (by decide)] at hbins hbins'
  have hlossy : (payloads (returnDatagrams [⟨0, 1000, 50⟩, ⟨0, 1050, 55⟩, ⟨0, 9000, 200⟩, ⟨0, 1100, 52⟩])).Sublist
      (payloads (returnDatagrams scatteredScene)) := by
    rw [payloads_returnDatagrams, payloads_returnDatagrams]
    exact List.Sublist.map _ (by decide)
  obtain ⟨-, -, -, -, htolerance⟩ := loss_tolerance hrun hrun' hlossy
  rw [hbins, hbins'] at htolerance ⊢
  refine ⟨by decide +kernel, by decide +kernel, ?_⟩
  obtain ⟨p, hp, hbin, hlow, hhigh⟩ := htolerance 0 _ _
    (Groups.mem_toList_group.mpr ⟨rfl, by decide +kernel⟩) (Groups.mem_toList_group.mpr ⟨rfl, by decide +kernel⟩)
    1 (11 / 10) 50 55 (by norm_num) (by norm_num) (by norm_num) (by decide +kernel) (by decide +kernel)
  exact ⟨p, hp, hbin, hlow, hhigh.trans (by norm_num)⟩

end LidarInterface.Reader2
