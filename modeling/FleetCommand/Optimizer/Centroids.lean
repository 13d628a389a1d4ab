import FleetCommand.Lib.CircularMean
import FleetCommand.Optimizer.Solver
import Mathlib.Data.Rat.Floor

/-!
# Centroids

`_cluster_centroid` takes the mean of the members' longitudes as numbers. Where the members of a
cluster straddle the antimeridian that mean is off by the share of the members on one side, as a
part of the whole circle; it is near the members exactly when they do not straddle it or are spread
widely enough to absorb the share (`centroid_near_iff`), which four members never are
(`centroid_not_near`).
-/

set_option autoImplicit false

namespace FleetCommand.Optimizer

open CircularMean

variable {K : Type} [Field K] [LinearOrder K] [IsStrictOrderedRing K]

omit [LinearOrder K] [IsStrictOrderedRing K] in
theorem clusterCentroid_eq (cluster : List (Stop K)) :
    clusterCentroid cluster = (mean (cluster.map Stop.lat), mean (cluster.map Stop.lng)) := by
  rw [clusterCentroid, mean, mean, List.sum_eq_foldl, List.sum_eq_foldl, List.length_map,
    List.length_map]

variable [FloorRing K]

/-- Longitudes in degrees, pairwise at most `δ` apart around the circle. -/
structure NearTogether (δ : K) (cluster : List (Stop K)) : Prop where
  range : ∀ s ∈ cluster, -180 ≤ s.lng ∧ s.lng ≤ 180
  near : ∀ s ∈ cluster, ∀ s' ∈ cluster, circularDist 360 s.lng s'.lng ≤ δ

/-- The centroid is at most `δ` from every member's longitude, and its latitude is between the
members'. -/
structure CentroidNear (δ : K) (cluster : List (Stop K)) : Prop where
  lng : ∀ s ∈ cluster, circularDist 360 (clusterCentroid cluster).2 s.lng ≤ δ
  south : ∃ s ∈ cluster, s.lat ≤ (clusterCentroid cluster).1
  north : ∃ s ∈ cluster, (clusterCentroid cluster).1 ≤ s.lat

variable {δ : K} {cluster : List (Stop K)}

theorem NearTogether.close (h : NearTogether δ cluster) :
    Close 360 δ (cluster.map Stop.lng) where
  range := by
    simp only [List.forall_mem_map]
    intro s hs
    obtain ⟨hwest, heast⟩ := h.range s hs
    exact ⟨by linarith, by linarith⟩
  near := by
    simpa only [List.forall_mem_map] using h.near

/-- The latitude is always between the members'. -/
theorem centroidNear_iff_lng (hne : cluster ≠ []) :
    CentroidNear δ cluster ↔
      ∀ x ∈ cluster.map Stop.lng, circularDist 360 (mean (cluster.map Stop.lng)) x ≤ δ := by
  have hlat : cluster.map Stop.lat ≠ [] := mt List.map_eq_nil_iff.1 hne
  simp only [List.forall_mem_map]
  constructor
  · intro h s hs
    have hnear := h.lng s hs
    rwa [clusterCentroid_eq] at hnear
  · intro h
    refine ⟨fun s hs => ?_, ?_, ?_⟩
    · rw [clusterCentroid_eq]
      exact h s hs
    · obtain ⟨lat, hmem, hle⟩ := exists_le_mean hlat
      obtain ⟨s, hs, rfl⟩ := List.mem_map.1 hmem
      exact ⟨s, hs, by rw [clusterCentroid_eq]; exact hle⟩
    · obtain ⟨lat, hmem, hle⟩ := exists_mean_le hlat
      obtain ⟨s, hs, rfl⟩ := List.mem_map.1 hmem
      exact ⟨s, hs, by rw [clusterCentroid_eq]; exact hle⟩

/-- No straddling cluster of four members or fewer has its centroid near. -/
theorem centroid_not_near (h : NearTogether δ cluster) (hδ : δ < 90)
    (hside : Straddles 360 (cluster.map Stop.lng)) (hfew : cluster.length ≤ 4) :
    ¬ CentroidNear δ cluster := by
  have hne : cluster ≠ [] := by
    obtain ⟨_, ha, -⟩ := hside
    obtain ⟨s, hs, -⟩ := List.mem_map.1 ha
    exact List.ne_nil_of_mem hs
  -- each member's share of the circle is a quarter of it at least
  have hshare : δ * (cluster.map Stop.lng).length < 360 := by
    rw [List.length_map]
    have hpos : (0 : K) < cluster.length := Nat.cast_pos.2 (List.length_pos_iff.2 hne)
    have hle : (cluster.length : K) ≤ 4 := by exact_mod_cast hfew
    calc δ * cluster.length < 90 * cluster.length := mul_lt_mul_of_pos_right hδ hpos
      _ ≤ 360 := by linarith
  rw [centroidNear_iff_lng hne,
    h.close.mean_near_iff (by norm_num) (hδ.trans_le (by norm_num)) hside]
  exact h.close.not_absorbs (by norm_num) hside hshare

/-- The centroid is near its members exactly when they do not straddle the antimeridian or absorb
the drift of the mean. -/
theorem centroid_near_iff (hne : cluster ≠ []) (h : NearTogether δ cluster) (hδ : δ < 90) :
    CentroidNear δ cluster ↔
      ¬ Straddles 360 (cluster.map Stop.lng) ∨ Absorbs 360 δ (cluster.map Stop.lng) := by
  have hquarter : δ < 360 / 4 := hδ.trans_le (by norm_num)
  rw [centroidNear_iff_lng hne]
  by_cases hside : Straddles 360 (cluster.map Stop.lng)
  · rw [or_iff_right (not_not_intro hside)]
    exact h.close.mean_near_iff (by norm_num) hquarter hside
  · refine iff_of_true (fun x hx => ?_) (Or.inl hside)
    exact h.close.mean_near (by norm_num) hquarter hside hx

/-- Two stops some twenty metres apart, on either side of the antimeridian. -/
def acrossAntimeridian : List (Stop ℚ) := [⟨"p1", 0, 179.9999⟩, ⟨"p2", 0, -179.9999⟩]

theorem centroid_near_iff_across :
    CentroidNear (1 / 5000) acrossAntimeridian ↔
      ¬ Straddles 360 (acrossAntimeridian.map Stop.lng) ∨
        Absorbs 360 (1 / 5000) (acrossAntimeridian.map Stop.lng) :=
  centroid_near_iff (by decide) ⟨by decide +kernel, by decide +kernel⟩ (by decide +kernel)

/-- Their centroid is on the prime meridian. -/
theorem acrossAntimeridian_far : ¬ ∀ (δ : ℚ) (cluster : List (Stop ℚ)), cluster ≠ [] →
    NearTogether δ cluster → δ < 90 → CentroidNear δ cluster := by
  intro h
  have hnear := h (1 / 5000) acrossAntimeridian (by decide) ⟨by decide +kernel, by decide +kernel⟩
    (by decide +kernel)
  exact absurd (hnear.lng ⟨"p1", 0, 179.9999⟩ List.mem_cons_self) (by decide +kernel)

end FleetCommand.Optimizer
