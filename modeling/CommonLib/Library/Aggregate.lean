import Mathlib.Data.List.Induction
import Mathlib.Order.Basic
import Mathlib.Order.Lattice

/-!
# Aggregating a sorted stream into buckets

The samples of a stream arrive in the order of their keys.  Samples of one key are merged into one
record, which a bucket keeps together with the key; a sample of a new key starts a new bucket.
-/

namespace CommonLib.Aggregate

variable {σ ρ κ : Type*}

section Definitions

variable [DecidableEq κ] (key : σ → κ) (start : σ → ρ) (merge : σ → ρ → ρ)

/-- Add a sample to the newest bucket, if that has its key. -/
def collect (buckets : List (κ × ρ)) (sample : σ) : List (κ × ρ) :=
  match buckets.getLast? with
  | some (newest, record) =>
      if newest = key sample then buckets.dropLast ++ [(newest, merge sample record)]
      else buckets ++ [(key sample, start sample)]
  | none => [(key sample, start sample)]

/-- The buckets of a stream. -/
def aggregate (samples : List σ) : List (κ × ρ) := samples.foldl (collect key start merge) []

/-- The record of samples that are all merged. -/
def gather (samples : List σ) : Option ρ :=
  samples.foldl
    (fun
      | some record, sample => some (merge sample record)
      | none, sample => some (start sample))
    none

end Definitions

section Spec

variable [LinearOrder κ] {key : σ → κ} {start : σ → ρ} {merge : σ → ρ → ρ}

/-- The buckets of a stream have its keys in increasing order, and each record merges the samples of
its key. -/
structure Aggregates (key : σ → κ) (start : σ → ρ) (merge : σ → ρ → ρ) (samples : List σ)
    (buckets : List (κ × ρ)) : Prop where
  increasing : (buckets.map Prod.fst).Pairwise (· < ·)
  covers : ∀ k, k ∈ buckets.map Prod.fst ↔ ∃ sample ∈ samples, key sample = k
  merged : ∀ bucket ∈ buckets,
    gather start merge (samples.filter fun sample => key sample = bucket.1) = some bucket.2

theorem collect_append (buckets : List (κ × ρ)) (newest : κ) (record : ρ) (sample : σ) :
    collect key start merge (buckets ++ [(newest, record)]) sample =
      if newest = key sample then buckets ++ [(newest, merge sample record)]
      else buckets ++ [(newest, record), (key sample, start sample)] := by
  simp [collect]

theorem gather_append (samples : List σ) (sample : σ) :
    gather start merge (samples ++ [sample]) =
      some (match gather start merge samples with
        | some record => merge sample record
        | none => start sample) := by
  rw [gather, List.foldl_append, List.foldl_cons, List.foldl_nil, ← gather]
  cases gather start merge samples <;> rfl

theorem gather_eq_none {samples : List σ} (none_eq : gather start merge samples = none) :
    samples = [] := by
  rcases List.eq_nil_or_concat samples with rfl | ⟨earlier, sample, rfl⟩
  · rfl
  · rw [List.concat_eq_append, gather_append] at none_eq
    cases none_eq

theorem filter_append_of_ne {samples : List σ} {sample : σ} {k : κ} (other : key sample ≠ k) :
    (samples ++ [sample]).filter (fun sample => key sample = k) =
      samples.filter fun sample => key sample = k := by
  simp [other]

theorem filter_append_of_eq {samples : List σ} {sample : σ} {k : κ} (same : key sample = k) :
    (samples ++ [sample]).filter (fun sample => key sample = k) =
      (samples.filter fun sample => key sample = k) ++ [sample] := by
  simp [same]

/-- A sample whose key is not below those before it keeps the buckets right. -/
theorem Aggregates.collected {samples : List σ} {buckets : List (κ × ρ)}
    (aggregates : Aggregates key start merge samples buckets) {sample : σ}
    (latest : ∀ earlier ∈ samples, key earlier ≤ key sample) :
    Aggregates key start merge (samples ++ [sample]) (collect key start merge buckets sample) := by
  have below : ∀ bucket ∈ buckets, bucket.1 ≤ key sample := by
    intro bucket member
    obtain ⟨earlier, earlierMember, key_eq⟩ :=
      (aggregates.covers bucket.1).mp (List.mem_map_of_mem member)
    exact key_eq ▸ latest earlier earlierMember
  by_cases seen : ∃ record buckets', buckets = buckets' ++ [(key sample, record)]
  · obtain ⟨record, older, rfl⟩ := seen
    rw [collect_append, if_pos rfl]
    have increasing := aggregates.increasing
    simp only [List.map_append, List.map_cons, List.map_nil] at increasing
    refine ⟨by simpa using increasing, fun k => ?_, fun bucket member => ?_⟩
    · have covers := aggregates.covers k
      simp only [List.map_append, List.map_cons, List.map_nil, List.mem_append,
        List.mem_singleton] at covers ⊢
      grind
    · rcases List.mem_append.mp member with member | member
      · have different : key sample ≠ bucket.1 := by
          have before := (List.pairwise_append.mp increasing).2.2 bucket.1
            (List.mem_map_of_mem member) (key sample) (List.mem_singleton.mpr rfl)
          exact before.ne'
        rw [filter_append_of_ne different]
        exact aggregates.merged bucket (List.mem_append_left _ member)
      · obtain rfl := List.mem_singleton.mp member
        rw [filter_append_of_eq rfl, gather_append,
          aggregates.merged (key sample, record) (by simp)]
  · have grown : collect key start merge buckets sample =
        buckets ++ [(key sample, start sample)] := by
      rcases List.eq_nil_or_concat buckets with rfl | ⟨older, ⟨newest, record⟩, rfl⟩
      · rfl
      · rw [List.concat_eq_append, collect_append, if_neg, List.append_assoc]
        · rfl
        · rintro rfl
          exact seen ⟨record, older, List.concat_eq_append⟩
    have fresh : ∀ bucket ∈ buckets, bucket.1 < key sample := by
      intro bucket member
      refine lt_of_le_of_ne (below bucket member) fun same => ?_
      obtain ⟨older, ⟨newest, record⟩, rfl⟩ :=
        (List.eq_nil_or_concat buckets).resolve_left (List.ne_nil_of_mem member)
      rw [List.concat_eq_append] at member below seen aggregates
      have newest_le := below (newest, record) (by simp)
      rcases List.mem_append.mp member with member | member
      · have increasing := aggregates.increasing
        rw [List.map_append, List.pairwise_append] at increasing
        have before := increasing.2.2 bucket.1 (List.mem_map_of_mem member) newest (by simp)
        exact absurd (same ▸ before) newest_le.not_gt
      · obtain rfl := List.mem_singleton.mp member
        exact seen ⟨record, older, by rw [← same]⟩
    rw [grown]
    refine ⟨?_, fun k => ?_, fun bucket member => ?_⟩
    · simp only [List.map_append, List.map_cons, List.map_nil]
      refine List.pairwise_append.mpr ⟨aggregates.increasing, List.pairwise_singleton _ _, ?_⟩
      rintro k member _ last
      obtain rfl := List.mem_singleton.mp last
      obtain ⟨bucket, bucketMember, rfl⟩ := List.mem_map.mp member
      exact fresh bucket bucketMember
    · have covers := aggregates.covers k
      simp only [List.map_append, List.map_cons, List.map_nil, List.mem_append,
        List.mem_singleton] at covers ⊢
      grind
    · rcases List.mem_append.mp member with member | member
      · rw [filter_append_of_ne (fresh bucket member).ne']
        exact aggregates.merged bucket member
      · obtain rfl := List.mem_singleton.mp member
        have none : samples.filter (fun earlier => key earlier = key sample) = [] := by
          refine List.filter_eq_nil_iff.mpr fun earlier earlierMember same => ?_
          obtain ⟨bucket, bucketMember, bucket_eq⟩ := List.mem_map.mp
            ((aggregates.covers (key sample)).mpr ⟨earlier, earlierMember, by simpa using same⟩)
          exact (fresh bucket bucketMember).ne bucket_eq
        rw [filter_append_of_eq rfl, none]
        rfl

theorem aggregates_nil : Aggregates key start merge [] [] := by
  constructor <;> simp

/-- The buckets of a stream in the order of its keys. -/
theorem aggregates_of_sorted {samples : List σ}
    (sorted : samples.Pairwise fun earlier later => key earlier ≤ key later) :
    Aggregates key start merge samples (aggregate key start merge samples) := by
  induction samples using List.reverseRecOn with
  | nil => exact aggregates_nil
  | append_singleton samples sample induction =>
      obtain ⟨before, -, latest⟩ := List.pairwise_append.mp sorted
      rw [aggregate, List.foldl_append]
      exact (induction before).collected fun earlier member =>
        latest earlier member sample (List.mem_singleton.mpr rfl)

end Spec

end CommonLib.Aggregate
