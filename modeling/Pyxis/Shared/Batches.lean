import Mathlib.Data.List.Nodup

set_option autoImplicit false

namespace Batches

variable {α : Type} {limit : Nat} {taken : Nat → Bool}

def kept (limit : Nat) (taken : Nat → Bool) (entries : List α) : List α :=
  (entries.zipIdx.filter fun entry => taken (entry.2 / limit)).map Prod.fst

def count (limit length : Nat) : Nat := (length + limit - 1) / limit

@[simp] theorem kept_nil : kept limit taken ([] : List α) = [] := rfl

theorem kept_append (taken : Nat → Bool) {full last : List α} {batches : Nat}
    (whole : full.length = batches * limit) (fits : last.length ≤ limit) :
    kept limit taken (full ++ last) =
      kept limit taken full ++ if taken batches then last else [] := by
  have same : ∀ entry ∈ last.zipIdx (batches * limit), entry.2 / limit = batches := by
    intro entry member
    have low := List.le_snd_of_mem_zipIdx member
    have high := List.snd_lt_add_of_mem_zipIdx member
    apply Nat.div_eq_of_lt_le
    · exact low
    · rw [Nat.add_one_mul]
      omega
  simp only [kept, List.zipIdx_append, List.filter_append, List.map_append, Nat.zero_add, whole]
  congr 1
  rw [List.filter_congr fun entry member => by rw [same entry member]]
  split_ifs with take
  · simp only [take, List.filter_true, List.zipIdx_map_fst]
  · simp [take]

theorem kept_sublist (entries : List α) : (kept limit taken entries).Sublist entries := by
  have sublist := (List.filter_sublist (p := fun entry => taken (entry.2 / limit))
    (l := entries.zipIdx)).map Prod.fst
  rwa [List.zipIdx_map_fst] at sublist

theorem lt_count_iff (positive : 0 < limit) (batch length : Nat) :
    batch < count limit length ↔ batch * limit < length := by
  rw [count, ← Nat.succ_le_iff, Nat.le_div_iff_mul_le positive, Nat.succ_mul]
  omega

theorem count_eq {batches last : Nat} (short : last < limit) :
    count limit (batches * limit + last) = if 0 < last then batches + 1 else batches := by
  unfold count
  split_ifs with more
  · apply Nat.div_eq_of_lt_le
    · rw [Nat.add_one_mul]
      omega
    · rw [Nat.add_one_mul, Nat.add_one_mul]
      omega
  · apply Nat.div_eq_of_lt_le
    · omega
    · rw [Nat.add_one_mul]
      omega

theorem kept_eq_self_iff (positive : 0 < limit) (entries : List α) :
    kept limit taken entries = entries ↔
      ∀ batch < count limit entries.length, taken batch = true := by
  have all : kept limit taken entries = entries ↔
      ∀ entry ∈ entries.zipIdx, taken (entry.2 / limit) = true := by
    rw [← List.length_filter_eq_length_iff]
    constructor
    · intro same
      have length := congrArg List.length same
      rwa [kept, List.length_map, ← List.length_zipIdx (l := entries) (i := 0)] at length
    · intro length
      refine (kept_sublist entries).eq_of_length ?_
      rw [kept, List.length_map, length, List.length_zipIdx]
  rw [all]
  constructor
  · intro taken batch inside
    rw [lt_count_iff positive] at inside
    have hit := taken (entries[batch * limit], batch * limit)
      (List.mk_mem_zipIdx_iff_getElem?.mpr (List.getElem?_eq_getElem inside))
    rwa [Nat.mul_div_cancel _ positive] at hit
  · intro taken entry member
    refine taken _ ((lt_count_iff positive _ _).mpr ?_)
    have inside := List.snd_lt_of_mem_zipIdx member
    exact Nat.lt_of_le_of_lt (Nat.div_mul_le_self _ _) inside

end Batches
