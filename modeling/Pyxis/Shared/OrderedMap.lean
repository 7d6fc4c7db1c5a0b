import Std.Data.ExtTreeMap
import Std.Data.ExtTreeSet
import Mathlib.Data.List.Basic
import Mathlib.Data.List.Nodup

set_option autoImplicit false

namespace OrderedMap

open Std

variable {κ ν : Type} [Ord κ] [TransOrd κ] [LawfulEqOrd κ]

def scan (start finish : κ) (entries : ExtTreeMap κ ν) : List (κ × ν) :=
  (entries.toList.dropWhile fun entry => (compare entry.1 start).isLT).takeWhile
    fun entry => (compare entry.1 finish).isLT

omit [LawfulEqOrd κ] in
theorem mem_dropWhile_sorted (start : κ) (entries : List (κ × ν))
    (sorted : entries.Pairwise fun a b => compare a.1 b.1 = .lt) (entry : κ × ν) :
    entry ∈ entries.dropWhile (fun entry => (compare entry.1 start).isLT) ↔
      entry ∈ entries ∧ (compare entry.1 start).isLT = false := by
  induction entries with
  | nil => simp
  | cons head rest ih =>
      obtain ⟨above, sorted⟩ := List.pairwise_cons.mp sorted
      by_cases below : (compare head.1 start).isLT
      · simp only [List.dropWhile_cons, below, if_true, ih sorted, List.mem_cons]
        constructor
        · exact fun both => ⟨.inr both.1, both.2⟩
        · rintro ⟨rfl | later, notBelow⟩
          · simp [below] at notBelow
          · exact ⟨later, notBelow⟩
      · simp only [List.dropWhile_cons, below, Bool.false_eq_true, if_false, List.mem_cons]
        constructor
        · intro member
          refine ⟨member, ?_⟩
          rcases member with rfl | later
          · exact Bool.eq_false_iff.mpr below
          · -- A key above one that is not below the start is not below it either.
            by_contra lower
            have up := above entry later
            have down : compare entry.1 start = .lt := by
              simpa [Ordering.isLT_iff_eq_lt] using lower
            exact below (by simpa [Ordering.isLT_iff_eq_lt] using TransCmp.lt_trans up down)
        · exact fun both => both.1

omit [LawfulEqOrd κ] in
theorem mem_takeWhile_sorted (finish : κ) (entries : List (κ × ν))
    (sorted : entries.Pairwise fun a b => compare a.1 b.1 = .lt) (entry : κ × ν) :
    entry ∈ entries.takeWhile (fun entry => (compare entry.1 finish).isLT) ↔
      entry ∈ entries ∧ (compare entry.1 finish).isLT = true := by
  induction entries with
  | nil => simp
  | cons head rest ih =>
      obtain ⟨above, sorted⟩ := List.pairwise_cons.mp sorted
      by_cases below : (compare head.1 finish).isLT
      · simp only [List.takeWhile_cons, below, if_true, List.mem_cons, ih sorted]
        constructor
        · rintro (rfl | later)
          · exact ⟨.inl rfl, below⟩
          · exact ⟨.inr later.1, later.2⟩
        · rintro ⟨rfl | later, down⟩
          · exact .inl rfl
          · exact .inr ⟨later, down⟩
      · simp only [List.takeWhile_cons, below, Bool.false_eq_true, if_false, List.not_mem_nil,
          false_iff, not_and]
        rintro member down
        rcases List.mem_cons.mp member with rfl | later
        · exact below down
        · exact below (by
            simpa [Ordering.isLT_iff_eq_lt] using
              TransCmp.lt_trans (above entry later) (by simpa [Ordering.isLT_iff_eq_lt] using down))

theorem mem_scan (start finish key : κ) (value : ν) (entries : ExtTreeMap κ ν) :
    (key, value) ∈ scan start finish entries ↔
      entries[key]? = some value ∧ (compare key start).isLT = false ∧
        (compare key finish).isLT = true := by
  have sorted := ExtTreeMap.ordered_keys_toList (t := entries)
  rw [scan, mem_takeWhile_sorted finish _ (sorted.sublist (List.dropWhile_sublist _)),
    mem_dropWhile_sorted start _ sorted, ExtTreeMap.mem_toList_iff_getElem?_eq_some, and_assoc]

omit [LawfulEqOrd κ] in
theorem scan_map {μ : Type} (f : κ → ν → μ) (start finish : κ) (entries : ExtTreeMap κ ν) :
    scan start finish (entries.map f) =
      (scan start finish entries).map fun entry => (entry.1, f entry.1 entry.2) := by
  rw [scan, scan, ExtTreeMap.toList_map, List.dropWhile_map, List.takeWhile_map]
  rfl

theorem scan_keys_nodup (start finish : κ) (entries : ExtTreeMap κ ν) :
    ((scan start finish entries).map Prod.fst).Nodup := by
  have sorted := ExtTreeMap.ordered_keys_toList (t := entries)
  have part : (scan start finish entries).Sublist entries.toList :=
    (List.takeWhile_sublist _).trans (List.dropWhile_sublist _)
  rw [List.Nodup, List.pairwise_map]
  refine (sorted.sublist part).imp fun {one two} before same => ?_
  rw [same, compare_self] at before
  cases before

theorem toList_nodup (entries : ExtTreeMap κ ν) : entries.toList.Nodup := by
  refine (ExtTreeMap.ordered_keys_toList (t := entries)).imp fun {one two} before same => ?_
  rw [same, compare_self] at before
  cases before

theorem toList_erase {entries : ExtTreeMap κ ν} {key : κ} {value : ν}
    (here : entries[key]? = some value) :
    entries.toList.Perm ((key, value) :: (entries.erase key).toList) := by
  have absent : (key, value) ∉ (entries.erase key).toList := by
    simp [ExtTreeMap.mem_toList_iff_getElem?_eq_some]
  rw [List.perm_ext_iff_of_nodup (toList_nodup entries)
    (List.nodup_cons.mpr ⟨absent, toList_nodup _⟩)]
  rintro ⟨other, held⟩
  simp only [List.mem_cons, ExtTreeMap.mem_toList_iff_getElem?_eq_some, Prod.mk.injEq,
    ExtTreeMap.getElem?_erase, Std.compare_eq_iff_eq]
  by_cases same : key = other
  · subst same
    simp [here, eq_comm]
  · simp [same, Ne.symm same]

theorem toList_insert {entries : ExtTreeMap κ ν} {key : κ} (value : ν)
    (absent : entries[key]? = none) :
    (entries.insert key value).toList.Perm ((key, value) :: entries.toList) := by
  have back : (entries.insert key value).erase key = entries := by
    apply ExtTreeMap.ext_getElem?
    intro other
    simp only [ExtTreeMap.getElem?_erase, ExtTreeMap.getElem?_insert]
    split_ifs with same
    · rw [← LawfulEqOrd.eq_of_compare same, absent]
    · rfl
  have entered : (entries.insert key value)[key]? = some value := by simp
  have listed := toList_erase entered
  rwa [back] at listed

theorem filter_key {α β : Type} [DecidableEq β] (key : α → β) (entries : List α)
    (once : (entries.map key).Nodup) (wanted : β) (found : Option α)
    (spec : ∀ entry, found = some entry ↔ entry ∈ entries ∧ key entry = wanted) :
    entries.filter (fun entry => key entry = wanted) = found.toList := by
  have same : (entries.filter fun entry => key entry = wanted).Perm found.toList := by
    rw [List.perm_ext_iff_of_nodup ((List.Nodup.of_map key once).filter _) (by
      cases found <;> simp)]
    intro entry
    rw [List.mem_filter, decide_eq_true_iff, ← spec, Option.mem_toList]
  cases found with
  | none => exact List.perm_nil.mp same
  | some entry => exact List.perm_singleton.mp same

end OrderedMap
