import Std.Data.ExtTreeMap
import Mathlib.Data.List.Basic

set_option autoImplicit false

namespace Prefixes

open Std

section Order

variable {α : Type} [Ord α] [LawfulEqOrd α]

theorem compare_append (path rest : List α) (nonempty : rest ≠ []) :
    compare path (path ++ rest) = .lt := by
  induction path with
  | nil =>
      cases rest with
      | nil => exact absurd rfl nonempty
      | cons c rest => rfl
  | cons c path ih =>
      rw [List.cons_append, List.compare_cons_cons, compare_self, ih]
      rfl

theorem length_lt_of_compare [TransOrd α] {one two whole : List α} (first : one <+: whole)
    (second : two <+: whole) (before : compare one two = .lt) : one.length < two.length := by
  by_contra longer
  obtain ⟨rest, rfl⟩ := List.prefix_of_prefix_length_le second first (Nat.not_lt.mp longer)
  by_cases empty : rest = []
  · rw [empty, List.append_nil, compare_self] at before
    cases before
  · have opposite := OrientedCmp.gt_iff_lt.mpr before
    rw [compare_append two rest empty] at opposite
    cases opposite

end Order

variable {α ν : Type} [Ord α] [TransOrd α] [LawfulEqOrd α] [DecidableEq α]

def scan (entries : ExtTreeMap (List α) ν) (path : List α) : Option (List α × ν) :=
  entries.toList.reverse.find? fun entry => entry.1.isPrefixOf path

structure Longest (entries : ExtTreeMap (List α) ν) (path key : List α) (value : ν) : Prop where
  stored : entries[key]? = some value
  leads : key <+: path
  longest : ∀ other ∈ entries, other <+: path → other.length ≤ key.length

variable {entries : ExtTreeMap (List α) ν} {path : List α}

theorem scan_eq_none_iff : scan entries path = none ↔ ∀ key ∈ entries, ¬ key <+: path := by
  rw [scan, List.find?_eq_none]
  simp only [List.mem_reverse, List.isPrefixOf_iff_prefix]
  constructor
  · intro none key member
    obtain ⟨value, stored⟩ := Option.isSome_iff_exists.mp
      (ExtTreeMap.isSome_getElem?_iff_mem.mpr member)
    exact none (key, value) (ExtTreeMap.mem_toList_iff_getElem?_eq_some.mpr stored)
  · intro none entry listed
    have stored := ExtTreeMap.mem_toList_iff_getElem?_eq_some.mp listed
    exact none entry.1 (ExtTreeMap.isSome_getElem?_iff_mem.mp (by rw [stored]; rfl))

theorem longest_of_scan {key : List α} {value : ν} (found : scan entries path = some (key, value)) :
    Longest entries path key value := by
  obtain ⟨leads, after, before, whole, skipped⟩ := List.find?_eq_some_iff_append.mp found
  have descends : entries.toList.reverse.Pairwise fun one two => compare two.1 one.1 = .lt :=
    List.pairwise_reverse.mpr ExtTreeMap.ordered_keys_toList
  have listed : (key, value) ∈ entries.toList := by
    rw [← List.mem_reverse, whole]
    simp
  refine ⟨ExtTreeMap.mem_toList_iff_getElem?_eq_some.mp listed,
    List.isPrefixOf_iff_prefix.mp leads, fun other member shorter => ?_⟩
  obtain ⟨held, stored⟩ := Option.isSome_iff_exists.mp
    (ExtTreeMap.isSome_getElem?_iff_mem.mpr member)
  have somewhere : (other, held) ∈ after ++ (key, value) :: before := by
    rw [← whole, List.mem_reverse]
    exact ExtTreeMap.mem_toList_iff_getElem?_eq_some.mpr stored
  rw [whole] at descends
  rcases List.mem_append.mp somewhere with passed | left
  · have fails := skipped _ passed
    rw [List.isPrefixOf_iff_prefix.mpr shorter] at fails
    cases fails
  · rcases List.mem_cons.mp left with same | below
    · cases same
      exact Nat.le_refl _
    · have smaller := (List.pairwise_cons.mp (List.pairwise_append.mp descends).2.1).1 _ below
      exact Nat.le_of_lt
        (length_lt_of_compare shorter (List.isPrefixOf_iff_prefix.mp leads) smaller)

theorem scan_eq_some_iff {key : List α} {value : ν} :
    scan entries path = some (key, value) ↔ Longest entries path key value := by
  refine ⟨longest_of_scan, fun longest => ?_⟩
  have member : key ∈ entries :=
    ExtTreeMap.isSome_getElem?_iff_mem.mp (by rw [longest.stored]; rfl)
  cases found : scan entries path with
  | none => exact absurd longest.leads (scan_eq_none_iff.mp found key member)
  | some entry =>
      obtain ⟨other, held⟩ := entry
      have also := longest_of_scan found
      have present : other ∈ entries :=
        ExtTreeMap.isSome_getElem?_iff_mem.mp (by rw [also.stored]; rfl)
      have length := Nat.le_antisymm (also.longest key member longest.leads)
        (longest.longest other present also.leads)
      have part := List.prefix_of_prefix_length_le longest.leads also.leads (Nat.le_of_eq length)
      obtain rfl : key = other := part.eq_of_length length
      rw [Option.some.inj (also.stored.symm.trans longest.stored)]

end Prefixes
