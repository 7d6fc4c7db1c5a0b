import Pyxis.Shared.Batches
import Pyxis.Store.Persist

set_option autoImplicit false

open Std (ExtTreeMap)

namespace Pyxis

namespace Store

def batchLimit : Nat := 1024

-- The locals of `TakeSnapshot`. `st` is `st.ok()`, and `writes` counts the calls of `Write`.
structure Copy where
  newdb : Persist
  batch : List (Str × Value)
  batchCount : Nat
  st : Bool
  writes : Nat

namespace Copy

variable (succeeds : Nat → Bool)

def start : Copy where
  newdb := ∅
  batch := []
  batchCount := 0
  st := true
  writes := 0

def write (copy : Copy) : Copy :=
  { copy with
    newdb := if succeeds copy.writes then copy.newdb.insertMany copy.batch else copy.newdb
    st := succeeds copy.writes
    writes := copy.writes + 1 }

def put (copy : Copy) (entry : Str × Value) : Copy :=
  let copy := { copy with batch := copy.batch ++ [entry], batchCount := copy.batchCount + 1 }
  if batchLimit ≤ copy.batchCount then { copy.write succeeds with batch := [], batchCount := 0 }
  else copy

def flush (copy : Copy) : Copy :=
  if 0 < copy.batchCount then copy.write succeeds else copy

end Copy

/-- `succeeds` says which of the writes go through, `yielded` what the iterator visits, and
`iterated` whether its status is OK in the end. The database is what is there when `done` is
called. -/
def takeSnapshot (succeeds : Nat → Bool) (yielded : List (Str × Value)) (iterated : Bool) :
    Except Fault Persist :=
  let copy := (yielded.foldl (Copy.put succeeds) Copy.start).flush succeeds
  if copy.st && iterated then .ok copy.newdb else .error .takeSnapshot

namespace Copy

variable {succeeds : Nat → Bool}

structure Copied (succeeds : Nat → Bool) (seen : List (Str × Value)) (copy : Copy) : Prop where
  count : copy.batchCount = copy.batch.length
  short : copy.batch.length < batchLimit
  written : ∃ full, seen = full ++ copy.batch ∧ full.length = copy.writes * batchLimit ∧
    copy.newdb = (∅ : Persist).insertMany (Batches.kept batchLimit succeeds full)
  status : copy.st = (copy.writes == 0 || succeeds (copy.writes - 1))

theorem Copied.start (succeeds : Nat → Bool) : Copied succeeds [] Copy.start where
  count := rfl
  short := by decide
  written := ⟨[], rfl, rfl, by simp [Copy.start]⟩
  status := rfl

theorem write_newdb (copy : Copy) {full : List (Str × Value)}
    (whole : full.length = copy.writes * batchLimit) (fits : copy.batch.length ≤ batchLimit)
    (stored : copy.newdb = (∅ : Persist).insertMany (Batches.kept batchLimit succeeds full)) :
    (copy.write succeeds).newdb =
      (∅ : Persist).insertMany (Batches.kept batchLimit succeeds (full ++ copy.batch)) := by
  rw [Batches.kept_append succeeds whole fits, ExtTreeMap.insertMany_append, ← stored, write]
  split_ifs <;> simp

theorem Copied.put {seen : List (Str × Value)} {copy : Copy} (copied : Copied succeeds seen copy)
    (entry : Str × Value) : Copied succeeds (seen ++ [entry]) (copy.put succeeds entry) := by
  obtain ⟨count, short, ⟨full, rfl, whole, stored⟩, status⟩ := copied
  unfold Copy.put
  dsimp only
  split_ifs with limit
  · -- The batch is full.
    refine ⟨rfl, Nat.succ_pos _, ⟨full ++ (copy.batch ++ [entry]), by simp, ?_, ?_⟩, rfl⟩
    · simp only [write, List.length_append, List.length_singleton, whole]
      rw [Nat.add_one_mul]
      omega
    · exact write_newdb { copy with batch := copy.batch ++ [entry], batchCount := _ } whole
        (by simp only [List.length_append, List.length_singleton]; omega) stored
  · refine ⟨by simp [count], ?_, ⟨full, by simp, whole, stored⟩, status⟩
    simp only [List.length_append, List.length_singleton]
    omega

theorem Copied.puts {seen : List (Str × Value)} {copy : Copy} (copied : Copied succeeds seen copy)
    (rest : List (Str × Value)) :
    Copied succeeds (seen ++ rest) (rest.foldl (Copy.put succeeds) copy) := by
  induction rest generalizing seen copy with
  | nil => rwa [List.append_nil]
  | cons entry rest ih =>
      rw [← List.singleton_append, ← List.append_assoc]
      exact ih (copied.put entry)

theorem Copied.flush {seen : List (Str × Value)} {copy : Copy}
    (copied : Copied succeeds seen copy) :
    (copy.flush succeeds).newdb =
        (∅ : Persist).insertMany (Batches.kept batchLimit succeeds seen) ∧
      (copy.flush succeeds).st = (Batches.count batchLimit seen.length == 0 ||
        succeeds (Batches.count batchLimit seen.length - 1)) := by
  obtain ⟨count, short, ⟨full, rfl, whole, stored⟩, status⟩ := copied
  have total : Batches.count batchLimit (full ++ copy.batch).length =
      if 0 < copy.batchCount then copy.writes + 1 else copy.writes := by
    rw [List.length_append, whole, count, Batches.count_eq short]
  unfold Copy.flush
  split_ifs at total ⊢ with some
  · rw [total]
    exact ⟨write_newdb copy whole (Nat.le_of_lt short) stored, rfl⟩
  · have empty : copy.batch = [] := List.eq_nil_of_length_eq_zero (by omega)
    rw [total]
    exact ⟨by rw [stored, empty, List.append_nil], status⟩

end Copy

variable {succeeds : Nat → Bool}

theorem takeSnapshot_eq (succeeds : Nat → Bool) (yielded : List (Str × Value)) (iterated : Bool) :
    takeSnapshot succeeds yielded iterated =
      if (Batches.count batchLimit yielded.length == 0 ||
          succeeds (Batches.count batchLimit yielded.length - 1)) && iterated then
        .ok ((∅ : Persist).insertMany (Batches.kept batchLimit succeeds yielded))
      else .error .takeSnapshot := by
  obtain ⟨newdb, status⟩ := ((Copy.Copied.start succeeds).puts yielded).flush
  simp only [List.nil_append] at newdb status
  simp only [takeSnapshot, newdb, status]

def Distinct (entries : List (Str × Value)) : Prop :=
  entries.Pairwise fun one two => ¬ compare one.1 two.1 = .eq

theorem insertMany_iff {entries : List (Str × Value)} (distinct : Distinct entries) (key : Str)
    (value : Value) :
    ((∅ : Persist).insertMany entries)[key]? = some value ↔ (key, value) ∈ entries := by
  have stored {other : Value} (member : (key, other) ∈ entries) :
      ((∅ : Persist).insertMany entries)[key]? = some other :=
    ExtTreeMap.getElem?_insertMany_list_of_mem Std.ReflCmp.compare_self distinct member
  refine ⟨fun found => ?_, stored⟩
  by_cases listed : key ∈ entries.map Prod.fst
  · obtain ⟨⟨_, other⟩, member, rfl⟩ := List.mem_map.mp listed
    rw [stored member] at found
    cases found
    exact member
  · rw [ExtTreeMap.getElem?_insertMany_list_of_contains_eq_false (by simpa using listed)] at found
    simp at found

theorem Distinct.nodup {entries : List (Str × Value)} (distinct : Distinct entries) :
    entries.Nodup :=
  distinct.imp fun different same => different (by rw [same]; exact Std.ReflCmp.compare_self)

def Complete (succeeds : Nat → Bool) (yielded : List (Str × Value)) (iterated : Bool) : Prop :=
  ∀ newdb, takeSnapshot succeeds yielded iterated = .ok newdb →
    ∀ key value, newdb[key]? = some value ↔ (key, value) ∈ yielded

theorem stored_iff {yielded : List (Str × Value)} (distinct : Distinct yielded) :
    (∀ key value, ((∅ : Persist).insertMany (Batches.kept batchLimit succeeds yielded))[key]? =
        some value ↔ (key, value) ∈ yielded) ↔
      ∀ write < Batches.count batchLimit yielded.length, succeeds write = true := by
  have sublist : (Batches.kept batchLimit succeeds yielded).Sublist yielded :=
    Batches.kept_sublist yielded
  simp only [insertMany_iff (List.Pairwise.sublist sublist distinct)]
  rw [← Batches.kept_eq_self_iff (by decide : 0 < batchLimit)]
  constructor
  · intro same
    refine sublist.eq_of_length (Nat.le_antisymm sublist.length_le ?_)
    exact (List.subperm_of_subset distinct.nodup fun entry member =>
      (same entry.1 entry.2).mpr member).length_le
  · intro same key value
    rw [same]

theorem complete_iff {yielded : List (Str × Value)} (distinct : Distinct yielded)
    (iterated : Bool) {writes : Nat} (counted : Batches.count batchLimit yielded.length = writes) :
    Complete succeeds yielded iterated ↔
      (∀ write, write + 1 < writes → succeeds write = true) ∨
        (0 < writes ∧ succeeds (writes - 1) = false) ∨ iterated = false := by
  rw [Complete, takeSnapshot_eq, counted]
  split_ifs with reached
  · -- The last write went through, so the others decide.
    simp only [Bool.and_eq_true, Bool.or_eq_true, beq_iff_eq] at reached
    obtain ⟨last, rfl⟩ := reached
    simp only [Except.ok.injEq, forall_eq', stored_iff distinct, counted]
    constructor
    · exact fun all => .inl fun write before => all write (Nat.lt_of_succ_lt before)
    · rintro (all | ⟨some, failed⟩ | failed) write before
      · rcases Nat.lt_or_ge (write + 1) writes with earlier | final
        · exact all write earlier
        · obtain rfl : write = writes - 1 := by omega
          exact last.resolve_left (by omega)
      · rw [last.resolve_left (by omega)] at failed
        cases failed
      · cases failed
  · refine iff_of_true (fun _ failed => by cases failed) (.inr ?_)
    cases iterated with
    | false => exact .inr rfl
    | true =>
        simp only [Bool.and_true, Bool.or_eq_true, beq_iff_eq, not_or, Bool.not_eq_true] at reached
        exact .inl ⟨Nat.pos_of_ne_zero reached.1, reached.2⟩

theorem snapshot_complete (succeeds : Nat → Bool) (source : Persist) (visited : Nat)
    (iterated : Bool) :
    let yielded := source.toList.take visited
    let writes := Batches.count batchLimit yielded.length
    Complete succeeds yielded iterated ↔
      (∀ write, write + 1 < writes → succeeds write = true) ∨
        (0 < writes ∧ succeeds (writes - 1) = false) ∨ iterated = false :=
  complete_iff (List.Pairwise.sublist (List.take_sublist visited _)
    ExtTreeMap.distinct_keys_toList) iterated rfl

def records (count : Nat) : List (Str × Value) :=
  (List.range count).map fun i => (List.replicate i 'a', .index i)

theorem records_distinct (count : Nat) : Distinct (records count) := by
  refine List.Pairwise.map _ (fun one two different same => different ?_) List.nodup_range
  simpa using congrArg List.length (Std.compare_eq_iff_eq.mp same)

theorem kept_second {entries : List (Str × Value)} (length : entries.length = batchLimit + 1) :
    Batches.kept batchLimit (fun write => write != 0) entries = entries.drop batchLimit := by
  have whole : (entries.take batchLimit).length = 1 * batchLimit := by
    rw [List.length_take, length, Nat.one_mul]
    exact Nat.min_eq_left (Nat.le_succ _)
  have rest : (entries.drop batchLimit).length ≤ batchLimit := by
    rw [List.length_drop, length, Nat.add_sub_cancel_left]
    exact Nat.succ_le_succ (Nat.zero_le _)
  have first := Batches.kept_append (fun write => write != 0)
    (show ([] : List (Str × Value)).length = 0 * batchLimit from (Nat.zero_mul _).symm)
    (Nat.le_of_eq (whole.trans (Nat.one_mul _)))
  have second := Batches.kept_append (fun write => write != 0) whole rest
  rw [List.take_append_drop] at second
  rw [second, ← List.nil_append (entries.take batchLimit), first]
  simp

theorem takeSnapshot_second {source : Persist} (size : source.size = batchLimit + 1) :
    ∃ newdb : Persist, newdb.size = 1 ∧
      takeSnapshot (fun write => write != 0) source.toList true = .ok newdb ∧
      ¬ Complete (fun write => write != 0) source.toList true := by
  have length : source.toList.length = batchLimit + 1 := by rw [ExtTreeMap.length_toList, size]
  have counted : Batches.count batchLimit source.toList.length = 2 := by
    rw [length]
    decide
  refine ⟨(∅ : Persist).insertMany (source.toList.drop batchLimit), ?_, ?_, ?_⟩
  · rw [ExtTreeMap.size_insertMany_list
      (List.Pairwise.sublist (List.drop_sublist _ _) ExtTreeMap.distinct_keys_toList) (by simp)]
    simp [size]
  · rw [takeSnapshot_eq, kept_second length, counted]
    rfl
  · rw [complete_iff ExtTreeMap.distinct_keys_toList true counted]
    rintro (all | ⟨-, failed⟩ | failed)
    · exact absurd (all 0 (by decide)) (by decide)
    · cases failed
    · cases failed

-- Of 1025 records the first 1024 are in a batch whose write fails. The second batch is written,
-- and a snapshot of one record is reported done.
theorem snapshot_complete_lost :
    ∃ source newdb : Persist, source.size = 1025 ∧ newdb.size = 1 ∧
      takeSnapshot (fun write => write != 0) source.toList true = .ok newdb ∧
      ¬ Complete (fun write => write != 0) source.toList true := by
  have size : ((∅ : Persist).insertMany (records 1025)).size = 1025 := by
    rw [ExtTreeMap.size_insertMany_list (records_distinct 1025) (by simp)]
    simp [records]
  obtain ⟨newdb, one, done, partially⟩ := takeSnapshot_second size
  exact ⟨_, newdb, size, one, done, partially⟩

end Store

end Pyxis
