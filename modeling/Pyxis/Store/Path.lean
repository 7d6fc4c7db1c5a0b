import Pyxis.Shared.Prefixes
import Pyxis.Common.Status

set_option autoImplicit false

namespace Pyxis

def rootPath : Str := ['/']

def kMaxPathSize : Nat := 4096

def invalidChar (c : Char) : Bool :=
  !(c.isAlphanum || c == '_' || c == '/' || c == '-' || c == '.')

def isValidPath (path : Str) : Bool :=
  match path with
  | [] => false
  | head :: _ => head == '/' && decide (path.length < kMaxPathSize) && !path.any invalidChar

def rsplit : Str → Option (Str × Str)
  -- What stands before and after the last slash: `rfind("/")` with the two `substr` calls.
  | [] => none
  | c :: rest =>
      match rsplit rest with
      | some (before, after) => some (c :: before, after)
      | none => if c = '/' then some ([], rest) else none

def splitPath (path : Str) : Except Status (Str × Str) :=
  match rsplit path with
  | none => .error (Status.invalidArgument path)
  | some (before, son) =>
      let parent := if before = [] then rootPath else before
      if son = [] then .error (Status.invalidArgument path) else .ok (parent, son)

def IsName (name : Str) : Prop := name ≠ [] ∧ '/' ∉ name

instance (name : Str) : Decidable (IsName name) := inferInstanceAs (Decidable (_ ∧ _))

def joinPath (parent name : Str) : Str :=
  if parent = rootPath then '/' :: name else parent ++ '/' :: name

def doubledPath (name : Str) : Str := '/' :: '/' :: name

theorem isValidPath_head (path : Str) (valid : isValidPath path = true) :
    ∃ rest, path = '/' :: rest := by
  cases path with
  | nil => simp [isValidPath] at valid
  | cons head rest =>
      simp only [isValidPath, Bool.and_eq_true, beq_iff_eq] at valid
      exact ⟨rest, by rw [valid.1.1]⟩

theorem isValidPath_root : isValidPath rootPath = true := by decide

theorem rsplit_eq_none (path : Str) : rsplit path = none ↔ '/' ∉ path := by
  induction path with
  | nil => simp [rsplit]
  | cons c rest ih =>
      cases later : rsplit rest with
      | some parts =>
          have slash : '/' ∈ rest := by simpa [later] using ih
          simp [rsplit, later, slash]
      | none =>
          have noSlash : '/' ∉ rest := ih.mp later
          by_cases here : c = '/' <;> simp [rsplit, later, noSlash, here, eq_comm]

theorem rsplit_eq_some (path before after : Str) :
    rsplit path = some (before, after) ↔ path = before ++ '/' :: after ∧ '/' ∉ after := by
  induction path generalizing before with
  | nil => simp [rsplit]
  | cons c rest ih =>
      cases later : rsplit rest with
      | some parts =>
          obtain ⟨middle, last⟩ := parts
          have slash : '/' ∈ rest := by
            have present := (rsplit_eq_none rest).not.mp (by simp [later])
            simpa using present
          cases before with
          | nil =>
              simp only [rsplit, later, Option.some.injEq, Prod.mk.injEq, reduceCtorEq,
                false_and, List.nil_append, List.cons.injEq, false_iff]
              rintro ⟨⟨-, rfl⟩, absent⟩
              exact absent slash
          | cons b before =>
              have here := ih before
              simp only [later, Option.some.injEq, Prod.mk.injEq] at here
              simp only [rsplit, later, Option.some.injEq, Prod.mk.injEq, List.cons.injEq,
                List.cons_append, and_assoc, here]
      | none =>
          have noSlash : '/' ∉ rest := (rsplit_eq_none rest).mp later
          cases before with
          | nil =>
              by_cases here : c = '/'
              · simp only [rsplit, later, here, if_true, Option.some.injEq, Prod.mk.injEq,
                  true_and, List.nil_append, List.cons.injEq]
                constructor
                · rintro rfl
                  exact ⟨rfl, noSlash⟩
                · exact fun both => both.1
              · simp [rsplit, later, here]
          | cons b before =>
              have absent : ¬ rest = before ++ '/' :: after := by
                rintro rfl
                simp at noSlash
              by_cases here : c = '/' <;> simp [rsplit, later, here, absent]

theorem splitPath_ok (path parent son : Str) :
    splitPath path = .ok (parent, son) ↔
      IsName son ∧ ∃ before, path = before ++ '/' :: son ∧
        parent = if before = [] then rootPath else before := by
  cases parts : rsplit path with
  | none =>
      have noSlash := (rsplit_eq_none path).mp parts
      simp only [splitPath, parts, reduceCtorEq, false_iff, not_and, not_exists]
      rintro - before rfl
      simp at noSlash
  | some pair =>
      obtain ⟨before, after⟩ := pair
      obtain ⟨whole, noSlash⟩ := (rsplit_eq_some path before after).mp parts
      by_cases empty : after = []
      · simp only [splitPath, parts, empty, if_true, reduceCtorEq, false_iff, not_and, not_exists]
        rintro name before' whole' -
        have other := (rsplit_eq_some path before' son).mpr ⟨whole', name.2⟩
        rw [parts] at other
        exact name.1 (by simpa [empty] using (congrArg (fun p => (p.getD ([], [])).2) other).symm)
      · simp only [splitPath, parts, empty, if_false, Except.ok.injEq, Prod.mk.injEq]
        constructor
        · rintro ⟨rfl, rfl⟩
          exact ⟨⟨empty, noSlash⟩, before, whole, rfl⟩
        · rintro ⟨name, before', whole', rfl⟩
          have other := (rsplit_eq_some path before' son).mpr ⟨whole', name.2⟩
          rw [parts] at other
          cases other
          exact ⟨rfl, rfl⟩

theorem splitPath_ok_iff (path parent son : Str) :
    splitPath path = .ok (parent, son) ↔
      IsName son ∧ parent ≠ [] ∧
        (path = joinPath parent son ∨ parent = rootPath ∧ path = doubledPath son) := by
  rw [splitPath_ok]
  constructor
  · rintro ⟨name, before, rfl, rfl⟩
    refine ⟨name, ?_, ?_⟩
    · split_ifs with empty
      · simp [rootPath]
      · exact empty
    · by_cases empty : before = []
      · simp [empty, joinPath]
      · by_cases top : before = rootPath
        · exact .inr ⟨by simp [top], by simp [top, rootPath, doubledPath]⟩
        · exact .inl (by simp [empty, top, joinPath])
  · rintro ⟨name, nonempty, rfl | ⟨rfl, rfl⟩⟩
    · refine ⟨name, if parent = rootPath then [] else parent, ?_, ?_⟩ <;>
        by_cases top : parent = rootPath <;> simp [joinPath, top, nonempty]
    · exact ⟨name, rootPath, by simp [rootPath, doubledPath], by simp [rootPath]⟩

theorem splitPath_error (path : Str) (status : Status) (failed : splitPath path = .error status) :
    status = Status.invalidArgument path := by
  unfold splitPath at failed
  split at failed
  · exact (Except.error.inj failed).symm
  · dsimp only at failed
    split_ifs at failed
    exact (Except.error.inj failed).symm

theorem splitPath_ne_root (path parent son : Str) (split : splitPath path = .ok (parent, son)) :
    path ≠ rootPath := by
  rintro rfl
  cases split

theorem splitPath_parent (path parent son : Str) (split : splitPath path = .ok (parent, son)) :
    parent ≠ path ∧ (parent = rootPath ∨ parent <+: path) := by
  obtain ⟨name, before, rfl, rfl⟩ := (splitPath_ok path parent son).mp split
  by_cases empty : before = []
  · refine ⟨?_, .inl (by simp [empty])⟩
    simpa [empty, rootPath] using Ne.symm name.1
  · refine ⟨?_, .inr (by simp [empty])⟩
    simp [empty]

theorem splitPath_lt (path parent son : Str) (split : splitPath path = .ok (parent, son)) :
    compare parent path = .lt := by
  obtain ⟨name, before, rfl, rfl⟩ := (splitPath_ok path parent son).mp split
  by_cases empty : before = []
  · simpa [empty, rootPath] using Prefixes.compare_append rootPath son name.1
  · simpa [empty] using Prefixes.compare_append before ('/' :: son) (by simp)

theorem splitPath_parent_head (path parent son : Str) (rooted : ∃ rest, path = '/' :: rest)
    (split : splitPath path = .ok (parent, son)) : ∃ rest, parent = '/' :: rest := by
  obtain ⟨rest, rfl⟩ := rooted
  obtain ⟨-, before, whole, rfl⟩ := (splitPath_ok _ parent son).mp split
  cases before with
  | nil => exact ⟨[], by simp [rootPath]⟩
  | cons head before =>
      simp only [List.cons_append, List.cons.injEq] at whole
      exact ⟨before, by simp [← whole.1]⟩

def cutPath (path : Str) : Str :=
  -- Without a slash the position is `npos`, and the whole path stays.
  match rsplit path with
  | some (before, _) => before
  | none => path

end Pyxis
