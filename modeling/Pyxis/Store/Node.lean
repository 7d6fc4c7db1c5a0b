import Mathlib.Algebra.GroupWithZero.Nat
import Mathlib.Data.List.Perm.Basic
import Mathlib.Data.List.Count
import Pyxis.Common.Status

set_option autoImplicit false

namespace Pyxis

def kPersist : UInt32 := 0x00
def kEphemeral : UInt32 := 0x01

def isEphemeral (flags : UInt32) : Bool := flags &&& kEphemeral != 0

/-- `store::Node`. `data`, `flags` and `version` are always set; `sid` is set exactly when it is
not zero. -/
structure Node where
  data : Str
  children : List Str
  flags : UInt32
  version : UInt64
  sid : Sid
  deriving DecidableEq, Repr

namespace Node

def ephemeral (node : Node) : Bool := isEphemeral node.flags

def varintSize : Nat → Nat → Nat
  -- Bytes of a protobuf varint, at most ten for 64 bits.
  | 0, _ => 0
  | fuel + 1, n => if n < 128 then 1 else 1 + varintSize fuel (n / 128)

-- A length-delimited field: one byte of tag, the length, the bytes.
def fieldSize (field : Str) : Nat := 1 + varintSize 10 field.length + field.length

def byteSize (node : Node) : Nat :=
  fieldSize node.data + (node.children.map fieldSize).sum +
    (1 + varintSize 10 node.flags.toNat) + (1 + varintSize 10 node.version.toNat) +
    if node.sid = 0 then 0 else 1 + varintSize 10 node.sid.toNat

end Node

def newNode (data : Str) (flags : UInt32) : Node :=
  { data := data, children := [], flags := flags, version := 0, sid := 0 }

def addChild (node : Node) (son : Str) : Node :=
  { node with children := node.children ++ [son] }

def swapRemove (son : Str) : List Str → Option (List Str)
  -- The first `son` changes places with the last element, which is then removed.
  | [] => none
  | child :: rest =>
      if child = son then
        match rest.getLast? with
        | none => some []
        | some last => some (last :: rest.dropLast)
      else (swapRemove son rest).map (child :: ·)

def removeChild (node : Node) (son : Str) : Except Status Node :=
  match swapRemove son node.children with
  | some children => .ok { node with children := children }
  | none => .error (Status.notFound (son ++ text " not found in " ++ text " children"))

theorem swapRemove_isSome (son : Str) (children : List Str) :
    (swapRemove son children).isSome ↔ son ∈ children := by
  induction children with
  | nil => simp [swapRemove]
  | cons child rest ih =>
      by_cases same : child = son
      · simp only [swapRemove, same, if_true, List.mem_cons, true_or, iff_true]
        cases rest.getLast? <;> rfl
      · simp [swapRemove, same, ih, Ne.symm same]

theorem swapRemove_perm (son : Str) (children removed : List Str)
    (found : swapRemove son children = some removed) : children.Perm (son :: removed) := by
  induction children generalizing removed with
  | nil => simp [swapRemove] at found
  | cons child rest ih =>
      by_cases same : child = son
      · simp only [swapRemove, same, if_true] at found
        rw [same]
        cases last : rest.getLast? with
        | none =>
            rw [last] at found
            cases found
            rw [List.getLast?_eq_none_iff.mp last]
        | some final =>
            rw [last] at found
            cases found
            have whole : rest = rest.dropLast ++ [final] :=
              (List.dropLast_append_getLast? final last).symm
            have moved : rest.Perm (final :: rest.dropLast) := by
              conv_lhs => rw [whole]
              exact List.perm_append_singleton final rest.dropLast
            exact moved.cons son
      · simp only [swapRemove, same, if_false, Option.map_eq_some_iff] at found
        obtain ⟨inner, foundRest, rfl⟩ := found
        exact ((ih inner foundRest).cons child).trans (List.Perm.swap son child inner)

theorem removeChild_ok (node : Node) (son : Str) :
    (∃ removed, removeChild node son = .ok removed) ↔ son ∈ node.children := by
  rw [← swapRemove_isSome]
  cases found : swapRemove son node.children <;> simp [removeChild, found]

theorem removeChild_spec (node removed : Node) (son : Str)
    (found : removeChild node son = .ok removed) :
    removed = { node with children := removed.children } ∧
      node.children.Perm (son :: removed.children) := by
  cases swapped : swapRemove son node.children with
  | none => simp [removeChild, swapped] at found
  | some children =>
      simp only [removeChild, swapped, Except.ok.injEq] at found
      subst found
      exact ⟨rfl, swapRemove_perm son node.children children swapped⟩

theorem removeChild_count (node removed : Node) (son name : Str)
    (found : removeChild node son = .ok removed) :
    node.children.count name = removed.children.count name + if son = name then 1 else 0 := by
  rw [(removeChild_spec node removed son found).2.count_eq, List.count_cons]
  simp [beq_iff_eq]

theorem addChild_count (node : Node) (son name : Str) :
    (addChild node son).children.count name =
      node.children.count name + if son = name then 1 else 0 := by
  simp [addChild, List.count_append, List.count_singleton, beq_iff_eq]

@[simp] theorem addChild_flags (node : Node) (son : Str) :
    (addChild node son).flags = node.flags := rfl

@[simp] theorem newNode_children (data : Str) (flags : UInt32) :
    (newNode data flags).children = [] := rfl

end Pyxis
