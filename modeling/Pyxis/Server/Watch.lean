import Pyxis.Server.Message
import Pyxis.Store.Path

set_option autoImplicit false

namespace Pyxis

-- `id` stands for the address: two `boost::shared_ptr` are one watcher when their ids agree.
structure Watcher where
  id : Nat
  path : Str
  sid : Sid
  mask : UInt32
  recursive : Bool
  deriving DecidableEq, Repr

-- What becomes of an event: `Triger` is called with it, and while the server leads some watchers
-- bring it to their sessions.
inductive Trace where
  | triger (e : Watch.Event)
  | notify (w : Watcher) (e : Watch.Event)
  deriving DecidableEq, Repr

-- The multimap `watchers_`: entries of one path stand in the order they were inserted.
abbrev WatchManager := List (Str × Watcher)

namespace WatchManager

def add (wm : WatchManager) (path : Str) (w : Watcher) : WatchManager := wm ++ [(path, w)]

def remove (wm : WatchManager) (w : Watcher) : WatchManager :=
  wm.eraseP fun entry => entry.1 == w.path && entry.2.sid == w.sid

def fires (path : Str) (e : Watch.Event) (fromChild : Bool) (entry : Str × Watcher) : Bool :=
  entry.1 == path && (!fromChild || entry.2.recursive) && entry.2.mask &&& e.type != 0

end WatchManager

def ancestors : Nat → Str → Option (List Str)
  -- The paths `Triger` climbs to below the root, `none` when the climb never ends: a path without
  -- a slash is its own `substr(0, rfind("/"))`.
  | _, [] => some []
  | 0, _ :: _ => none
  | fuel + 1, path => (ancestors fuel (cutPath path)).map (path :: ·)

def trigerPaths (path : Str) : Option (List (Str × Bool)) :=
  (ancestors path.length (cutPath path)).map fun above =>
    (path, false) :: above.map (·, true) ++ [(rootPath, true)]

theorem cutPath_rooted (rest : Str) :
    cutPath ('/' :: rest) = [] ∨
      ∃ shorter, cutPath ('/' :: rest) = '/' :: shorter ∧ shorter.length < rest.length := by
  cases split : rsplit ('/' :: rest) with
  | none => simp [rsplit_eq_none] at split
  | some parts =>
      obtain ⟨before, after⟩ := parts
      obtain ⟨whole, -⟩ := (rsplit_eq_some _ before after).mp split
      simp only [cutPath, split]
      cases before with
      | nil => exact .inl rfl
      | cons head before =>
          simp only [List.cons_append, List.cons.injEq] at whole
          refine .inr ⟨before, by rw [whole.1], ?_⟩
          simp [whole.2]

theorem ancestors_rooted (fuel : Nat) (rest : Str) (enough : rest.length < fuel) :
    (ancestors fuel ('/' :: rest)).isSome = true := by
  induction fuel generalizing rest with
  | zero => omega
  | succ fuel ih =>
      simp only [ancestors, Option.isSome_map]
      rcases cutPath_rooted rest with done | ⟨shorter, cut, less⟩
      · simp [done, ancestors]
      · rw [cut]
        exact ih shorter (by omega)

theorem trigerPaths_rooted (path : Str) (rooted : ∃ rest, path = '/' :: rest) :
    ∃ calls, trigerPaths path = some calls := by
  obtain ⟨rest, rfl⟩ := rooted
  rw [← Option.isSome_iff_exists, trigerPaths, Option.isSome_map]
  rcases cutPath_rooted rest with done | ⟨shorter, cut, less⟩
  · simp [done, ancestors]
  · rw [cut]
    exact ancestors_rooted _ shorter (by simp only [List.length_cons]; omega)

end Pyxis
