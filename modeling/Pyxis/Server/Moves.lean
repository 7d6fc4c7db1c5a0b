import Mathlib.Logic.Relation
import Pyxis.Server.Quiet

set_option autoImplicit false

namespace Pyxis.Machine

open SessionManager (WellFormed Keeps)

/-- The sessions that a step may renew, and when; the timeouts that it may set; the sessions that it
may remove or close; whether it may hand out a sid and take a ping. -/
structure Permits where
  renews : Sid → Time → Prop
  retimes : Sid → Int → Prop
  removes : Sid → Prop
  closes : SessionPtr → Prop
  issues : Prop
  pings : Prop

def Permits.nothing : Permits :=
  ⟨fun _ _ => False, fun _ _ => False, fun _ => False, fun _ => False, False, False⟩

def Permits.closing (ps : List SessionPtr) : Permits := { Permits.nothing with closes := (· ∈ ps) }

def Permits.anything : Permits :=
  ⟨fun _ _ => True, fun _ _ => True, fun _ => True, fun _ => True, True, True⟩

structure Permits.Within (few many : Permits) : Prop where
  renews : ∀ sid now, few.renews sid now → many.renews sid now
  retimes : ∀ sid timeout, few.retimes sid timeout → many.retimes sid timeout
  removes : ∀ sid, few.removes sid → many.removes sid
  closes : ∀ p, few.closes p → many.closes p
  issues : few.issues → many.issues
  pings : few.pings → many.pings

theorem Permits.within_anything (permits : Permits) : permits.Within .anything :=
  ⟨fun _ _ _ => trivial, fun _ _ _ => trivial, fun _ _ => trivial, fun _ _ => trivial,
    fun _ => trivial, fun _ => trivial⟩

theorem Permits.nothing_within (permits : Permits) : Permits.nothing.Within permits :=
  ⟨fun _ _ => False.elim, fun _ _ => False.elim, fun _ => False.elim, fun _ => False.elim,
    False.elim, False.elim⟩

def takePing (p : SessionPtr) (e : Event) (m : Machine) : Machine :=
  -- What `handlePing` does once the session is renewed.
  let m := m.holdPing p e
  if (m.sm.deref p).pendingWatcher.isEmpty then m else m.pingBack p

def unwatch (session : Session) (wm : WatchManager) : WatchManager :=
  session.watches.toList.foldl (fun wm entry => WatchManager.remove wm entry.2) wm

inductive Move (options : Options) (state : State) (permits : Permits) (m : Machine) :
    Machine → Prop
  | store (db : Persist) : Move options state permits m { m with db := db }
  | nodes (p : SessionPtr) (f : Session → Session)
      (only : ∀ s, f s = { s with nodeSet := (f s).nodeSet }) :
      Move options state permits m { m with sm := m.sm.modify p f }
  | reply (e : Event) (rep : Response) (plain : rep.watch = none) :
      Move options state permits m (m.reply e rep)
  | watch (req : Request) : Move options state permits m (m.onWatch req).2
  | triger (e : Watch.Event) (after : Machine) (done : triger state e m = .ok after) :
      Move options state permits m after
  | pingBack (sid : Sid) (p : SessionPtr) (live : m.sm.get sid = some p) :
      Move options state permits m (m.pingBack p)
  | ping (p : SessionPtr) (e : Event) (live : m.sm.get e.req.sid = some p)
      (permitted : permits.pings) :
      Move options state permits m (m.takePing p e)
  | touch (sid : Sid) (now : Time) (sm : SessionManager) (permitted : permits.renews sid now)
      (done : m.sm.touch options now sid = .ok sm) :
      Move options state permits m { m with sm := sm }
  | setTimeout (sid : Sid) (p : SessionPtr) (timeout : Int) (live : m.sm.get sid = some p)
      (permitted : permits.retimes sid timeout) :
      Move options state permits m { m with sm := m.sm.modify p (Session.setTimeout timeout) }
  | close (p : SessionPtr) (permitted : permits.closes p) :
      Move options state permits m { m with sm := m.sm.modify p Session.close }
  | genSid (permitted : permits.issues) :
      Move options state permits m { m with sm := m.sm.genSid.2 }
  | add (sid : Sid) (timeout : Int) (now : Time) (p : SessionPtr) (sm : SessionManager)
      (permitted : permits.renews sid now) (fresh : m.sm.heap[p]? = none)
      (done : m.sm.add options now p (Session.new sid timeout) = .ok sm) :
      Move options state permits m { m with sm := sm }
  -- A session leaves `sessions_`, and its watchers leave the watch manager.
  | drop (sid : Sid) (p : SessionPtr) (sm : SessionManager) (permitted : permits.removes sid)
      (live : m.sm.get sid = some p)
      (done : (m.sm.modify p Session.close).remove sid = .ok sm) :
      Move options state permits m { m with sm := sm, wm := unwatch (m.sm.deref p) m.wm }
  | free (p : SessionPtr) (gone : ∀ sid, m.sm.get sid ≠ some p) :
      Move options state permits m { m with sm := { m.sm with heap := m.sm.heap.erase p } }

abbrev Moves (options : Options) (state : State) (permits : Permits) : Machine → Machine → Prop :=
  Relation.ReflTransGen (Move options state permits)

variable {options : Options} {state : State} {permits : Permits} {m after : Machine}

theorem Move.within {many : Permits} (move : Move options state permits m after)
    (within : permits.Within many) : Move options state many m after := by
  cases move with
  | store db => exact .store db
  | nodes p f only => exact .nodes p f only
  | reply e rep plain => exact .reply e rep plain
  | watch req => exact .watch req
  | triger e after done => exact .triger e after done
  | pingBack sid p live => exact .pingBack sid p live
  | ping p e live permitted => exact .ping p e live (within.pings permitted)
  | touch sid now sm permitted done => exact .touch sid now sm (within.renews _ _ permitted) done
  | setTimeout sid p timeout live permitted =>
      exact .setTimeout sid p timeout live (within.retimes _ _ permitted)
  | close p permitted => exact .close p (within.closes _ permitted)
  | genSid permitted => exact .genSid (within.issues permitted)
  | add sid timeout now p sm permitted fresh done =>
      exact .add sid timeout now p sm (within.renews _ _ permitted) fresh done
  | drop sid p sm permitted live done =>
      exact .drop sid p sm (within.removes _ permitted) live done
  | free p gone => exact .free p gone

theorem Moves.within {many : Permits} (moves : Moves options state permits m after)
    (within : permits.Within many) : Moves options state many m after :=
  Relation.ReflTransGen.mono (fun _ _ move => Move.within move within) _ _ moves

theorem takePing_told (p : SessionPtr) (e : Event) (m : Machine) : Told m (m.takePing p e) := by
  unfold takePing
  dsimp only
  split
  · exact holdPing_told p e m
  · exact (holdPing_told p e m).trans (pingBack_told p _)

theorem Move.wellFormed (move : Move options state permits m after) (wf : m.sm.WellFormed) :
    after.sm.WellFormed := by
  cases move with
  | store db => exact wf
  | nodes p f only =>
      exact SessionManager.modify_wellFormed m.sm wf p f (fun s => by rw [only])
        fun s => by rw [only]
  | reply e rep plain => exact wf
  | watch req => exact (onWatch_told req m).wellFormed wf
  | triger e after done => exact (triger_told state done).wellFormed wf
  | pingBack sid p live => exact (pingBack_told p m).wellFormed wf
  | ping p e live permitted => exact (takePing_told p e m).wellFormed wf
  | touch sid now sm permitted done =>
      exact (SessionManager.touch_keeps wf done).wellFormed
  | setTimeout sid p timeout live permitted =>
      exact SessionManager.modify_wellFormed m.sm wf p _ (fun _ => rfl) fun _ => rfl
  | close p permitted =>
      exact SessionManager.modify_wellFormed m.sm wf p _ (fun _ => rfl) fun _ => rfl
  | genSid permitted => exact ⟨wf.stored, wf.nonempty, wf.queued⟩
  | add sid timeout now p sm permitted fresh done =>
      exact SessionManager.add_wellFormed wf fresh done
  | drop sid p sm permitted live done =>
      have closed := SessionManager.modify_wellFormed m.sm wf p Session.close (fun _ => rfl)
        fun _ => rfl
      exact SessionManager.remove_wellFormed closed done
  | free p gone => exact SessionManager.wellFormed_free m.sm wf p gone

theorem Moves.invariant (invariant : Machine → Prop)
    (kept : ∀ m after, m.sm.WellFormed → invariant m → Move options state permits m after →
      invariant after)
    (moves : Moves options state permits m after) (wf : m.sm.WellFormed) (holds : invariant m) :
    after.sm.WellFormed ∧ invariant after := by
  induction moves with
  | refl => exact ⟨wf, holds⟩
  | tail _ move ih => exact ⟨move.wellFormed ih.1, kept _ _ ih.1 ih.2 move⟩

structure Tends (options : Options) (state : State) (permits : Permits) (before after : Machine) :
    Prop where
  quiet : Quiet before after
  moves : Moves options state permits before after

namespace Tends

theorem refl (wf : m.sm.WellFormed) : Tends options state permits m m := ⟨.refl wf, .refl⟩

theorem trans {first second third : Machine} (one : Tends options state permits first second)
    (two : Tends options state permits second third) : Tends options state permits first third :=
  ⟨one.quiet.trans two.quiet, one.moves.trans two.moves⟩

theorem within {many : Permits} (tends : Tends options state permits m after)
    (within : permits.Within many) : Tends options state many m after :=
  ⟨tends.quiet, tends.moves.within within⟩

theorem of_told (told : Told m after) (move : Move options state permits m after)
    (wf : m.sm.WellFormed) : Tends options state permits m after :=
  ⟨told.quiet wf, .single move⟩

theorem reply (e : Event) (rep : Response) (plain : rep.watch = none) (wf : m.sm.WellFormed) :
    Tends options state permits m (m.reply e rep) :=
  of_told (reply_told e rep m) (.reply e rep plain) wf

theorem watch (req : Request) (wf : m.sm.WellFormed) :
    Tends options state permits m (m.onWatch req).2 :=
  of_told (onWatch_told req m) (.watch req) wf

theorem ping {p : SessionPtr} {e : Event} (live : m.sm.get e.req.sid = some p)
    (permitted : permits.pings) (wf : m.sm.WellFormed) :
    Tends options state permits m (m.takePing p e) :=
  of_told (takePing_told p e m) (.ping p e live permitted) wf

theorem pingBack {sid : Sid} {p : SessionPtr} (live : m.sm.get sid = some p)
    (wf : m.sm.WellFormed) : Tends options state permits m (m.pingBack p) :=
  of_told (pingBack_told p m) (.pingBack sid p live) wf

theorem touch {sid : Sid} {now : Time} {p : SessionPtr} (live : m.sm.get sid = some p)
    (permitted : permits.renews sid now) (wf : m.sm.WellFormed) :
    ∃ sm, m.sm.touch options now sid = .ok sm ∧
      Tends options state permits m { m with sm := sm } := by
  obtain ⟨sm, done, keeps⟩ := SessionManager.touch_spec options now m.sm wf sid p live
  exact ⟨sm, done, ⟨rfl, keeps⟩, .single (.touch sid now sm permitted done)⟩

theorem foldl {α : Type} (f : Machine → α → Machine) (xs : List α) (m : Machine)
    (wf : m.sm.WellFormed)
    (each : ∀ x ∈ xs, ∀ other : Machine, other.sm.sessions = m.sm.sessions →
      other.sm.WellFormed → Tends options state permits other (f other x)) :
    Tends options state permits m (xs.foldl f m) := by
  induction xs generalizing m with
  | nil => exact .refl wf
  | cons x rest ih =>
      have one := each x (by simp) m rfl wf
      refine one.trans (ih _ one.quiet.sm.wellFormed fun y member other sessions => ?_)
      exact each y (List.mem_cons_of_mem _ member) other (sessions.trans one.quiet.sm.sessions)

theorem pingBacks (ps : List SessionPtr) (m : Machine) (wf : m.sm.WellFormed)
    (live : ∀ p ∈ ps, ∃ sid, m.sm.get sid = some p) :
    Tends options state permits m (ps.foldl (fun m p => m.pingBack p) m) := by
  refine foldl _ ps m wf fun p member other sessions wf => ?_
  obtain ⟨sid, here⟩ := live p member
  have there : other.sm.get sid = some p := by
    rw [SessionManager.get, sessions]
    exact here
  exact .pingBack there wf

end Tends

end Pyxis.Machine
