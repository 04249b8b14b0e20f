/-
  Who sits where. A seating is what the maps of the hub say about sessions and pairs: the pair
  that each session names, the pair records, the session that waits on each route and the room
  index. `Consistent` says how the four belong together; each way to change them keeps it.

  `Fits` bounds the rooms that a route keeps without players: no list of them without
  repetition is longer than the capacity.
-/
import Terlan.WebSocket.Hub

namespace Terlan.WebSocket

open Terlan.Lib WebSocketHubPair
open Function (update update_apply update_self update_of_ne)

attribute [local grind =] update_apply

/-! ## Pairs -/

namespace WebSocketHubPair

/-- The session has one of the seats. -/
abbrev Seats (pair : WebSocketHubPair) (id : UInt64) : Prop :=
  pair.first = some id ∨ pair.second = some id

/-- Nobody has a seat. -/
abbrev Vacant (pair : WebSocketHubPair) : Prop := pair.first = none ∧ pair.second = none

/-- The key of the pair in the room index. -/
abbrev HasKey (pair : WebSocketHubPair) (key : RoomKey) : Prop :=
  pair.route = key.route ∧ pair.roomId = some key.roomId

/-- Two records that differ in nothing that the seating looks at. -/
structure Alike (pair pair' : WebSocketHubPair) : Prop where
  first : pair'.first = pair.first
  second : pair'.second = pair.second
  route : pair'.route = pair.route
  roomId : pair'.roomId = pair.roomId
  retention : pair'.retention = pair.retention
  retainedRoomCapacity : pair'.retainedRoomCapacity = pair.retainedRoomCapacity
  expiresAt : pair'.expiresAt = pair.expiresAt

/-- The record after one of its players left. -/
structure Vacated (pair : WebSocketHubPair) (id : UInt64) (pair' : WebSocketHubPair) : Prop where
  first : pair'.first = if pair.first = some id then none else pair.first
  second : pair'.second = if pair.second = some id then none else pair.second
  route : pair'.route = pair.route
  roomId : pair'.roomId = pair.roomId
  retention : pair'.retention = pair.retention
  retainedRoomCapacity : pair'.retainedRoomCapacity = pair.retainedRoomCapacity
  ends : pair'.expiresAt ≠ none → pair'.Vacant

end WebSocketHubPair

/-- The rooms without players that a route may keep. -/
def roomCapacity (plan : String → WebSocketPairing) (route : String) : Nat :=
  (plan route).restoration.elim 0 WebSocketRestoration.retainedRoomCapacity

/-! ## Seatings -/

@[ext]
structure Seating where
  lastId : Nat
  link : UInt64 → Option (Option UInt64)
  pairAt : UInt64 → Option WebSocketHubPair
  waitingAt : String → Option UInt64
  roomAt : RoomKey → Option UInt64

namespace Seating

/-- How sessions, pairs, waiting entries and rooms belong together. -/
structure Consistent (plan : String → WebSocketPairing) (v : Seating) : Prop where
  sessionIds : ∀ id, v.link id ≠ none → id.toNat ≤ v.lastId
  pairIds : ∀ p, v.pairAt p ≠ none → p.toNat ≤ v.lastId
  seated : ∀ p pair, v.pairAt p = some pair → ∀ id, pair.Seats id →
    v.link id = some (some p) ∨ v.link id = some none ∧ id = p
  apart : ∀ p pair, v.pairAt p = some pair →
    ∀ id, ¬ (pair.first = some id ∧ pair.second = some id)
  named : ∀ id p, v.link id = some (some p) → ∃ pair, v.pairAt p = some pair ∧ pair.Seats id
  waits : ∀ route id, v.waitingAt route = some id → v.link id = some none ∧
    ∃ pair, v.pairAt id = some pair ∧ pair.route = route ∧ pair.first = some id ∧
      pair.second = none ∧ pair.roomId = none
  alone : ∀ id pair, v.link id = some none → v.pairAt id = some pair →
    v.waitingAt pair.route = some id
  own : ∀ id p pair, v.link id = some (some p) → v.pairAt id = some pair → p = id
  rooms : ∀ key p, v.roomAt key = some p ↔ ∃ pair, v.pairAt p = some pair ∧ pair.HasKey key
  ends : ∀ p pair, v.pairAt p = some pair → pair.expiresAt ≠ none → pair.Vacant
  planned : ∀ p pair, v.pairAt p = some pair → pair.retention ≠ none →
    pair.retainedRoomCapacity = roomCapacity plan pair.route

/-- The pair is one of the rooms that its route keeps without players. -/
def Retains (v : Seating) (route : String) (p : UInt64) : Prop :=
  ∃ pair, v.pairAt p = some pair ∧ pair.route = route ∧ pair.Vacant

/-- No `capacity + 1` rooms of the route are without players. -/
def Fits (v : Seating) (route : String) (capacity : Nat) : Prop :=
  ∀ ids : List UInt64, ids.Nodup → (∀ id ∈ ids, v.Retains route id) → ids.length ≤ capacity

theorem Fits.subset {v v' : Seating} {route : String} {capacity : Nat}
    (h : v.Fits route capacity) (less : ∀ p, v'.Retains route p → v.Retains route p) :
    v'.Fits route capacity :=
  fun ids once kept => h ids once fun id mem => less id (kept id mem)

/-- No route keeps more rooms without players than its pairing allows. -/
def Bounded (plan : String → WebSocketPairing) (v : Seating) : Prop :=
  ∀ route, v.Fits route (roomCapacity plan route)

theorem Bounded.subset {plan : String → WebSocketPairing} {v v' : Seating} (h : v.Bounded plan)
    (less : ∀ route p, v'.Retains route p → v.Retains route p) : v'.Bounded plan :=
  fun route => (h route).subset (less route)

/-- Nobody was ever here. -/
def initial : Seating := ⟨0, fun _ => none, fun _ => none, fun _ => none, fun _ => none⟩

theorem consistent_initial (plan : String → WebSocketPairing) : Consistent plan initial := by
  constructor <;> simp [initial]

theorem bounded_initial (plan : String → WebSocketPairing) : Bounded plan initial := by
  intro route ids _ kept
  cases ids with
  | nil => exact Nat.zero_le _
  | cons id ids =>
    obtain ⟨pair, stored, -⟩ := kept id List.mem_cons_self
    cases stored

variable {plan : String → WebSocketPairing} {v : Seating} {id p : UInt64}
  {pair pair' : WebSocketHubPair}

section

variable (h : Consistent plan v)
include h

/-- A record that is alike takes the place of another. -/
theorem Consistent.replace (stored : v.pairAt p = some pair) (alike : pair.Alike pair') :
    Consistent plan { v with pairAt := update v.pairAt p (some pair') } where
  sessionIds := by
    have sessionIds := h.sessionIds
    grind [cases Alike]
  pairIds := by
    have pairIds := h.pairIds
    grind [cases Alike]
  seated := by grind [h.seated, cases Alike]
  apart := by grind [h.apart, cases Alike]
  named := by grind [h.named, cases Alike]
  waits := by grind [h.waits, cases Alike]
  alone := by grind [h.alone, cases Alike]
  own := by grind [h.own, cases Alike]
  rooms := by grind [h.rooms, cases Alike]
  ends := by grind [h.ends, cases Alike]
  planned := by grind [h.planned, cases Alike]

/-- A pair with two players becomes a room under a key that nobody has. -/
theorem Consistent.admitRoom {roomId : String}
    (stored : v.pairAt p = some pair) (new : v.roomAt ⟨pair.route, roomId⟩ = none)
    (roomless : pair.roomId = none) (second : pair.second ≠ none) :
    Consistent plan { v with
      pairAt := update v.pairAt p (some { pair with roomId := some roomId, revision := 1 })
      roomAt := update v.roomAt ⟨pair.route, roomId⟩ (some p) } where
  sessionIds := by
    have sessionIds := h.sessionIds
    grind
  pairIds := by
    have pairIds := h.pairIds
    grind
  seated := by grind [h.seated]
  apart := by grind [h.apart]
  named := by grind [h.named]
  waits := by grind [h.waits]
  alone := by grind [h.alone]
  own := by grind [h.own]
  rooms := by grind [h.rooms, cases RoomKey]
  ends := by grind [h.ends]
  planned := by grind [h.planned]

/-- A new session takes an empty seat of a room. -/
theorem Consistent.takeSeat {role : Int}
    (stored : v.pairAt p = some pair) (fresh : v.link id = none) (unused : v.pairAt id = none)
    (small : id.toNat ≤ v.lastId) (room : pair.roomId ≠ none) (free : pair.seatTaken role = false) :
    Consistent plan { v with
      link := update v.link id (some (some p))
      pairAt := update v.pairAt p (some (pair.takeSeat role id)) } where
  sessionIds := by
    have sessionIds := h.sessionIds
    grind [seatTaken, takeSeat]
  pairIds := by
    have pairIds := h.pairIds
    grind [seatTaken, takeSeat]
  seated := by grind [h.seated, seatTaken, takeSeat]
  apart := by
    have apart := h.apart
    have seated := h.seated
    grind [seatTaken, takeSeat]
  named := by grind [h.named, seatTaken, takeSeat]
  waits := by grind [h.waits, seatTaken, takeSeat]
  alone := by grind [h.alone, seatTaken, takeSeat]
  own := by grind [h.own, seatTaken, takeSeat]
  rooms := by grind [h.rooms, seatTaken, takeSeat]
  ends := by grind [h.ends, seatTaken, takeSeat]
  planned := by grind [h.planned, seatTaken, takeSeat]

/-- A new session waits. -/
theorem Consistent.admitWaiting {route requestTarget : String}
    (fresh : v.link id = none) (unused : v.pairAt id = none) (small : id.toNat ≤ v.lastId)
    (nobody : v.waitingAt route = none) : Consistent plan { v with
      link := update v.link id (some none)
      waitingAt := update v.waitingAt route (some id)
      pairAt := update v.pairAt id (some (.waitingFor id route requestTarget)) } where
  sessionIds := by
    have sessionIds := h.sessionIds
    grind [waitingFor]
  pairIds := by
    have pairIds := h.pairIds
    grind [waitingFor]
  seated := by grind [h.seated, waitingFor]
  apart := by grind [h.apart, waitingFor]
  named := by grind [h.named, waitingFor]
  waits route' k waiting := by
    by_cases same : k = id
    · subst same
      refine ⟨update_self .., _, update_self .., ?_⟩
      have waits := h.waits route' k
      grind [waitingFor]
    · have waits := h.waits route' k
      grind
  alone := by grind [h.alone, waitingFor]
  own := by grind [h.own, waitingFor]
  rooms := by grind [h.rooms, waitingFor]
  ends := by grind [h.ends, waitingFor]
  planned := by grind [h.planned, waitingFor]

/-- A new session is matched with the one that waits. -/
theorem Consistent.admitMatched {waitingId : UInt64}
    {route firstRequest requestTarget : String} (fresh : v.link id = none)
    (unused : v.pairAt id = none) (small : id.toNat ≤ v.lastId)
    (waiting : v.waitingAt route = some waitingId) : Consistent plan { v with
      link := update (update v.link id (some (some waitingId))) waitingId (some (some waitingId))
      waitingAt := update v.waitingAt route none
      pairAt := update v.pairAt waitingId
        (some (.matched waitingId id route firstRequest requestTarget (plan route))) } where
  sessionIds := by
    have sessionIds := h.sessionIds
    have waits := h.waits
    grind [matched]
  pairIds := by
    have pairIds := h.pairIds
    have waits := h.waits
    grind [matched]
  seated := by
    have seated := h.seated
    have waits := h.waits
    grind [matched]
  apart := by grind [h.apart, h.waits, matched]
  named := by
    have named := h.named
    have waits := h.waits
    grind [matched]
  waits := by
    have waits := h.waits
    grind [matched]
  alone := by grind [h.alone, h.waits, matched]
  own := by grind [h.own, h.waits, matched]
  rooms := by
    have rooms := h.rooms
    have waits := h.waits
    grind [matched]
  ends := by grind [h.ends, h.waits, matched]
  planned := by grind [h.planned, h.waits, matched, roomCapacity]

/-- A session without a pair leaves, with its waiting entry and record. -/
theorem Consistent.leaveAlone (free : v.link id = some none) :
    Consistent plan { v with
      link := update v.link id none
      waitingAt := fun route => (v.waitingAt route).filter (· != id)
      pairAt := update v.pairAt id none } where
  sessionIds := by
    have sessionIds := h.sessionIds
    grind [Option.filter_eq_some_iff]
  pairIds := by
    have pairIds := h.pairIds
    grind [Option.filter_eq_some_iff]
  seated := by grind [h.seated, Option.filter_eq_some_iff]
  apart := by grind [h.apart, Option.filter_eq_some_iff]
  named := by
    have named := h.named
    have seated := h.seated
    have waits := h.waits
    have alone := h.alone
    grind [Option.filter_eq_some_iff]
  waits := by grind [h.waits, Option.filter_eq_some_iff]
  alone := by grind [h.alone, Option.filter_eq_some_iff]
  own := by grind [h.own, Option.filter_eq_some_iff]
  rooms := by
    have rooms := h.rooms
    have waits := h.waits
    have alone := h.alone
    grind [Option.filter_eq_some_iff]
  ends := by grind [h.ends, Option.filter_eq_some_iff]
  planned := by grind [h.planned, Option.filter_eq_some_iff]

/-- A session leaves its pair. -/
theorem Consistent.vacate (names : v.link id = some (some p))
    (stored : v.pairAt p = some pair) (vacated : pair.Vacated id pair') :
    Consistent plan { v with
      link := update v.link id none
      pairAt := update v.pairAt p (some pair') } where
  sessionIds := by
    have sessionIds := h.sessionIds
    grind [cases Vacated]
  pairIds := by
    have pairIds := h.pairIds
    grind [cases Vacated]
  seated := by grind [h.seated, h.apart, cases Vacated]
  apart := by grind [h.apart, cases Vacated]
  named := by grind [h.named, h.seated, cases Vacated]
  waits := by grind [h.waits, h.seated, cases Vacated]
  alone := by grind [h.alone, cases Vacated]
  own := by grind [h.own, cases Vacated]
  rooms := by grind [h.rooms, cases Vacated]
  ends := by grind [h.ends, cases Vacated]
  planned := by grind [h.planned, cases Vacated]

end

/-- The pair goes, and its room. -/
def remove (v : Seating) (p : UInt64) : Seating :=
  { v with
    pairAt := update v.pairAt p none
    roomAt := fun key => if v.roomAt key = some p then none else v.roomAt key }

@[grind =] theorem remove_lastId : (v.remove p).lastId = v.lastId := rfl

@[grind =] theorem remove_link (k : UInt64) : (v.remove p).link k = v.link k := rfl

@[grind =] theorem remove_waitingAt (route : String) :
    (v.remove p).waitingAt route = v.waitingAt route := rfl

@[grind =] theorem remove_pairAt (q : UInt64) :
    (v.remove p).pairAt q = if q = p then none else v.pairAt q :=
  update_apply ..

@[grind =] theorem remove_roomAt (key : RoomKey) :
    (v.remove p).roomAt key = if v.roomAt key = some p then none else v.roomAt key :=
  rfl

/-- A pair without players goes. -/
theorem Consistent.remove (h : Consistent plan v)
    (empty : ∀ pair, v.pairAt p = some pair → pair.Vacant) : Consistent plan (v.remove p) where
  sessionIds := by
    have sessionIds := h.sessionIds
    grind
  pairIds := by
    have pairIds := h.pairIds
    grind
  seated := by grind [h.seated]
  apart := by grind [h.apart]
  named := by grind [h.named]
  waits := by grind [h.waits]
  alone := by grind [h.alone]
  own := by grind [h.own]
  rooms key q := by
    have rooms := h.rooms key
    grind
  ends := by grind [h.ends]
  planned := by grind [h.planned]

/-- A pair with one player goes, and the player has no pair then. -/
theorem Consistent.dissolve (h : Consistent plan v) {peer : UInt64}
    (stored : v.pairAt p = some pair) (seat : pair.Seats peer)
    (only : ∀ id, pair.Seats id → id = peer) (paired : v.link peer ≠ some none) :
    Consistent plan { v.remove p with link := update v.link peer (some none) } where
  sessionIds := by
    have sessionIds := h.sessionIds
    have seated := h.seated
    grind
  pairIds := by
    have pairIds := h.pairIds
    grind
  seated := by
    have seated := h.seated
    grind
  apart := by grind [h.apart]
  named := by grind [h.named, h.seated]
  waits := by grind [h.waits, h.seated, h.named]
  alone := by
    have alone := h.alone
    have own := h.own
    have seated := h.seated
    grind
  own := by grind [h.own, h.seated]
  rooms key q := by
    have rooms := h.rooms key
    grind
  ends := by grind [h.ends]
  planned := by grind [h.planned]

/-- A session has seats in one pair only. -/
theorem Consistent.seat_unique (h : Consistent plan v) {q : UInt64}
    (stored : v.pairAt p = some pair) (stored' : v.pairAt q = some pair') (seat : pair.Seats id)
    (seat' : pair'.Seats id) : p = q := by
  rcases h.seated p pair stored id seat with names | ⟨free, own⟩
  · rcases h.seated q pair' stored' id seat' with names' | ⟨free, own⟩
    · rw [names] at names'
      simpa using names'
    · rw [names] at free
      cases free
  · rcases h.seated q pair' stored' id seat' with names' | ⟨-, own'⟩
    · rw [free] at names'
      cases names'
    · rw [← own, ← own']

/-! ## Rooms without players -/

section Bounded

variable {v' : Seating}

theorem Bounded.sublist (h : v.Bounded plan)
    (less : ∀ q x, v'.pairAt q = some x → v.pairAt q = some x) : v'.Bounded plan := by
  refine h.subset fun route q kept => ?_
  obtain ⟨x, stored, named, vacant⟩ := kept
  exact ⟨x, less q x stored, named, vacant⟩

/-- A record that is written, where it is without players only if it was so before. -/
theorem Bounded.write (h : v.Bounded plan) {x : WebSocketHubPair}
    (pairs : v'.pairAt = update v.pairAt p (some x))
    (before : x.Vacant → v.Retains x.route p) : v'.Bounded plan := by
  refine h.subset fun route q kept => ?_
  obtain ⟨y, stored, named, vacant⟩ := kept
  rw [pairs] at stored
  by_cases same : q = p
  · subst same
    rw [update_self] at stored
    cases stored
    exact named ▸ before vacant
  · rw [update_of_ne same] at stored
    exact ⟨y, stored, named, vacant⟩

end Bounded

end Seating

end Terlan.WebSocket
