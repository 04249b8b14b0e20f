/-
  The pairing of a hub over its runs. `view` reads the seating off the maps of a hub. Every
  critical section changes it in one of the ways of `Seating`, so that every run keeps the
  sessions, pairs, waiting entries and rooms together and the rooms without players bounded.

  * `paired_of_run`: the invariant in every reachable state.
  * `pairing_invariant`: what it says about sessions, waiting entries, rooms and retained rooms,
    and what a join or a completion that fails leaves behind.
-/
import Terlan.WebSocket.Seating

namespace Terlan.WebSocket

open Terlan.Lib WebSocketHubSession List Function
open Std (ExtTreeMap)
open Function (update)

namespace WebSocketHubState

def view (state : WebSocketHubState) : Seating where
  lastId := state.nextId.toNat
  link id := state.sessions[id]?.map pair
  pairAt p := state.pairs[p]?
  waitingAt route := state.waiting[route]?
  roomAt key := state.rooms[key]?

structure Paired (plan : String → WebSocketPairing) (state : WebSocketHubState) : Prop where
  consistent : state.view.Consistent plan
  bounded : state.view.Bounded plan

variable {plan : String → WebSocketPairing} {state : WebSocketHubState}

/-! ## Updates of the view -/

theorem lookup_insert {κ ν : Type} [Ord κ] [Std.TransOrd κ] [Std.LawfulEqOrd κ] [DecidableEq κ]
    (m : ExtTreeMap κ ν) (k : κ) (v : ν) :
    (fun a => (m.insert k v)[a]?) = update (fun a => m[a]?) k (some v) := by
  funext a
  rw [getElem?_insert_eq, update_apply]
  exact ite_congr (propext eq_comm) (fun _ => rfl) fun _ => rfl

theorem lookup_erase {κ ν : Type} [Ord κ] [Std.TransOrd κ] [Std.LawfulEqOrd κ] [DecidableEq κ]
    (m : ExtTreeMap κ ν) (k : κ) : (fun a => (m.erase k)[a]?) = update (fun a => m[a]?) k none := by
  funext a
  rw [getElem?_erase_eq, update_apply]
  exact ite_congr (propext eq_comm) (fun _ => rfl) fun _ => rfl

theorem link_insert (m : ExtTreeMap UInt64 WebSocketHubSession) (k : UInt64)
    (session : WebSocketHubSession) : (fun id => (m.insert k session)[id]?.map pair) =
      update (fun id => m[id]?.map pair) k (some session.pair) := by
  funext a
  rw [getElem?_insert_eq, update_apply]
  by_cases same : k = a
  · rw [if_pos same, if_pos same.symm]; rfl
  · rw [if_neg same, if_neg (Ne.symm same)]

theorem link_erase (m : ExtTreeMap UInt64 WebSocketHubSession) (k : UInt64) :
    (fun id => (m.erase k)[id]?.map pair) = update (fun id => m[id]?.map pair) k none := by
  funext a
  rw [getElem?_erase_eq, update_apply]
  by_cases same : k = a
  · rw [if_pos same, if_pos same.symm]; rfl
  · rw [if_neg same, if_neg (Ne.symm same)]

variable {id : UInt64} {session : WebSocketHubSession}

theorem view_link
    (registered : state.sessions[id]? = some session) : state.view.link id = some session.pair := by
  change state.sessions[id]?.map pair = _
  rw [registered]
  rfl

/-- What a session sends and receives does not change the view. -/
theorem view_setOutbound
    (registered : state.sessions[id]? = some session) (outbound : SyncChannel) :
    (state.setOutbound id session outbound).view = state.view := by
  refine Seating.ext rfl ?_ rfl rfl rfl
  change (fun k => (state.sessions.insert id { session with outbound })[k]?.map
    pair) = state.view.link
  rw [link_insert, ← view_link registered]
  exact update_eq_self id state.view.link

theorem view_admitWaiting (id : UInt64) (route requestTarget : String)
    (pairing : WebSocketPairing) (outbound : SyncChannel) :
    (admitWaiting state id route requestTarget pairing outbound).view = { state.view with
      link := update state.view.link id (some none)
      waitingAt := update state.view.waitingAt route (some id)
      pairAt := update state.view.pairAt id (some (.waitingFor id route requestTarget)) } :=
  Seating.ext rfl (link_insert ..) (lookup_insert ..) (lookup_insert ..) rfl

theorem view_admitMatched (waitingId id : UInt64) (first : WebSocketHubSession)
    (route firstRequest requestTarget : String) (pairing : WebSocketPairing)
    (outbound : SyncChannel) :
    (admitMatched state waitingId id first route firstRequest requestTarget pairing
      outbound).view = { state.view with
        link := update (update state.view.link id (some (some waitingId))) waitingId
          (some (some waitingId))
        waitingAt := update state.view.waitingAt route none
        pairAt := update state.view.pairAt waitingId
          (some (.matched waitingId id route firstRequest requestTarget pairing)) } := by
  refine Seating.ext rfl ?_ (lookup_insert ..) (lookup_erase ..) rfl
  change (fun k => ((state.sessions.insert id _).insert waitingId _)[k]?.map
    pair) = _
  rw [link_insert, link_insert]
  rfl

theorem view_admitRoom (p : UInt64) (pair : WebSocketHubPair) (roomId : String) :
    (admitRoom state p pair roomId).view = { state.view with
      pairAt := update state.view.pairAt p (some { pair with roomId := some roomId, revision := 1 })
      roomAt := update state.view.roomAt ⟨pair.route, roomId⟩ (some p) } :=
  Seating.ext rfl rfl (lookup_insert ..) rfl (lookup_insert ..)

theorem view_insertPair (p : UInt64) (pair : WebSocketHubPair) :
    view { state with pairs := state.pairs.insert p pair } =
      { state.view with pairAt := update state.view.pairAt p (some pair) } :=
  Seating.ext rfl rfl (lookup_insert ..) rfl rfl

/-! ## Rooms that end -/

theorem removePair_kept (state : WebSocketHubState) (p : UInt64) :
    (state.removePair p).nextId = state.nextId ∧ (state.removePair p).waiting = state.waiting ∧
      (state.removePair p).sessions = state.sessions := by
  unfold removePair
  split
  · exact ⟨rfl, rfl, rfl⟩
  · split
    · exact ⟨rfl, rfl, rfl⟩
    · exact ⟨rfl, rfl, rfl⟩

theorem removePair_pairs (state : WebSocketHubState) (p q : UInt64) :
    (state.removePair p).pairs[q]? = if q = p then none else state.pairs[q]? := by
  have erased : (state.pairs.erase p)[q]? = if q = p then none else state.pairs[q]? :=
    (congrFun (lookup_erase state.pairs p) q).trans (update_apply ..)
  unfold removePair
  split
  next absent =>
    split
    next same => rw [same, absent]
    next => rfl
  next pair found =>
    rw [← erased]
    split
    · rfl
    · rfl

/-- The room of the pair is the only one that ends. -/
theorem removePair_rooms (h : state.view.Consistent plan) (p : UInt64) (key : RoomKey) :
    (state.removePair p).rooms[key]? =
      if state.rooms[key]? = some p then none else state.rooms[key]? := by
  have rooms : state.rooms[key]? = some p ↔
      ∃ pair : WebSocketHubPair, state.pairs[p]? = some pair ∧ pair.HasKey key := h.rooms key p
  unfold removePair
  split
  next absent =>
    rw [if_neg]
    rw [rooms, absent]
    simp
  next pair found =>
    rw [found] at rooms
    split
    next roomless =>
      rw [if_neg]
      rw [rooms]
      rintro ⟨_, ⟨⟩, -, room⟩
      rw [roomless] at room
      cases room
    next roomId room =>
      rw [getElem?_erase_eq]
      refine ite_congr (propext ?_) (fun _ => rfl) fun _ => rfl
      rw [rooms]
      constructor
      · rintro rfl
        exact ⟨pair, rfl, rfl, room⟩
      · rintro ⟨_, ⟨⟩, route, named⟩
        rw [room] at named
        cases named
        cases key
        cases route
        rfl

theorem view_removePair (h : state.view.Consistent plan) (p : UInt64) :
    (state.removePair p).view = state.view.remove p := by
  obtain ⟨nextId, waiting, sessions⟩ := removePair_kept state p
  refine Seating.ext ?_ ?_ ?_ ?_ ?_
  · change (state.removePair p).nextId.toNat = state.nextId.toNat
    rw [nextId]
  · change (fun id => (state.removePair p).sessions[id]?.map pair) = _
    rw [sessions]
    rfl
  · funext q
    rw [Seating.remove_pairAt]
    exact removePair_pairs state p q
  · change (fun route => (state.removePair p).waiting[route]?) = _
    rw [waiting]
    rfl
  · funext key
    rw [Seating.remove_roomAt]
    exact removePair_rooms h p key

variable {pair : WebSocketHubPair}

theorem removeAll_pairs_some (state : WebSocketHubState) (ids : List UInt64) {q : UInt64} :
    (ids.foldl removePair state).pairs[q]? = some pair ↔ q ∉ ids ∧ state.pairs[q]? = some pair := by
  induction ids generalizing state with
  | nil => simp
  | cons p ids ih =>
    rw [foldl_cons, ih, removePair_pairs, Option.ite_none_left_eq_some, mem_cons,
      not_or, ← and_assoc, and_comm (a := q ∉ ids)]

theorem view_removeAll_pairAt (ids : List UInt64) {q : UInt64}
    (stored : (ids.foldl removePair state).view.pairAt q = some pair) :
    state.view.pairAt q = some pair :=
  ((removeAll_pairs_some state ids).mp stored).2

/-- Rooms without players may end, whichever they are. -/
theorem consistent_removeAll (h : state.view.Consistent plan) {ids : List UInt64}
    (vacant : ∀ p ∈ ids, ∀ pair : WebSocketHubPair, state.pairs[p]? = some pair → pair.Vacant) :
    (ids.foldl removePair state).view.Consistent plan := by
  induction ids generalizing state with
  | nil => exact h
  | cons p ids ih =>
    have removed := h.remove (p := p) (vacant p mem_cons_self)
    rw [← view_removePair h] at removed
    refine ih removed fun q mem pair stored => ?_
    exact vacant q (mem_cons_of_mem _ mem) pair (view_removeAll_pairAt [p] stored)

variable {p : UInt64}

theorem mem_expired {now : Instant} :
    p ∈ state.expired now ↔ ∃ pair : WebSocketHubPair, state.pairs[p]? = some pair ∧
      ∃ time, pair.expiresAt = some time ∧ time ≤ now := by
  unfold expired
  simp only [mem_filterMap, Prod.exists, ExtTreeMap.mem_toList_iff_getElem?_eq_some,
    Option.map_eq_some_iff, Option.filter_eq_some_iff, decide_eq_true_eq]
  constructor
  · rintro ⟨q, pair, stored, time, ⟨ending, early⟩, rfl⟩
    exact ⟨pair, stored, time, ending, early⟩
  · rintro ⟨pair, stored, time, ending, early⟩
    exact ⟨p, pair, stored, time, ⟨ending, early⟩, rfl⟩

theorem Paired.reapExpiredRooms (h : Paired plan state) (now : Instant) :
    Paired plan (state.reapExpiredRooms now) := by
  refine ⟨consistent_removeAll h.consistent fun p mem pair stored => ?_,
    h.bounded.sublist fun q pair => view_removeAll_pairAt (state.expired now)⟩
  obtain ⟨pair', stored', time, ending, -⟩ := mem_expired.mp mem
  rw [stored] at stored'
  cases stored'
  exact h.consistent.ends p pair stored (by simp [ending])

variable {route : String}

theorem mem_retained {entry : Option Instant × UInt64} :
    entry ∈ state.retained route ↔ ∃ pair : WebSocketHubPair,
      state.pairs[entry.2]? = some pair ∧ pair.route = route ∧ pair.Vacant ∧
        pair.expiresAt = entry.1 := by
  obtain ⟨time, p⟩ := entry
  unfold retained
  simp only [mem_filterMap, Prod.exists, ExtTreeMap.mem_toList_iff_getElem?_eq_some,
    Option.ite_none_right_eq_some, Option.some_inj, Prod.mk.injEq]
  constructor
  · rintro ⟨q, pair, stored, ⟨named, vacant⟩, rfl, rfl⟩
    exact ⟨pair, stored, named, vacant, rfl⟩
  · rintro ⟨pair, stored, named, vacant, rfl⟩
    exact ⟨p, pair, stored, ⟨named, vacant⟩, rfl, rfl⟩

/-- What the route keeps fits into its capacity afterwards. -/
theorem fits_enforceRetainedCapacity (state : WebSocketHubState) (route : String)
    (capacity : Nat) : (state.enforceRetainedCapacity route capacity).view.Fits route capacity := by
  intro ids once kept
  let sorted := (state.retained route).insertionSort RetainedLe
  let excess := sorted.length - capacity
  have left : ids ⊆ (sorted.drop excess).map Prod.snd := by
    intro id mem
    obtain ⟨pair, stored, named, vacant⟩ := kept id mem
    obtain ⟨spared, stored⟩ := (removeAll_pairs_some state _).mp stored
    have listed : (pair.expiresAt, id) ∈ sorted :=
      (mem_insertionSort RetainedLe).mpr
        (mem_retained.mpr ⟨pair, stored, named, vacant, rfl⟩)
    rw [← take_append_drop excess sorted] at listed
    rcases mem_append.mp listed with dropped | left
    · exact absurd (mem_map.mpr ⟨_, dropped, rfl⟩) spared
    · exact mem_map.mpr ⟨_, left, rfl⟩
  have count := (subperm_of_subset once left).length_le
  rw [length_map, length_drop] at count
  omega

variable {capacity : Nat}

theorem mem_excess (mem : p ∈ state.excess route capacity)
    (stored : state.pairs[p]? = some pair) : pair.route = route ∧ pair.Vacant := by
  obtain ⟨entry, taken, rfl⟩ := mem_map.mp mem
  have listed := (mem_insertionSort RetainedLe).mp (mem_of_mem_take taken)
  obtain ⟨pair', stored', named, vacant, -⟩ := mem_retained.mp listed
  rw [stored] at stored'
  cases stored'
  exact ⟨named, vacant⟩

/-- The rooms of one route may be too many before. -/
theorem paired_enforce (h : state.view.Consistent plan)
    (others : ∀ route', route' ≠ route → state.view.Fits route' (roomCapacity plan route'))
    (planned : capacity = roomCapacity plan route) :
    Paired plan (state.enforceRetainedCapacity route capacity) where
  consistent := consistent_removeAll h fun _ mem _ stored => (mem_excess mem stored).2
  bounded route' := by
    by_cases same : route' = route
    · rw [same, ← planned]
      exact fits_enforceRetainedCapacity state route capacity
    · refine (others route' same).subset fun q kept => ?_
      obtain ⟨pair, stored, rest⟩ := kept
      exact ⟨pair, view_removeAll_pairAt (state.excess route capacity) stored, rest⟩

/-! ## Leaving -/

/-- Only a session without a pair waits. -/
theorem unwait_eq {v : Seating} (h : v.Consistent plan) (paired : v.link id ≠ some none) :
    (fun route => (v.waitingAt route).filter (· != id)) = v.waitingAt := by
  funext route
  cases waiting : v.waitingAt route with
  | none => rfl
  | some other =>
    have free := (h.waits route other waiting).1
    have differs : other ≠ id := fun same => paired (same ▸ free)
    simp [differs]

theorem lookup_unwait (waiting : ExtTreeMap String UInt64) (id : UInt64) :
    (fun route : String => (waiting.filter fun _ waitingId => waitingId != id)[route]?) =
      fun route => waiting[route]?.filter (· != id) := by
  funext route
  exact ExtTreeMap.getElem?_filter' ..

theorem view_unpair (registered : state.view.link id ≠ none) :
    (state.unpair id).view = { state.view with link := update state.view.link id (some none) } := by
  unfold unpair
  split
  next absent =>
    refine absurd ?_ registered
    change state.sessions[id]?.map pair = none
    rw [absent]
    rfl
  next session found => exact Seating.ext rfl (link_insert ..) rfl rfl rfl

/-- The hub after a session left and another record took the place of its pair. -/
abbrev withoutPlayer (state : WebSocketHubState) (id p : UInt64) (pair : WebSocketHubPair) :
    WebSocketHubState :=
  { state with sessions := state.sessions.erase id, pairs := state.pairs.insert p pair }

theorem view_withoutPlayer (state : WebSocketHubState) (id p : UInt64) (pair : WebSocketHubPair) :
    (state.withoutPlayer id p pair).view = { state.view with
      link := update state.view.link id none
      pairAt := update state.view.pairAt p (some pair) } :=
  Seating.ext rfl (link_erase ..) (lookup_insert ..) rfl rfl

section settle

variable {id p : UInt64} {pair pair' : WebSocketHubPair}

theorem consistent_withoutPlayer (h : state.view.Consistent plan)
    (names : state.view.link id = some (some p)) (stored : state.pairs[p]? = some pair)
    (vacated : pair.Vacated id pair') : (state.withoutPlayer id p pair').view.Consistent plan := by
  rw [view_withoutPlayer]
  exact h.vacate names stored vacated

/-- A pair that still has a player, or that is of another route. -/
theorem fits_withoutPlayer (h : state.view.Bounded plan) {route : String}
    (other : pair'.Vacant → pair'.route ≠ route) :
    (state.withoutPlayer id p pair').view.Fits route (roomCapacity plan route) := by
  rw [view_withoutPlayer]
  refine (h route).subset fun q kept => ?_
  obtain ⟨x, stored, named, vacant⟩ := kept
  by_cases same : q = p
  · subst same
    cases (update_self ..).symm.trans stored
    exact absurd named (other vacant)
  · exact ⟨x, (update_of_ne same ..).symm.trans stored, named, vacant⟩

theorem vacated_vacate (h : state.view.Consistent plan) (stored : state.pairs[p]? = some pair) :
    pair.Vacated id (pair.vacate id) := by
  refine ⟨rfl, rfl, rfl, rfl, rfl, rfl, fun kept => ?_⟩
  obtain ⟨first, second⟩ := h.ends p pair stored kept
  exact ⟨by simp [WebSocketHubPair.vacate, first], by simp [WebSocketHubPair.vacate, second]⟩

/-- The last player of a room that is kept leaves. -/
theorem paired_retain (h : Paired plan state) (names : state.view.link id = some (some p))
    (stored : state.pairs[p]? = some pair) (vacant : (pair.vacate id).Vacant)
    (restorable : (pair.vacate id).restorable) (expiresAt : Option Instant) :
    Paired plan ((state.withoutPlayer id p
      { pair.vacate id with expiresAt }).enforceRetainedCapacity pair.route
        pair.retainedRoomCapacity) := by
  have retention : pair.retention ≠ none := by
    intro absent
    simp [WebSocketHubPair.restorable, WebSocketHubPair.vacate, absent] at restorable
  have vacated : pair.Vacated id { pair.vacate id with expiresAt } :=
    ⟨rfl, rfl, rfl, rfl, rfl, rfl, fun _ => vacant⟩
  refine paired_enforce (consistent_withoutPlayer h.consistent names stored vacated) ?_
    (h.consistent.planned p pair stored retention)
  exact fun route other => fits_withoutPlayer h.bounded fun _ => Ne.symm other

/-- The last player of a pair that is not kept leaves. -/
theorem paired_drop (h : Paired plan state) (names : state.view.link id = some (some p))
    (stored : state.pairs[p]? = some pair) (vacant : (pair.vacate id).Vacant) :
    Paired plan ((state.withoutPlayer id p (pair.vacate id)).removePair p) := by
  have left := consistent_withoutPlayer h.consistent names stored
    (vacated_vacate h.consistent stored)
  constructor
  · rw [view_removePair left]
    refine left.remove fun x found => ?_
    rw [view_withoutPlayer] at found
    cases (update_self ..).symm.trans found
    exact vacant
  · refine h.bounded.sublist fun q x found => ?_
    rw [view_removePair left, Seating.remove_pairAt, Option.ite_none_left_eq_some,
      view_withoutPlayer] at found
    exact (update_of_ne found.1 ..).symm.trans found.2

variable {peerId : UInt64}

theorem peer_seats {x : WebSocketHubPair} (peer : x.peer = some peerId) : x.Seats peerId := by
  rcases Option.or_eq_some_iff.mp peer with first | ⟨-, second⟩
  · exact .inl first
  · exact .inr second

/-- The seat that is left belongs to another session, which names the pair. -/
theorem peer_names (h : state.view.Consistent plan) (names : state.view.link id = some (some p))
    (stored : state.pairs[p]? = some pair) (peer : (pair.vacate id).peer = some peerId) :
    peerId ≠ id ∧ pair.Seats peerId ∧ (∀ other, (pair.vacate id).Seats other → other = peerId) ∧
      state.view.link peerId = some (some p) := by
  obtain ⟨pair', found, seat⟩ := h.named id p names
  cases (show state.pairs[p]? = some pair' from found).symm.trans stored
  have apart := h.apart p pair stored id
  have others : peerId ≠ id ∧ pair.Seats peerId ∧
      ∀ other, (pair.vacate id).Seats other → other = peerId := by
    grind [WebSocketHubPair.peer, WebSocketHubPair.vacate]
  refine ⟨others.1, others.2.1, others.2.2, ?_⟩
  rcases h.seated p pair stored peerId others.2.1 with named | ⟨free, same⟩
  · exact named
  subst same
  have waiting := h.alone peerId pair free stored
  obtain ⟨-, x, found, -, first, second, -⟩ := h.waits _ _ waiting
  cases (show state.pairs[peerId]? = some x from found).symm.trans stored
  rcases seat with seat | seat
  · rw [first] at seat
    exact absurd (Option.some_inj.mp seat) others.1
  · rw [second] at seat
    cases seat

/-- A player leaves a pair that is not kept, and the other one has no pair then. -/
theorem paired_dissolve (h : Paired plan state) (names : state.view.link id = some (some p))
    (stored : state.pairs[p]? = some pair) (peer : (pair.vacate id).peer = some peerId) :
    Paired plan (((state.withoutPlayer id p (pair.vacate id)).removePair p).unpair peerId) := by
  have left := consistent_withoutPlayer h.consistent names stored
    (vacated_vacate h.consistent stored)
  obtain ⟨other, seat, only, named⟩ := peer_names h.consistent names stored peer
  have removed := view_removePair left p
  have link : (state.withoutPlayer id p (pair.vacate id)).view.link peerId = some (some p) := by
    rw [view_withoutPlayer]
    exact (update_of_ne other ..).trans named
  have registered :
      ((state.withoutPlayer id p (pair.vacate id)).removePair p).view.link peerId ≠ none := by
    rw [removed, Seating.remove_link, link]
    simp
  constructor
  · rw [view_unpair registered, removed]
    have vacated : (state.withoutPlayer id p (pair.vacate id)).view.pairAt p =
        some (pair.vacate id) := by
      rw [view_withoutPlayer]
      exact update_self ..
    exact left.dissolve vacated (peer_seats peer) only (by rw [link]; simp)
  · refine h.bounded.sublist fun q x found => ?_
    rw [view_unpair registered, removed, Seating.remove_pairAt, Option.ite_none_left_eq_some,
      view_withoutPlayer] at found
    exact (update_of_ne found.1 ..).symm.trans found.2

end settle

section

variable (h : Paired plan state)
include h

/-- A session leaves a pair: the record without it is stored, or goes. -/
theorem paired_settle {id p : UInt64}
    (names : state.view.link id = some (some p)) (stored : state.pairs[p]? = some pair)
    (now : Instant) :
    Paired plan (settle { state with sessions := state.sessions.erase id } p (pair.vacate id)
      now) := by
  unfold settle
  split
  next vacant =>
    split
    next restorable =>
      exact paired_retain h names stored (Option.or_eq_none_iff.mp vacant) restorable _
    next => exact paired_drop h names stored (Option.or_eq_none_iff.mp vacant)
  next peerId peer =>
    split
    next restorable =>
      refine ⟨consistent_withoutPlayer h.consistent names stored
        (vacated_vacate h.consistent stored), fun route => fits_withoutPlayer h.bounded ?_⟩
      intro vacant
      rw [WebSocketHubPair.peer, vacant.1, vacant.2] at peer
      cases peer
    next => exact paired_dissolve h names stored peer

theorem Paired.of_view {state' : WebSocketHubState}
    (same : state'.view = state.view) : Paired plan state' := by
  constructor
  · rw [same]
    exact h.consistent
  · rw [same]
    exact h.bounded

/-- The session of no pair leaves with the record that it may wait in. -/
theorem paired_leaveAlone (free : state.view.link id = some none) :
    Paired plan { state with
      waiting := state.waiting.filter fun _ waitingId => waitingId != id
      sessions := state.sessions.erase id
      pairs := state.pairs.erase id } := by
  have same : view { state with
      waiting := state.waiting.filter fun _ waitingId => waitingId != id
      sessions := state.sessions.erase id
      pairs := state.pairs.erase id } = { state.view with
        link := update state.view.link id none
        waitingAt := fun route => (state.view.waitingAt route).filter (· != id)
        pairAt := update state.view.pairAt id none } :=
    Seating.ext rfl (link_erase ..) (lookup_erase ..) (lookup_unwait ..) rfl
  refine ⟨same ▸ h.consistent.leaveAlone free, h.bounded.sublist fun q x found => ?_⟩
  rw [same] at found
  by_cases own : q = id
  · subst own
    cases (update_self ..).symm.trans found
  · exact (update_of_ne own ..).symm.trans found

/-- Nothing is lost of the waiting entries when another session leaves. -/
theorem paired_unwait (paired : state.view.link id ≠ some none) :
    view { state with waiting := state.waiting.filter fun _ waitingId => waitingId != id } =
      state.view :=
  Seating.ext rfl rfl rfl ((lookup_unwait ..).trans (unwait_eq h.consistent paired)) rfl

theorem paired_leaveAt (id : UInt64) (now : Instant) :
    Paired plan (state.leaveAt id now).1 := by
  unfold leaveAt
  dsimp only
  split
  next absent =>
    refine h.of_view (paired_unwait h ?_)
    change state.sessions[id]?.map pair ≠ some none
    rw [absent]
    simp
  next session registered =>
    have link := view_link registered
    split
    next free => exact paired_leaveAlone h (free ▸ link)
    next p paired =>
      rw [paired] at link
      have notWaiting : state.view.link id ≠ some none := by
        rw [link]
        simp
      have same := paired_unwait h notWaiting
      split
      next absent =>
        obtain ⟨pair, found, -⟩ := h.consistent.named id p link
        cases (show state.pairs[p]? = some pair from found).symm.trans absent
      next pair stored => exact paired_settle (h.of_view same) (same ▸ link) stored now

end

/-! ## Joining -/

/-- A session that is about to be registered. -/
structure Fresh (plan : String → WebSocketPairing) (id : UInt64) (state : WebSocketHubState) :
    Prop where
  paired : Paired plan state
  link : state.view.link id = none
  pairAt : state.view.pairAt id = none
  small : id.toNat ≤ state.view.lastId

theorem call_allocateId (state : WebSocketHubState) :
    (∃ e, allocateId.call state = (state, .error e)) ∨ ∃ id, id.toNat = state.nextId.toNat + 1 ∧
        allocateId.call state = ({ state with nextId := id }, .ok id) := by
  unfold allocateId
  rw [call_get_bind]
  split
  next => exact .inl ⟨_, rfl⟩
  next id next_id =>
    exact .inr ⟨id, checkedAdd_eq_some_iff.mp next_id, rfl⟩

/-- Every session and pair has a smaller identifier. -/
theorem Paired.fresh (h : Paired plan state) (next_id : id.toNat = state.nextId.toNat + 1) :
    Fresh plan id { state with nextId := id } := by
  have larger : ¬ id.toNat ≤ state.view.lastId := by
    rw [next_id]
    exact Nat.not_succ_le_self _
  have ids : state.view.lastId ≤ id.toNat := by
    rw [next_id]
    exact Nat.le_succ _
  refine ⟨⟨{ h.consistent with
    sessionIds := fun k registered => (h.consistent.sessionIds k registered).trans ids
    pairIds := fun p stored => (h.consistent.pairIds p stored).trans ids }, h.bounded⟩, ?_, ?_,
    le_rfl⟩
  · by_contra registered
    exact larger (h.consistent.sessionIds id registered)
  · by_contra stored
    exact larger (h.consistent.pairIds id stored)

theorem call_joinRestored (id : UInt64) (route : String) (capacity : Nat)
    (pairing : WebSocketPairing) (roomId : String) (role : Int) (state : WebSocketHubState) :
    (∃ e, (joinRestored id route capacity pairing roomId role).call state = (state, .error e)) ∨
      ∃ (p : UInt64) (pair : WebSocketHubPair) (lease : WebSocketHubLease),
        state.rooms[(⟨route, roomId⟩ : RoomKey)]? = some p ∧ state.pairs[p]? = some pair ∧
        pair.seatTaken role = false ∧
        (joinRestored id route capacity pairing roomId role).call state = ({ state with
          pairs := state.pairs.insert p (pair.takeSeat role id)
          sessions := state.sessions.insert id
            ⟨syncChannel capacity, some p, role, pairing.peerLeft⟩ }, .ok lease) := by
  unfold joinRestored
  rw [call_get_bind]
  split
  next => exact .inl ⟨_, rfl⟩
  next p listed =>
    split
    next => exact .inl ⟨_, rfl⟩
    next pair stored =>
      split
      · exact .inl ⟨_, rfl⟩
      split
      next => exact .inl ⟨_, rfl⟩
      next free => exact .inr ⟨p, pair, _, listed, stored, by simpa using free, rfl⟩

theorem Fresh.joinRestored (h : Fresh plan id state) (route : String)
    (capacity : Nat) (pairing : WebSocketPairing) (roomId : String) (role : Int) :
    Paired plan ((joinRestored id route capacity pairing roomId role).call state).1 := by
  rcases call_joinRestored id route capacity pairing roomId role state with
    ⟨e, failed⟩ | ⟨p, pair, lease, listed, stored, free, joined⟩
  · rw [failed]
    exact h.paired
  rw [joined]
  obtain ⟨pair', found, -, room⟩ := (h.paired.consistent.rooms ⟨route, roomId⟩ p).mp listed
  cases (show state.pairs[p]? = some pair' from found).symm.trans stored
  have seated := h.paired.consistent.takeSeat found h.link h.pairAt h.small (by simp [room]) free
  have same : view { state with
      pairs := state.pairs.insert p (pair.takeSeat role id)
      sessions := state.sessions.insert id
        ⟨syncChannel capacity, some p, role, pairing.peerLeft⟩ } = { state.view with
      link := update state.view.link id (some (some p))
      pairAt := update state.view.pairAt p (some (pair.takeSeat role id)) } :=
    Seating.ext rfl (link_insert ..) (lookup_insert ..) rfl rfl
  refine ⟨same ▸ seated, h.paired.bounded.write (lookup_insert ..) fun vacant => ?_⟩
  grind [WebSocketHubPair.takeSeat]

theorem call_joinPaired (id : UInt64) (route requestTarget : String) (capacity : Nat)
    (pairing : WebSocketPairing) (state : WebSocketHubState) :
    (∃ e, (joinPaired id route requestTarget capacity pairing).call state = (state, .error e)) ∨
      (state.waiting[route]? = none ∧ ∃ (outbound : SyncChannel) (lease : WebSocketHubLease),
        (joinPaired id route requestTarget capacity pairing).call state =
          (admitWaiting state id route requestTarget pairing outbound, .ok lease)) ∨
      ∃ (waitingId : UInt64) (pair : WebSocketHubPair) (first : WebSocketHubSession)
        (outbound : SyncChannel) (lease : WebSocketHubLease),
        state.waiting[route]? = some waitingId ∧
        (joinPaired id route requestTarget capacity pairing).call state =
          (admitMatched state waitingId id first route pair.firstRequest requestTarget pairing
            outbound, .ok lease) := by
  unfold joinPaired
  rw [call_get_bind]
  split
  next nobody =>
    rw [call_check_bind]
    split
    next outbound sent => exact .inr (.inl ⟨nobody, outbound, _, rfl⟩)
    next => exact .inl ⟨_, rfl⟩
  next waitingId waiting =>
    split
    next => exact .inl ⟨_, rfl⟩
    next pair stored =>
      split
      next => exact .inl ⟨_, rfl⟩
      next first registered =>
        rw [call_check_bind]
        split
        next sent => exact .inr (.inr ⟨waitingId, pair, _, _, _, waiting, rfl⟩)
        next => exact .inl ⟨_, rfl⟩

theorem Fresh.joinPaired (h : Fresh plan id state) (route requestTarget : String) (capacity : Nat) :
    Paired plan ((joinPaired id route requestTarget capacity (plan route)).call state).1 := by
  rcases call_joinPaired id route requestTarget capacity (plan route) state with
    ⟨e, failed⟩ | ⟨nobody, outbound, lease, joined⟩ |
      ⟨waitingId, pair, first, outbound, lease, waiting, joined⟩
  · rw [failed]
    exact h.paired
  · rw [joined]
    constructor
    · rw [view_admitWaiting]
      exact h.paired.consistent.admitWaiting h.link h.pairAt h.small nobody
    · exact h.paired.bounded.write (lookup_insert ..) fun vacant => by cases vacant.1
  · rw [joined]
    constructor
    · rw [view_admitMatched]
      exact h.paired.consistent.admitMatched h.link h.pairAt h.small waiting
    · exact h.paired.bounded.write (lookup_insert ..) fun vacant => by cases vacant.1

/-- A join checks its arguments, ends the expired rooms, takes an identifier and admits. -/
theorem call_joinAt (route requestTarget : String) (capacity : Nat) (pairing : WebSocketPairing)
    (identity : Option (String × Int)) (now : Instant) (state : WebSocketHubState) :
    (∃ e, (joinAt route requestTarget capacity pairing identity now).call state =
        (state, .error e)) ∨
      (∃ e, (joinAt route requestTarget capacity pairing identity now).call state =
        (state.reapExpiredRooms now, .error e)) ∨
      ∃ id : UInt64, id.toNat = (state.reapExpiredRooms now).nextId.toNat + 1 ∧
        (joinAt route requestTarget capacity pairing identity now).call state =
          Method.call (match identity with
            | some (roomId, role) => joinRestored id route capacity pairing roomId role
            | none => joinPaired id route requestTarget capacity pairing)
            { state.reapExpiredRooms now with nextId := id } := by
  unfold joinAt
  rw [call_check_bind]
  split
  next =>
    rw [call_check_bind]
    split
    next =>
      rw [call_modify_bind, call_bind]
      rcases call_allocateId (state.reapExpiredRooms now) with ⟨e, full⟩ | ⟨id, next_id, taken⟩
      · rw [full]
        exact .inr (.inl ⟨e, rfl⟩)
      · rw [taken]
        exact .inr (.inr ⟨id, next_id, rfl⟩)
    next => exact .inl ⟨_, rfl⟩
  next => exact .inl ⟨_, rfl⟩

theorem Paired.joinAt (h : Paired plan state) (route requestTarget : String) (capacity : Nat)
    (identity : Option (String × Int)) (now : Instant) : Paired plan
      ((joinAt route requestTarget capacity (plan route) identity now).call state).1 := by
  have reaped := h.reapExpiredRooms now
  rcases call_joinAt route requestTarget capacity (plan route) identity now state with
    ⟨e, failed⟩ | ⟨e, failed⟩ | ⟨id, next_id, joins⟩
  · rw [failed]
    exact h
  · rw [failed]
    exact reaped
  rw [joins]
  have fresh := reaped.fresh next_id
  cases identity with
  | none => exact fresh.joinPaired route requestTarget capacity
  | some seat => exact fresh.joinRestored route capacity (plan route) seat.1 seat.2

/-! ## Sending -/

theorem call_sendTo (recipient : Option UInt64) (payload : String) (state : WebSocketHubState) :
    ((sendTo recipient payload).call state).1.view = state.view ∧
      ∀ e, ((sendTo recipient payload).call state).2 = .error e →
        ∃ f : TrySendError, e = f.text := by
  unfold sendTo
  rw [call_get_bind]
  split
  next => exact ⟨rfl, fun _ failed => by cases failed⟩
  next id =>
    split
    next => exact ⟨rfl, fun _ failed => by cases failed⟩
    next session registered =>
      rw [call_check_bind]
      split
      next outbound sent =>
        exact ⟨view_setOutbound registered outbound, fun _ failed => by cases failed⟩
      next e failed =>
        refine ⟨rfl, fun _ same => ?_⟩
        cases same
        unfold sendHubPayload at failed
        cases sent : session.outbound.trySend payload with
        | error f =>
          rw [sent] at failed
          cases failed
          exact ⟨f, rfl⟩
        | ok outbound =>
          rw [sent] at failed
          cases failed

theorem keeps_sendTo (recipient : Option UInt64) (payload : String) :
    Lib.Keeps (Paired plan) (sendTo recipient payload) :=
  fun state h => h.of_view (call_sendTo recipient payload state).1

/-! ## Completions -/

theorem call_completeRestoration (id revision : UInt64) (payload : String)
    (state : WebSocketHubState) :
    (∃ e, (completeRestoration id revision payload).call state = (state, .error e)) ∨
      ((completeRestoration id revision payload).call state).1.view = state.view ∧
        ((completeRestoration id revision payload).call state).2 = .ok () := by
  unfold completeRestoration
  rw [call_get_bind]
  split
  next => exact .inl ⟨_, rfl⟩
  next session registered =>
    split
    · exact .inl ⟨_, rfl⟩
    split
    · exact .inl ⟨_, rfl⟩
    rw [call_check_bind]
    split
    next outbound sent => exact .inr ⟨view_setOutbound registered outbound, rfl⟩
    next => exact .inl ⟨_, rfl⟩

theorem keeps_completeRestoration (id revision : UInt64) (payload : String) :
    Lib.Keeps (Paired plan) (completeRestoration id revision payload) := by
  intro state h
  rcases call_completeRestoration id revision payload state with ⟨e, failed⟩ | ⟨same, -⟩
  · rw [failed]
    exact h
  · exact h.of_view same

/-- What a match completion has checked when it changes the hub. -/
theorem checkMatch_ok {roomId : String} (checked : state.checkMatch p roomId = .ok pair) :
    state.pairs[p]? = some pair ∧ state.rooms[(⟨pair.route, roomId⟩ : RoomKey)]? = none ∧
      pair.roomId = none ∧ pair.second ≠ none := by
  unfold checkMatch at checked
  split at checked
  next => cases checked
  next stored =>
    split at checked
    next => cases checked
    next key =>
      split at checked
      next => cases checked
      next seats =>
        split at checked
        · cases checked
        cases checked
        simp only [not_or, not_not] at key seats
        refine ⟨stored, ?_, key.2.2, seats.2⟩
        exact ExtTreeMap.getElem?_eq_none key.2.1

theorem Paired.admitRoom (h : Paired plan state) {roomId : String}
    (checked : state.checkMatch p roomId = .ok pair) :
    Paired plan (state.admitRoom p pair roomId) := by
  obtain ⟨stored, new, roomless, second⟩ := checkMatch_ok checked
  constructor
  · rw [view_admitRoom]
    exact h.consistent.admitRoom stored new roomless second
  · exact h.bounded.write (lookup_insert ..) fun vacant => absurd vacant.2 second

theorem keeps_completeMatch (p : UInt64) (roomId first second : String) :
    Lib.Keeps (Paired plan) (completeMatch p roomId first second) := by
  intro state h
  unfold completeMatch
  rw [call_get_bind, call_check_bind]
  split
  next pair checked =>
    rw [call_modify_bind]
    exact keeps_bind (keeps_sendTo pair.first first) (fun _ => keeps_sendTo pair.second second) _
      (h.admitRoom checked)
  next => exact h

/-- A match completion that fails before its sends changes nothing. -/
theorem completeMatch_error {roomId first second : String} {e : ServiceError}
    (failed : ((completeMatch p roomId first second).call state).2 = .error e) :
    ((completeMatch p roomId first second).call state).1 = state ∨
      ∃ f : TrySendError, e = f.text := by
  unfold completeMatch at failed ⊢
  rw [call_get_bind, call_check_bind] at failed ⊢
  split
  next pair checked =>
    rw [checked] at failed
    dsimp only at failed
    rw [call_modify_bind, call_bind] at failed
    have toFirst := (call_sendTo pair.first first (state.admitRoom p pair roomId)).2
    split at failed
    next => exact .inr ((call_sendTo pair.second second _).2 e failed)
    next refused =>
      cases failed
      rw [refused] at toFirst
      exact .inr (toFirst e rfl)
  next => exact .inl rfl

/-! ## Room transitions -/

theorem Paired.publish (h : Paired plan state) {pair pair' : WebSocketHubPair}
    (stored : state.pairs[p]? = some pair) (alike : pair.Alike pair') :
    Paired plan { state with pairs := state.pairs.insert p pair' } := by
  constructor
  · rw [view_insertPair]
    exact h.consistent.replace stored alike
  · refine h.bounded.write (lookup_insert ..) fun vacant => ⟨pair, stored, alike.route.symm, ?_⟩
    exact ⟨alike.first.symm.trans vacant.1, alike.second.symm.trans vacant.2⟩

theorem current_ok {pair : Option WebSocketHubPair}
    (found : state.current id = .ok (session, pair)) :
    ∀ p x, session.pair = some p → pair = some x → state.pairs[p]? = some x := by
  intro p x named stored
  unfold current at found
  split at found
  · cases found
  split at found
  next =>
    cases found
    cases stored
  next q same =>
    split at found
    · cases found
    cases found
    rw [same] at named
    cases named
    cases stored
    assumption

theorem keeps_publishTransition (ticket : TransitionTicket) (next : String)
    (first second : Option String) :
    Lib.Keeps (Paired plan) (publishTransition ticket next first second) := by
  have sends (recipient : Option UInt64) (payload : Option String) :
      Lib.Keeps (Paired plan) (payload.forM (sendTo recipient)) := by
    cases payload with
    | none => exact keeps_pure ()
    | some payload => exact keeps_sendTo recipient payload
  intro state h
  unfold publishTransition
  rw [call_get_bind, call_check_bind]
  split
  next found current =>
    obtain ⟨session, pair⟩ := found
    dsimp only
    split
    next => exact h
    next same =>
      simp only [not_or, not_not] at same
      split
      next p x named =>
        rw [call_modify_bind]
        refine keeps_bind (sends x.first first) (fun _ => sends x.second second) _ ?_
        have stored := current_ok current p x (same.1.trans named) rfl
        exact h.publish stored ⟨rfl, rfl, rfl, rfl, rfl, rfl, rfl⟩
      next => exact sends _ first state h
  next => exact h

/-! ## Runs -/

theorem paired_receive (h : Paired plan state) (id : UInt64) : Paired plan (state.receive id).1 := by
  unfold receive
  split
  next => exact h
  next session registered => exact h.of_view (view_setOutbound registered _)

theorem paired_disconnect (h : Paired plan state) (id : UInt64) :
    Paired plan (state.disconnect id) := by
  unfold disconnect
  split
  next => exact h
  next session registered => exact h.of_view (view_setOutbound registered _)

theorem paired_hubCall (request : HubRequest) (h : Paired plan state) :
    Paired plan (hubCall plan state request).1 := by
  unfold hubCall
  cases request with
  | joinAt route requestTarget capacity identity now =>
    exact leads_map (P := Paired plan) (Q := Paired plan)
      (fun _ h => Paired.joinAt h route requestTarget capacity identity now) state h
  | completeRestoration id revision payload =>
    exact leads_map (keeps_completeRestoration id revision payload) state h
  | completeMatch p roomId first second =>
    exact leads_map (keeps_completeMatch p roomId first second) state h
  | leaveAt id now => exact paired_leaveAt h id now
  | notifyPeer id payload => exact leads_map (keeps_sendTo (some id) payload) state h
  | snapshotTransition id p =>
    unfold HubRequest.perform
    rw [call_get_bind, call_check_bind]
    split
    next => exact h
    next => exact h
  | publishTransition ticket next first second =>
    exact leads_map (keeps_publishTransition ticket next first second) state h
  | receive id => exact paired_receive h id
  | disconnect id => exact paired_disconnect h id

theorem view_empty : view {} = Seating.initial := by
  refine Seating.ext rfl ?_ ?_ ?_ ?_
  · funext id
    change (∅ : ExtTreeMap UInt64 WebSocketHubSession)[id]?.map pair = none
    rw [ExtTreeMap.getElem?_empty]
    rfl
  · funext p
    exact ExtTreeMap.getElem?_empty
  · funext route
    exact ExtTreeMap.getElem?_empty
  · funext key
    exact ExtTreeMap.getElem?_empty

theorem paired_empty (plan : String → WebSocketPairing) : Paired plan {} :=
  ⟨view_empty ▸ Seating.consistent_initial plan, view_empty ▸ Seating.bounded_initial plan⟩

/-- Every run keeps the pairing. -/
theorem paired_of_run (plan : String → WebSocketPairing) (requests : List HubRequest) :
    Paired plan (replay (hubCall plan) {} requests).1 :=
  replay_state (hubCall plan) (Paired plan) (fun _ request h => paired_hubCall request h) {}
    requests (paired_empty plan)

/-! ## The invariant -/

/-- The session has a seat in the pair. -/
def SeatedIn (state : WebSocketHubState) (id p : UInt64) : Prop :=
  ∃ pair : WebSocketHubPair, state.pairs[p]? = some pair ∧ pair.Seats id

/-- What holds between two critical sections. -/
structure PairingInvariant (plan : String → WebSocketPairing) (state : WebSocketHubState) :
    Prop where
  /-- A session has seats in one pair at most, and one seat there. -/
  onePair : ∀ id p q, state.SeatedIn id p → state.SeatedIn id q → p = q
  oneSeat : ∀ (p : UInt64) (pair : WebSocketHubPair) (id : UInt64), state.pairs[p]? = some pair →
    ¬ (pair.first = some id ∧ pair.second = some id)
  /-- Whoever has a seat is registered, and a session that names a pair sits exactly there. -/
  live : ∀ id p, state.SeatedIn id p → id ∈ state.sessions
  named : ∀ (id : UInt64) (session : WebSocketHubSession) (p : UInt64),
    state.sessions[id]? = some session → session.pair = some p →
      ∀ q, state.SeatedIn id q ↔ q = p
  /-- Whoever waits is registered, has no partner and has a record. -/
  waits : ∀ (route : String) (id : UInt64), state.waiting[route]? = some id →
    ∃ (session : WebSocketHubSession) (pair : WebSocketHubPair),
      state.sessions[id]? = some session ∧ session.pair = none ∧ state.pairs[id]? = some pair ∧
        pair.route = route ∧ pair.first = some id ∧ pair.second = none
  /-- The room index lists exactly the pairs with a room, under their own keys. -/
  rooms : ∀ (key : RoomKey) (p : UInt64), state.rooms[key]? = some p ↔
    ∃ pair : WebSocketHubPair, state.pairs[p]? = some pair ∧ pair.HasKey key
  /-- A route keeps no more rooms without players than its pairing allows. -/
  bounded : ∀ route, (state.retained route).length ≤ roomCapacity plan route

theorem registered_of_link {p : Option UInt64} (link : state.view.link id = some p) :
    ∃ session, state.sessions[id]? = some session ∧ session.pair = p :=
  Option.map_eq_some_iff.mp link

theorem Paired.live (h : Paired plan state) {id p : UInt64} (seated : state.SeatedIn id p) :
    id ∈ state.sessions := by
  obtain ⟨pair, stored, seat⟩ := seated
  have registered : ∃ q, state.view.link id = some q := by
    rcases h.consistent.seated p pair stored id seat with named | ⟨free, -⟩
    · exact ⟨_, named⟩
    · exact ⟨_, free⟩
  obtain ⟨q, link⟩ := registered
  obtain ⟨session, found, -⟩ := registered_of_link link
  exact ExtTreeMap.mem_iff_isSome_getElem?.mpr (by simp [found])

theorem Paired.onePair (h : Paired plan state) {id p q : UInt64} (seated : state.SeatedIn id p)
    (seated' : state.SeatedIn id q) : p = q := by
  obtain ⟨pair, stored, seat⟩ := seated
  obtain ⟨pair', stored', seat'⟩ := seated'
  exact h.consistent.seat_unique stored stored' seat seat'

/-- The maps of sessions, pairs, waiting entries and rooms are the same. -/
def SameMaps (state state' : WebSocketHubState) : Prop :=
  state.sessions = state'.sessions ∧ state.pairs = state'.pairs ∧
    state.waiting = state'.waiting ∧ state.rooms = state'.rooms

theorem sameMaps_refl (state : WebSocketHubState) : SameMaps state state := ⟨rfl, rfl, rfl, rfl⟩

/-- A join that fails leaves the hub alone, or as the end of the expired rooms leaves it. -/
theorem joinAt_error {route requestTarget : String} {pairing : WebSocketPairing}
    {identity : Option (String × Int)} {now : Instant} {e : ServiceError}
    (failed : ((joinAt route requestTarget capacity pairing identity now).call state).2 =
      .error e) :
    let after := ((joinAt route requestTarget capacity pairing identity now).call state).1
    after.SameMaps state ∨ after.SameMaps (state.reapExpiredRooms now) := by
  dsimp only
  rcases call_joinAt route requestTarget capacity pairing identity now state with
    ⟨f, refused⟩ | ⟨f, refused⟩ | ⟨id, -, joins⟩
  · rw [refused]
    exact .inl (sameMaps_refl state)
  · rw [refused]
    exact .inr (sameMaps_refl _)
  rw [joins] at failed ⊢
  cases identity with
  | none =>
    rcases call_joinPaired id route requestTarget capacity pairing
        { state.reapExpiredRooms now with nextId := id } with
      ⟨f, refused⟩ | ⟨-, outbound, lease, joined⟩ |
        ⟨waitingId, pair, first, outbound, lease, -, joined⟩
    · dsimp only
      rw [refused]
      exact .inr ⟨rfl, rfl, rfl, rfl⟩
    · dsimp only at failed
      rw [joined] at failed
      cases failed
    · dsimp only at failed
      rw [joined] at failed
      cases failed
  | some seat =>
    rcases call_joinRestored id route capacity pairing seat.1 seat.2
        { state.reapExpiredRooms now with nextId := id } with
      ⟨f, refused⟩ | ⟨p, pair, lease, -, -, -, joined⟩
    · dsimp only
      rw [refused]
      exact .inr ⟨rfl, rfl, rfl, rfl⟩
    · dsimp only at failed
      rw [joined] at failed
      cases failed

theorem length_retained_le
    (h : state.view.Fits route capacity) : (state.retained route).length ≤ capacity := by
  have once : ((state.retained route).map Prod.snd).Nodup := by
    refine pairwise_map.mpr (List.Pairwise.filterMap _ ?_ ExtTreeMap.distinct_keys_toList)
    intro entry entry' differ kept chosen kept' chosen'
    obtain ⟨-, ⟨⟩⟩ := Option.ite_none_right_eq_some.mp chosen
    obtain ⟨-, ⟨⟩⟩ := Option.ite_none_right_eq_some.mp chosen'
    exact fun same => differ (Std.compare_eq_iff_eq.mpr same)
  have count := h _ once fun id mem => by
    obtain ⟨entry, listed, rfl⟩ := mem_map.mp mem
    obtain ⟨pair, stored, named, vacant, -⟩ := mem_retained.mp listed
    exact ⟨pair, stored, named, vacant⟩
  rwa [length_map] at count

theorem Paired.invariant (h : Paired plan state) : PairingInvariant plan state where
  onePair id p q := h.onePair
  oneSeat p pair id stored := h.consistent.apart p pair stored id
  live id p := h.live
  named id session p registered names q := by
    have link := view_link registered
    rw [names] at link
    obtain ⟨pair, stored, seat⟩ := h.consistent.named id p link
    constructor
    · intro seated
      exact h.onePair seated ⟨pair, stored, seat⟩
    · rintro rfl
      exact ⟨pair, stored, seat⟩
  waits route id waiting := by
    obtain ⟨link, pair, stored, named, first, second, -⟩ := h.consistent.waits route id waiting
    obtain ⟨session, registered, free⟩ := registered_of_link link
    exact ⟨session, pair, registered, free, stored, named, first, second⟩
  rooms := h.consistent.rooms
  bounded route := length_retained_le (h.bounded route)

/-- Every run keeps the pairing. A join that fails changes nothing but that expired rooms end, a
failed restoration completion changes nothing, and a failed match completion changes nothing
unless a send failed. -/
theorem pairing_invariant (plan : String → WebSocketPairing) (requests : List HubRequest) :
    let state := (replay (hubCall plan) {} requests).1
    PairingInvariant plan state ∧
      (∀ route requestTarget capacity pairing identity now e,
        ((joinAt route requestTarget capacity pairing identity now).call state).2 = .error e →
          ((joinAt route requestTarget capacity pairing identity now).call state).1.SameMaps state ∨
          ((joinAt route requestTarget capacity pairing identity now).call state).1.SameMaps
            (state.reapExpiredRooms now)) ∧
      (∀ id revision payload e,
        ((completeRestoration id revision payload).call state).2 = .error e →
          ((completeRestoration id revision payload).call state).1 = state) ∧
      ∀ p roomId first second e,
        ((completeMatch p roomId first second).call state).2 = .error e →
          ((completeMatch p roomId first second).call state).1 = state ∨
            ∃ failedSend : TrySendError, e = failedSend.text := by
  intro state
  have paired : Paired plan state := paired_of_run plan requests
  refine ⟨paired.invariant, fun _ _ _ _ _ _ _ failed => joinAt_error failed,
    fun id revision payload e failed => ?_, fun _ _ _ _ _ failed => completeMatch_error failed⟩
  rcases call_completeRestoration id revision payload state with ⟨f, refused⟩ | ⟨-, sent⟩
  · rw [refused]
  · rw [sent] at failed
    cases failed

/-- Rooms are kept for a second, one of a route. -/
def restorablePlan : String → WebSocketPairing :=
  fun _ => ⟨"waiting", "first", "second", "left", some ⟨1000, 1⟩⟩

/-- A failed join ends an expired room. A match completion whose first send finds a full queue
leaves the room it published. -/
theorem failed_admissions_change_rooms :
    (let state := (replay (hubCall restorablePlan) {} [.joinAt "r" "A" 8 none 0,
        .joinAt "r" "B" 8 none 0, .completeMatch 1 "room" "f" "s", .leaveAt 1 0, .leaveAt 2 0]).1
      let after := (joinAt "r" "C" 8 (restorablePlan "r") (some ("missing", 1)) (10 ^ 9)).call state
      after.2 = .error "error[serve.websocket.restore]: room not found" ∧
        ¬ after.1.SameMaps state) ∧
    (let state := (replay (hubCall restorablePlan) {} [.joinAt "r" "A" 1 none 0,
        .joinAt "r" "B" 1 none 0]).1
      let after := (completeMatch 1 "room" "f" "s").call state
      after.2 = .error "error[serve.websocket.backpressure]: outbound session queue is full" ∧
        ¬ after.1.SameMaps state) := by
  refine ⟨⟨by decide +kernel, fun same => ?_⟩, ⟨by decide +kernel, fun same => ?_⟩⟩
  · exact absurd (congrArg ExtTreeMap.toList same.2.2.2) (by decide +kernel)
  · exact absurd (congrArg ExtTreeMap.toList same.2.2.2) (by decide +kernel)

end WebSocketHubState

end Terlan.WebSocket
