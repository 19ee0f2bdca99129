import FileBelt.Collaboration.RoomCache
import FileBelt.Support.Run
import Mathlib.Data.List.Basic

/-!
# Participants of one room share one room object

A session that has looked its room up holds the object that the cache returns until it
leaves.  Only the eviction of an empty room can break this: its guard sees the
registered clients and not the sessions that are about to register.
-/

namespace FileBelt.Collaboration

open Support

variable {loads : RoomKey → Option LockRef}

namespace CollaborationServer

variable {φ : Type} {s s' : CollaborationServer φ} {i j : SessionId} {session session' : Session}
  {phase miss : Phase} {lock : LockRef} {maxParticipants connection : ℕ} {room r : RoomRef}
  {roomOf : Phase → Option RoomRef} {claims : CollaborationGrantClaims}

/-! ## What one step can do -/

/-- The effects of the critical sections on the cache, the rooms and the
sessions. -/
inductive Move (s : CollaborationServer φ) : CollaborationServer φ → Prop
  | connect (claims : CollaborationGrantClaims) :
      Move s { s with sessions := s.sessions ++ [⟨claims, .authenticating⟩] }
  | proceed {i : SessionId} {session : Session} {phase : Phase}
      {loads : RoomKey → Option LockRef} {next : LockRef}
      (hi : s.sessions[i]? = some session)
      (hheld : ∀ room, phase.heldRoom = some room →
        session.phase.heldRoom = some room ∨ s.rooms session.claims.roomKey = some room)
      (hregistered : ∀ room, phase.registeredRoom = some room →
        session.phase.registeredRoom = some room) :
      Move s ({ s with roomLoads := loads, nextLock := next }.suspend i phase)
  | publish {i : SessionId} {session : Session} {lock : LockRef}
      (hi : s.sessions[i]? = some session)
      (hrooms : s.rooms session.claims.roomKey = none) :
      Move s
        ({ s with
            rooms := Function.update s.rooms session.claims.roomKey (some s.live.length)
            live := s.live ++ [LiveRoom.empty φ] }.suspend i
          (.releasing lock (.ok s.live.length)))
  | register {i : SessionId} {session : Session} {room : RoomRef}
      {connection : ℕ} {live : LiveRoom φ} (hi : s.sessions[i]? = some session)
      (hphase : session.phase = .registering room connection)
      (hlive : s.live[room]? = some live)
      (hfresh : session.claims.clientId ∉ live.clients) :
      Move s ((s.updateRoom room fun live =>
          live.join i session.claims.clientId).suspend i (.joined room connection))
  | unregister {i : SessionId} {session : Session} {room : RoomRef}
      {connection : ℕ} {phase : Phase} (hi : s.sessions[i]? = some session)
      (hphase : session.phase = .stopping room connection)
      (hheld : phase.heldRoom = none)
      (hregistered : phase.registeredRoom = none) :
      Move s ((s.updateRoom room fun live =>
          live.leave session.claims.clientId).suspend i phase)
  | evict {i : SessionId} {session : Session} {room : RoomRef} {connection : ℕ}
      (hi : s.sessions[i]? = some session)
      (hcached : s.rooms session.claims.roomKey = some room)
      (hempty : s.roomEmpty room)
      (hunheld : ∀ other ∈ s.sessions, other.phase.heldRoom ≠ some room) :
      Move s
        ({ s with
            rooms := Function.update s.rooms session.claims.roomKey
              none }.suspend i (.leaving room connection))
  | frames {room : RoomRef} {f : LiveRoom φ → LiveRoom φ}
      (hclients : ∀ live, (f live).clients = live.clients)
      (hreceivers : ∀ live j, (live.receivers j).isSome → ((f live).receivers j).isSome) :
      Move s (s.updateRoom room f)
  | close {i : SessionId} {room : RoomRef} : Move s
        ((s.updateRoom room fun live => live.setReceiver i none).suspend i (.closed none))

def evictedRoom (s : CollaborationServer φ) : Event φ → Option RoomRef
  | .act i .evict =>
    match s.sessions[i]? with
    | some ⟨_, .evicting room _⟩ => some room
    | _ => none
  | _ => none

/-- An empty room is evicted only when no session holds it without being
registered in it. -/
def EvictsUnheldRoom (s : CollaborationServer φ) (event : Event φ) : Prop :=
  ∀ room ∈ s.evictedRoom event, s.roomEmpty room →
    ∀ other ∈ s.sessions, other.phase.heldRoom ≠ some room

instance (s : CollaborationServer φ) (event : Event φ) : Decidable (s.EvictsUnheldRoom event) :=
  inferInstanceAs (Decidable (∀ room ∈ s.evictedRoom event, _))

section

variable (hi : s.sessions[i]? = some session)
include hi

/-- A session keeps its room or has none from here on. -/
theorem Move.next {next : LockRef}
    (hheld : phase.heldRoom = none ∨ phase.heldRoom = session.phase.heldRoom)
    (hregistered : phase.registeredRoom = none ∨
      phase.registeredRoom = session.phase.registeredRoom) :
    Move s ({ s with roomLoads := loads, nextLock := next }.suspend i phase) := by
  refine .proceed hi (fun room hroom => ?_) fun room hroom => ?_
  · rcases hheld with hnone | hsame
    · rw [hnone] at hroom
      cases hroom
    · exact .inl (hsame ▸ hroom)
  · rcases hregistered with hnone | hsame
    · rw [hnone] at hroom
      cases hroom
    · exact hsame ▸ hroom

theorem Move.idle {next : LockRef}
    (hheld : phase.heldRoom = none) (hregistered : phase.registeredRoom = none) :
    Move s ({ s with roomLoads := loads, nextLock := next }.suspend i phase) :=
  Move.next hi (.inl hheld) (.inl hregistered)

theorem roomLoadLock_move (key : RoomKey) :
    Move s ((s.roomLoadLock key).2.suspend i (.awaitingLock lock)) := by
  unfold roomLoadLock
  split
  · exact .idle hi rfl rfl
  · exact .idle hi rfl rfl

theorem releaseRoomLoadLock_move
    (hheld : phase.heldRoom = none ∨ phase.heldRoom = session.phase.heldRoom)
    (hregistered : phase.registeredRoom = none) (key : RoomKey) (lock : LockRef) :
    Move s ((s.releaseRoomLoadLock key lock).suspend i phase) := by
  unfold releaseRoomLoadLock
  split
  · exact .next hi hheld (.inl hregistered)
  · exact .next hi hheld (.inl hregistered)

theorem register_move (hphase : session.phase = .registering room connection)
    (h : s.register maxParticipants i session.claims.clientId room connection = some s') :
    Move s s' := by
  unfold register at h
  split at h
  · cases h
  · rename_i live hlive
    split at h
    · cases h
      exact .idle hi rfl rfl
    · rename_i hadmitted
      cases h
      exact .register hi hphase hlive fun hmem => hadmitted (.inr hmem)

theorem unregister_move (hphase : session.phase = .stopping room connection)
    (h : s.unregister i session.claims.clientId room connection = some s') : Move s s' := by
  unfold unregister at h
  split at h
  · cases h
  · split at h
    · cases h
      exact .unregister hi hphase rfl rfl
    · cases h
      exact .unregister hi hphase rfl rfl

theorem receive_move (hphase : session.phase = .joined room connection)
    (h : s.receive i room connection = some s') : Move s s' := by
  unfold receive at h
  split at h
  · cases h
  · split at h
    · cases h
      exact .next hi (.inl rfl) (.inr (by rw [hphase]; rfl))
    · split at h
      · cases h
      · cases h
        refine .frames (fun _ => rfl) ?_
        intro live j hj
        by_cases hji : j = i
        · subst hji
          simp [LiveRoom.setReceiver]
        · simpa [LiveRoom.setReceiver, hji] using hj

theorem publish_move : Move s
      ((s.cacheLoadedRoom session.claims.roomKey (LiveRoom.empty φ)).2.suspend i
        (.releasing lock (.ok (s.cacheLoadedRoom session.claims.roomKey
            (LiveRoom.empty φ)).1))) := by
  unfold cacheLoadedRoom
  split
  · rename_i room hroom
    refine .proceed hi ?_ ?_
    · intro other hother
      cases hother
      exact .inr hroom
    · intro other hother
      cases hother
  · rename_i hroom
    exact .publish hi hroom

theorem evict_move
    (hunheld : s.roomEmpty room → ∀ other ∈ s.sessions, other.phase.heldRoom ≠ some room) :
    Move s ((s.evict session.claims.roomKey room).suspend i (.leaving room connection)) := by
  unfold evict
  split
  · rename_i hevict
    exact .evict hi hevict.1 hevict.2 (hunheld hevict.2)
  · exact .idle hi rfl rfl

theorem cachedRoom_move {hit : RoomRef → Phase}
    (hhit : ∀ room, (hit room).heldRoom = some room ∧ (hit room).registeredRoom = none)
    (hmiss : miss.heldRoom = none ∧ miss.registeredRoom = none)
    (h : (match s.cachedRoom session.claims.roomKey with
      | some room => some (s.suspend i (hit room))
      | none => some (s.suspend i miss)) = some s') : Move s s' := by
  split at h
  · rename_i room hroom
    cases h
    refine .proceed hi ?_ ?_
    · intro other hother
      rw [(hhit room).1] at hother
      rw [← hother]
      exact .inr hroom
    · intro other hother
      rw [(hhit room).2] at hother
      cases hother
  · cases h
    exact .idle hi hmiss.1 hmiss.2

theorem act_move {action : Action φ} (hevict : s.EvictsUnheldRoom (.act i action))
    (h : s.act maxParticipants i session.claims session.phase action = some s') : Move s s' := by
  unfold act at h
  split at h
  · cases h
    exact .idle hi rfl rfl
  · cases h
    exact .idle hi rfl rfl
  · exact cachedRoom_move hi (fun _ => ⟨rfl, rfl⟩) ⟨rfl, rfl⟩ h
  · cases h
    exact roomLoadLock_move hi _
  · split at h
    · cases h
    · cases h
      exact .idle hi rfl rfl
  · exact cachedRoom_move hi (fun _ => ⟨rfl, rfl⟩) ⟨rfl, rfl⟩ h
  · cases h
    exact publish_move hi
  · cases h
    exact .idle hi rfl rfl
  · rename_i hphase
    cases h
    exact releaseRoomLoadLock_move hi (.inr (by rw [hphase]; rfl)) rfl _ _
  · cases h
    exact releaseRoomLoadLock_move hi (.inl rfl) rfl _ _
  · rename_i hphase
    cases h
    exact .next hi (.inr (by rw [hphase]; rfl)) (.inl rfl)
  · cases h
    exact .idle hi rfl rfl
  · rename_i hphase
    exact register_move hi hphase h
  · cases h
    refine .frames (fun _ => rfl) ?_
    intro live j hj
    rw [LiveRoom.send, Option.isSome_map]
    exact hj
  · rename_i hphase
    exact receive_move hi hphase h
  · rename_i hphase
    cases h
    exact .next hi (.inl rfl) (.inr (by rw [hphase]; rfl))
  · rename_i hphase
    exact unregister_move hi hphase h
  · rename_i room connection hphase
    cases h
    refine evict_move hi (hevict room ?_)
    obtain ⟨_, _⟩ := session
    cases hphase
    rw [evictedRoom, hi]
    rfl
  · cases h
    exact .close
  · split at h
    · cases h
      exact .idle hi rfl rfl
    · cases h
  · cases h

end

theorem step_move {event : Event φ} (hevict : s.EvictsUnheldRoom event)
    (h : s.step maxParticipants event = .ok s') : Move s s' := by
  unfold step at h
  split at h
  · cases h
    exact .connect _
  · split at h
    · cases h
    · rename_i session hi
      exact act_move hi hevict (okOr_eq_ok h)

/-! ## Sessions and their rooms -/

/-- Session `i` has a room, as far as `roomOf` can tell from its phase. -/
def HasRoom (roomOf : Phase → Option RoomRef) (s : CollaborationServer φ)
    (i : SessionId) (claims : CollaborationGrantClaims) (room : RoomRef) : Prop :=
  ∃ session, s.sessions[i]? = some session ∧ session.claims = claims ∧
    roomOf session.phase = some room

/-- Session `i` has looked up `room` and is not registered in it yet. -/
abbrev Holds (s : CollaborationServer φ) := s.HasRoom Phase.heldRoom

/-- Session `i` is a participant, registered in `room`. -/
abbrev Registered (s : CollaborationServer φ) := s.HasRoom Phase.registeredRoom

theorem sessions_suspend (s : CollaborationServer φ) (i j : SessionId) (phase : Phase) :
    (s.suspend i phase).sessions[j]? = (s.sessions[j]?).map fun session =>
        if i = j then { session with phase := phase } else session :=
  List.getElem?_modify _ _ _ _

theorem live_updateRoom (s : CollaborationServer φ) (room r : RoomRef)
    (f : LiveRoom φ → LiveRoom φ) : (s.updateRoom room f).live[r]? =
      (s.live[r]?).map fun live => if room = r then f live else live :=
  List.getElem?_modify _ _ _ _

theorem suspend_cases (h : (s.suspend i phase).sessions[j]? = some session') :
    ∃ session, s.sessions[j]? = some session ∧ session'.claims = session.claims ∧
      (j = i ∧ session'.phase = phase ∨ j ≠ i ∧ session' = session) := by
  rw [sessions_suspend] at h
  obtain ⟨session, hsession, rfl⟩ := Option.map_eq_some_iff.mp h
  refine ⟨session, hsession, ?_⟩
  split
  · rename_i hij
    exact ⟨rfl, .inl ⟨hij.symm, rfl⟩⟩
  · rename_i hij
    exact ⟨rfl, .inr ⟨fun hji => hij hji.symm, rfl⟩⟩

theorem hasRoom_suspend (h : (s.suspend i phase).HasRoom roomOf j claims room) :
    (j = i ∧ roomOf phase = some room ∧
        ∃ session, s.sessions[i]? = some session ∧ session.claims = claims) ∨
      j ≠ i ∧ s.HasRoom roomOf j claims room := by
  obtain ⟨session', hsession', hclaims, hroom⟩ := h
  obtain ⟨session, hsession, heq, ⟨rfl, hphase⟩ | ⟨hne, rfl⟩⟩ := suspend_cases hsession'
  · rw [hphase] at hroom
    exact .inl ⟨rfl, hroom, session, hsession, heq.symm.trans hclaims⟩
  · exact .inr ⟨hne, session', hsession, hclaims, hroom⟩

/-- A session that proceeds to a phase without a room leaves the rooms of the
others. -/
theorem hasRoom_suspend_none (hphase : roomOf phase = none)
    (h : (s.suspend i phase).HasRoom roomOf j claims room) :
    j ≠ i ∧ s.HasRoom roomOf j claims room := by
  rcases hasRoom_suspend h with ⟨-, hroom, -⟩ | hother
  · rw [hphase] at hroom
    cases hroom
  · exact hother

theorem hasRoom_connect (hroomOf : roomOf .authenticating = none) {new : CollaborationGrantClaims}
    (h : HasRoom roomOf { s with sessions := s.sessions ++ [⟨new, .authenticating⟩] } j claims
      room) :
    s.HasRoom roomOf j claims room := by
  obtain ⟨session, hsession, hclaims, hroom⟩ := h
  by_cases hj : j < s.sessions.length
  · rw [List.getElem?_append_left hj] at hsession
    exact ⟨session, hsession, hclaims, hroom⟩
  · rw [List.getElem?_append_right (not_lt.mp hj)] at hsession
    have hmem := List.mem_of_getElem? hsession
    rw [List.mem_singleton] at hmem
    rw [hmem, hroomOf] at hroom
    cases hroom

/-! ## The invariant -/

/-- A participant is counted in its room and subscribed to it. -/
def Counted (s : CollaborationServer φ) (i : SessionId)
    (claims : CollaborationGrantClaims) (room : RoomRef) : Prop :=
  ∃ live, s.live[room]? = some live ∧ claims.clientId ∈ live.clients ∧ (live.receivers i).isSome

/-- Every session holds or is registered in the room that the cache has for its key; a
registered one is counted and subscribed, under a client id of its own. -/
structure SharedRooms (s : CollaborationServer φ) : Prop where
  held : ∀ {i claims room}, s.Holds i claims room → s.rooms claims.roomKey = some room
  cached : ∀ {i claims room}, s.Registered i claims room → s.rooms claims.roomKey = some room
  member : ∀ {i claims room}, s.Registered i claims room → s.Counted i claims room
  distinct : ∀ {i j claims claims' room}, s.Registered i claims room →
    s.Registered j claims' room → claims.clientId = claims'.clientId → i = j

theorem sharedRooms_new : SharedRooms (new φ) := by
  have hnone : ∀ {roomOf i claims room}, ¬(new φ).HasRoom roomOf i claims room := by
    rintro roomOf i claims room ⟨session, hsession, -⟩
    cases hsession
  exact ⟨fun h => absurd h hnone, fun h => absurd h hnone, fun h => absurd h hnone,
    fun h => absurd h hnone⟩

theorem rooms_update {key : RoomKey} {new : Option RoomRef}
    (h : s.rooms claims.roomKey = some room) (hkey : s.rooms key ≠ some room) :
    Function.update s.rooms key new claims.roomKey = some room := by
  rw [Function.update_of_ne ?_]
  · exact h
  · rintro rfl
    exact hkey h

theorem counted_updateRoom {f : LiveRoom φ → LiveRoom φ} (h : s.Counted i claims r)
    (hf : room = r → ∀ live, claims.clientId ∈ live.clients →
      (live.receivers i).isSome → claims.clientId ∈ (f live).clients ∧
      ((f live).receivers i).isSome) : (s.updateRoom room f).Counted i claims r := by
  obtain ⟨live, hlive, hclient, hreceiver⟩ := h
  rw [Counted, live_updateRoom, hlive, Option.map_some]
  by_cases hroom : room = r
  · obtain ⟨hclient', hreceiver'⟩ := hf hroom live hclient hreceiver
    rw [if_pos hroom]
    exact ⟨f live, rfl, hclient', hreceiver'⟩
  · rw [if_neg hroom]
    exact ⟨live, rfl, hclient, hreceiver⟩

section

variable (hs : SharedRooms s)
include hs

/-- A step after which the participants are some of those before. -/
theorem SharedRooms.of_sub
    (hheld : ∀ {i claims room}, s'.Holds i claims room → s'.rooms claims.roomKey = some room)
    (hregistered : ∀ {i claims room}, s'.Registered i claims room →
      s.Registered i claims room ∧ s'.rooms claims.roomKey = some room ∧
        s'.Counted i claims room) : SharedRooms s' where
  held := hheld
  cached h := (hregistered h).2.1
  member h := (hregistered h).2.2
  distinct hi hj := hs.distinct (hregistered hi).1 (hregistered hj).1

theorem SharedRooms.connect (claims : CollaborationGrantClaims) :
    SharedRooms { s with sessions := s.sessions ++ [⟨claims, .authenticating⟩] } := by
  refine hs.of_sub (fun h => hs.held (hasRoom_connect rfl h)) fun h => ?_
  have hbefore := hasRoom_connect rfl h
  exact ⟨hbefore, hs.cached hbefore, hs.member hbefore⟩

theorem SharedRooms.proceed {next : LockRef} (hi : s.sessions[i]? = some session)
    (hheld : ∀ room, phase.heldRoom = some room → session.phase.heldRoom = some room ∨
      s.rooms session.claims.roomKey = some room)
    (hregistered : ∀ room, phase.registeredRoom = some room →
      session.phase.registeredRoom = some room) :
    SharedRooms ({ s with roomLoads := loads, nextLock := next }.suspend i phase) := by
  apply hs.of_sub
  · intro j claims room h
    rcases hasRoom_suspend h with ⟨rfl, hroom, other, hother, rfl⟩ | ⟨-, h⟩
    · rw [hi] at hother
      cases hother
      rcases hheld room hroom with hold | hcached
      · exact hs.held ⟨session, hi, rfl, hold⟩
      · exact hcached
    · exact hs.held h
  · intro j claims room h
    have hbefore : s.Registered j claims room := by
      rcases hasRoom_suspend h with ⟨rfl, hroom, _, hother, hclaims⟩ | ⟨-, h⟩
      · rw [hi] at hother
        cases hother
        exact ⟨session, hi, hclaims, hregistered room hroom⟩
      · exact h
    exact ⟨hbefore, hs.cached hbefore, hs.member hbefore⟩

theorem SharedRooms.publish (hi : s.sessions[i]? = some session)
    (hrooms : s.rooms session.claims.roomKey = none) :
    SharedRooms ({ s with
          rooms := Function.update s.rooms session.claims.roomKey (some s.live.length)
          live := s.live ++ [LiveRoom.empty φ] }.suspend i
        (.releasing lock (.ok s.live.length))) := by
  -- nobody holds a room of the key, since the cache had none
  have hnone : ∀ room, s.rooms session.claims.roomKey ≠ some room := by
    rw [hrooms]
    rintro room ⟨⟩
  apply hs.of_sub
  · intro j claims room h
    rcases hasRoom_suspend h with ⟨rfl, hroom, other, hother, rfl⟩ | ⟨-, h⟩
    · have hsame : other = session := Option.some.inj (hother.symm.trans hi)
      rw [hsame]
      exact (Function.update_self _ _ _).trans hroom
    · exact rooms_update (hs.held h) (hnone room)
  · intro j claims room h
    obtain ⟨-, h⟩ := hasRoom_suspend_none rfl h
    obtain ⟨live, hlive, hmember⟩ := hs.member h
    have hlt := (List.getElem?_eq_some_iff.mp hlive).1
    exact ⟨h, rooms_update (hs.cached h) (hnone room), live,
      (List.getElem?_append_left hlt).trans hlive, hmember⟩

theorem SharedRooms.register {live : LiveRoom φ}
    (hi : s.sessions[i]? = some session) (hphase : session.phase = .registering room connection)
    (hlive : s.live[room]? = some live) (hfresh : session.claims.clientId ∉ live.clients) :
    SharedRooms ((s.updateRoom room fun live =>
        live.join i session.claims.clientId).suspend i (.joined room connection)) := by
  have hheld : s.Holds i session.claims room := ⟨session, hi, rfl, by rw [hphase]; rfl⟩
  have hcases : ∀ {j claims r}, ((s.updateRoom room fun live =>
        live.join i session.claims.clientId).suspend i
          (.joined room connection)).Registered j claims r →
      (j = i ∧ r = room ∧ claims = session.claims) ∨ j ≠ i ∧ s.Registered j claims r := by
    intro j claims r h
    rcases hasRoom_suspend h with ⟨rfl, hroom, other, hother, rfl⟩ | h
    · have hsame : other = session := Option.some.inj (hother.symm.trans hi)
      exact .inl ⟨rfl, (Option.some.inj hroom).symm, by rw [hsame]⟩
    · exact .inr h
  -- a participant of the room has another client id than the new one
  have hother : ∀ {j claims}, s.Registered j claims room →
      claims.clientId ≠ session.claims.clientId := by
    intro j claims h heq
    obtain ⟨live', hlive', hclient, -⟩ := hs.member h
    rw [hlive] at hlive'
    cases hlive'
    rw [heq] at hclient
    exact hfresh hclient
  constructor
  · intro j claims r h
    exact hs.held (hasRoom_suspend_none rfl h).2
  · intro j claims r h
    rcases hcases h with ⟨rfl, rfl, rfl⟩ | ⟨-, h⟩
    · exact hs.held hheld
    · exact hs.cached h
  · intro j claims r h
    rcases hcases h with ⟨rfl, rfl, rfl⟩ | ⟨hne, h⟩
    · refine ⟨live.join j session.claims.clientId, ?_, ?_, ?_⟩
      · exact (live_updateRoom _ _ _ _).trans (by simp [hlive])
      · simp [LiveRoom.join]
      · simp [LiveRoom.join, LiveRoom.setReceiver]
    · refine counted_updateRoom (hs.member h) ?_
      intro _ live' hclient hreceiver
      refine ⟨Finset.mem_insert_of_mem hclient, ?_⟩
      simpa [LiveRoom.join, LiveRoom.setReceiver, hne] using hreceiver
  · intro j k claims claims' r hj hk heq
    rcases hcases hj with ⟨rfl, rfl, rfl⟩ | ⟨-, hj'⟩
    · rcases hcases hk with ⟨rfl, -, -⟩ | ⟨-, hk'⟩
      · rfl
      · exact absurd heq.symm (hother hk')
    · rcases hcases hk with ⟨rfl, rfl, rfl⟩ | ⟨-, hk'⟩
      · exact absurd heq (hother hj')
      · exact hs.distinct hj' hk' heq

theorem SharedRooms.unregister (hi : s.sessions[i]? = some session)
    (hphase : session.phase = .stopping room connection)
    (hheld : phase.heldRoom = none) (hregistered : phase.registeredRoom = none) :
    SharedRooms ((s.updateRoom room fun live =>
        live.leave session.claims.clientId).suspend i phase) := by
  have hleft : s.Registered i session.claims room := ⟨session, hi, rfl, by rw [hphase]; rfl⟩
  refine hs.of_sub (fun h => hs.held (hasRoom_suspend_none hheld h).2) fun h => ?_
  obtain ⟨hne, h⟩ := hasRoom_suspend_none hregistered h
  refine ⟨h, hs.cached h, counted_updateRoom (hs.member h) ?_⟩
  rintro rfl live hclient hreceiver
  refine ⟨Finset.mem_erase.mpr ⟨?_, hclient⟩, hreceiver⟩
  intro heq
  exact hne (hs.distinct h hleft heq)

theorem SharedRooms.evict (hcached : s.rooms session.claims.roomKey = some room)
    (hempty : s.roomEmpty room) (hunheld : ∀ other ∈ s.sessions, other.phase.heldRoom ≠ some room) :
    SharedRooms ({ s with
          rooms := Function.update s.rooms session.claims.roomKey none }.suspend
        i (.leaving room connection)) := by
  apply hs.of_sub
  · intro j claims r h
    obtain ⟨-, hheld⟩ := hasRoom_suspend_none rfl h
    refine rooms_update (hs.held hheld) ?_
    rw [hcached]
    rintro ⟨⟩
    obtain ⟨other, hother, -, hroom⟩ := hheld
    exact hunheld other (List.mem_of_getElem? hother) hroom
  · intro j claims r h
    obtain ⟨-, hregistered⟩ := hasRoom_suspend_none rfl h
    have hmember := hs.member hregistered
    refine ⟨hregistered, rooms_update (hs.cached hregistered) ?_, hmember⟩
    rw [hcached]
    rintro ⟨⟩
    obtain ⟨_, hlive, hclient, -⟩ := hmember
    rw [roomEmpty, hlive, Option.any_some, decide_eq_true_eq] at hempty
    rw [hempty] at hclient
    exact absurd hclient (Finset.notMem_empty _)

theorem SharedRooms.frames {f : LiveRoom φ → LiveRoom φ}
    (hclients : ∀ live, (f live).clients = live.clients)
    (hreceivers : ∀ live j, (live.receivers j).isSome → ((f live).receivers j).isSome) :
    SharedRooms (s.updateRoom room f) where
  held := hs.held
  cached := hs.cached
  member h := by
    refine counted_updateRoom (hs.member h) ?_
    intro _ live hclient hreceiver
    rw [hclients]
    exact ⟨hclient, hreceivers live _ hreceiver⟩
  distinct := hs.distinct

theorem SharedRooms.close : SharedRooms
      ((s.updateRoom room fun live => live.setReceiver i none).suspend i (.closed none)) := by
  refine hs.of_sub (fun h => hs.held (hasRoom_suspend_none rfl h).2) fun h => ?_
  obtain ⟨hne, h⟩ := hasRoom_suspend_none rfl h
  refine ⟨h, hs.cached h, counted_updateRoom (hs.member h) ?_⟩
  intro _ live hclient hreceiver
  refine ⟨hclient, ?_⟩
  simpa [LiveRoom.setReceiver, hne] using hreceiver

theorem SharedRooms.move (h : Move s s') : SharedRooms s' := by
  cases h with
  | connect claims => exact hs.connect claims
  | proceed hi hheld hregistered => exact hs.proceed hi hheld hregistered
  | publish hi hrooms => exact hs.publish hi hrooms
  | register hi hphase hlive hfresh => exact hs.register hi hphase hlive hfresh
  | unregister hi hphase hheld hregistered =>
    exact hs.unregister hi hphase hheld hregistered
  | evict hi hcached hempty hunheld => exact hs.evict hcached hempty hunheld
  | frames hclients hreceivers => exact hs.frames hclients hreceivers
  | close => exact hs.close

end

/-! ## Runs -/

def serve (maxParticipants : ℕ) (events : List (Event φ)) : CollaborationServer φ :=
  run (step maxParticipants) (new φ) events

theorem sharedRooms_serve {events : List (Event φ)}
    (hevents : Meets (step maxParticipants) EvictsUnheldRoom (new φ) events) :
    SharedRooms (serve maxParticipants events) := by
  refine run_invariant ?_ sharedRooms_new hevents
  intro s event s' hs hevict hstep
  exact hs.move (step_move hevict hstep)

def receiver (s : CollaborationServer φ) (room : RoomRef) (i : SessionId) : Option (Receiver φ) :=
  s.live[room]?.bind fun live => live.receivers i

theorem push_getLast (receiver : Receiver φ) (frame : φ) :
    (receiver.push frame).pending.getLast? = some frame := by
  unfold Receiver.push
  split
  · exact List.getLast?_concat
  · exact List.getLast?_concat

/-- A frame sent to a room is the newest one of each participant. -/
theorem Counted.send (h : s.Counted i claims room) (frame : φ) : ∃ receiver,
      (s.updateRoom room fun live => live.send frame).receiver room i =
        some receiver ∧ receiver.pending.getLast? = some frame := by
  obtain ⟨_, hlive, -, hreceiver⟩ := h
  obtain ⟨receiver, hreceiver⟩ := Option.isSome_iff_exists.mp hreceiver
  refine ⟨receiver.push frame, ?_, push_getLast receiver frame⟩
  rw [CollaborationServer.receiver, live_updateRoom, hlive]
  simp [LiveRoom.send, hreceiver]

theorem broadcast_eq {frame : φ} (hi : s.Registered i claims room)
    (h : s.step maxParticipants (.act i (.broadcast frame)) = .ok s') :
    s' = s.updateRoom room fun live => live.send frame := by
  obtain ⟨⟨_, phase⟩, hsession, -, hroom⟩ := hi
  simp only [step, hsession] at h
  have hact := okOr_eq_ok h
  cases phase with
  | joined =>
    cases hroom
    exact (Option.some.inj hact).symm
  | stopping => cases hact
  | _ => cases hroom

/-- In every run that evicts no held room, the participants of one room key are
registered in one room object.  It is the object that the cache returns to the
next session, and a frame broadcast by one participant is the newest frame in the
channel of every other. -/
theorem participants_share_room {maxParticipants : ℕ} {events : List (Event φ)}
    (hevents : Meets (step maxParticipants) EvictsUnheldRoom (new φ) events)
    {i j : SessionId} {a b : CollaborationGrantClaims} {room room' : RoomRef}
    (hi : (serve maxParticipants events).Registered i a room)
    (hj : (serve maxParticipants events).Registered j b room')
    (hkey : a.roomKey = b.roomKey) :
    room = room' ∧
      (serve maxParticipants events).cachedRoom a.roomKey = some room ∧
      (serve maxParticipants events).Counted i a room ∧
      (serve maxParticipants events).Counted j b room ∧
      ∀ frame s', (serve maxParticipants events).step maxParticipants
          (.act i (.broadcast frame)) = .ok s' →
        ∃ receiver, s'.receiver room j = some receiver ∧
          receiver.pending.getLast? = some frame := by
  have hs := sharedRooms_serve hevents
  have hcached := hs.cached hi
  have hsame : room = room' := by
    have hcached' := hs.cached hj
    rw [← hkey, hcached] at hcached'
    exact Option.some.inj hcached'
  subst hsame
  refine ⟨rfl, hcached, hs.member hi, hs.member hj, ?_⟩
  intro frame s' hstep
  rw [broadcast_eq hi hstep]
  exact (hs.member hj).send frame

/-- The actions of a session that joins a room which is not in the cache. -/
def coldJoin (i : SessionId) (connection : ℕ) : List (Event ℕ) :=
  [.act i (.authenticate (.ok ())), .act i .cachedRoom, .act i .roomLoadLock,
    .act i .lockLoad, .act i .cachedRoom, .act i (.buildRoom (.ok ())),
    .act i .releaseLoadLock, .act i (.joinParticipant (.ok connection)),
    .act i .register]

def leave (i : SessionId) : List (Event ℕ) :=
  [.act i .stop, .act i .unregister, .act i .evict, .act i .leaveParticipant]

/-- One participant comes and goes, and two join after it. -/
def twoParticipants : List (Event ℕ) :=
  [.connect ⟨1, 1, 10⟩] ++ coldJoin 0 100 ++ leave 0 ++
    [.connect ⟨1, 1, 11⟩, .connect ⟨1, 1, 12⟩] ++ coldJoin 1 101 ++
    [.act 2 (.authenticate (.ok ())), .act 2 .cachedRoom,
      .act 2 (.joinParticipant (.ok 102)), .act 2 .register]

theorem participants_share_room_twoParticipants :
    (serve 8 twoParticipants).Registered 1 ⟨1, 1, 11⟩ 1 ∧
      (serve 8 twoParticipants).Registered 2 ⟨1, 1, 12⟩ 1 ∧
      (serve 8 twoParticipants).cachedRoom ⟨1, 1⟩ = some 1 := by
  have hfirst : (serve 8 twoParticipants).Registered 1 ⟨1, 1, 11⟩ 1 :=
    ⟨⟨⟨1, 1, 11⟩, .joined 1 101⟩, by decide +kernel, rfl, rfl⟩
  have hsecond : (serve 8 twoParticipants).Registered 2 ⟨1, 1, 12⟩ 1 :=
    ⟨⟨⟨1, 1, 12⟩, .joined 1 102⟩, by decide +kernel, rfl, rfl⟩
  have hshared := participants_share_room (by decide +kernel) hfirst hsecond rfl
  exact ⟨hfirst, hsecond, hshared.2.1⟩

/-- The last participant leaves while another session holds the room. -/
def evictedWhileHeld : List (Event ℕ) :=
  [.connect ⟨1, 1, 10⟩, .connect ⟨1, 1, 11⟩, .connect ⟨1, 1, 12⟩] ++ coldJoin 0 100 ++
    [.act 1 (.authenticate (.ok ())), .act 1 .cachedRoom] ++ leave 0 ++
    [.act 1 (.joinParticipant (.ok 101)), .act 1 .register] ++ coldJoin 2 102

/-- Two participants of one key are in two room objects: the first is in one that
the cache no longer has, and its frame does not reach the second. -/
theorem participants_split :
    (serve 8 evictedWhileHeld).Registered 1 ⟨1, 1, 11⟩ 0 ∧
      (serve 8 evictedWhileHeld).Registered 2 ⟨1, 1, 12⟩ 1 ∧
      (serve 8 evictedWhileHeld).cachedRoom ⟨1, 1⟩ = some 1 ∧
      (serve 8 (evictedWhileHeld ++ [.act 1 (.broadcast 7)])).receiver 0 1 =
        some ⟨[7], false⟩ ∧
      (serve 8 (evictedWhileHeld ++ [.act 1 (.broadcast 7)])).receiver 1 2 = some ⟨[], false⟩ := by
  refine ⟨⟨⟨⟨1, 1, 11⟩, .joined 0 101⟩, by decide +kernel, rfl, rfl⟩,
    ⟨⟨⟨1, 1, 12⟩, .joined 1 102⟩, by decide +kernel, rfl, rfl⟩, ?_, ?_, ?_⟩
  · decide +kernel
  · decide +kernel
  · decide +kernel

end CollaborationServer

end FileBelt.Collaboration
