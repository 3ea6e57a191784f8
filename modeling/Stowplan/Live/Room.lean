/-
  File:      Stowplan/Live/Room.lean
  Subject:   THE LIVE ROOM OF A WORKSPACE (live-relay.ts): who is connected and who is told what.

  The server tells the room of every committed change: the content revision, the access revision
  and who may be connected. The notifications come in any order, more than once or not at all,
  and connections come and go between them. An honest server's revisions only grow, and what it
  says about access is decided by the access revision.

  * `acceptConnection`, `publish`: the two requests;
  * `Reflects`: the room shows the newest access it was told of, and the newest content;
  * `room_reflects`: so in every run, whence `liveRoom_converges`.
-/
import Stowplan.Lib.Machine
import Stowplan.Lib.Outcome
import Mathlib.Data.Set.Basic

namespace Stowplan.Live

/-! ## 1. What is sent -/

/-- `LIVE_PROTOCOL_VERSION`. -/
def liveProtocolVersion : Nat := 1

/-- What `parseLiveNotification` returns: a workspace that is not deleted has someone who may be
    connected. -/
structure LiveNotification where
  accessRevision : Nat
  allowedUserIds : List String
  deleted : Bool
  revision : Nat
  sourceConnectionId : Option String
  workspaceId : String
  someone : deleted = false → allowedUserIds ≠ []

/-- The types of `LiveWireMessage`. -/
inductive LiveMessageType where
  | access | change | deleted | ready
  deriving DecidableEq

/-- `LiveWireMessage`. -/
structure LiveWireMessage where
  accessRevision : Nat
  revision : Nat
  type : LiveMessageType
  version : Nat
  deriving DecidableEq

/-- `RoomState`: the revisions a room has seen, and who may be connected. -/
@[ext] structure RoomState where
  accessRevision : Nat
  allowedUserIds : Option (List String)
  deleted : Bool
  revision : Nat
  deriving DecidableEq

/-- `SocketAttachment`: whose socket it is. -/
structure SocketAttachment where
  connectionId : String
  userId : String
  deriving DecidableEq

/-- A socket, and what `socketAttachment` reads from it. -/
structure Socket where
  attachment : Option SocketAttachment
  deriving DecidableEq

/-- `wireMessage(state, type)`. -/
def wireMessage (state : RoomState) (type : LiveMessageType) : LiveWireMessage where
  accessRevision := state.accessRevision
  revision := state.revision
  type := type
  version := liveProtocolVersion

/-! ## 2. The room -/

/-- The room in memory, what its storage holds, and the sockets it accepted. -/
structure WorkspaceLiveRoom where
  room : RoomState
  stored : Option RoomState
  sockets : List Socket

/-- The state of a room nothing is stored for. -/
def RoomState.initial : RoomState where
  accessRevision := 0
  allowedUserIds := none
  deleted := false
  revision := 0

/-- A room before its first request. -/
def WorkspaceLiveRoom.initial : WorkspaceLiveRoom where
  room := .initial
  stored := none
  sockets := []

/-- The object was evicted: its sockets stay, and the state is read from storage again. -/
def WorkspaceLiveRoom.wake (r : WorkspaceLiveRoom) : WorkspaceLiveRoom :=
  { r with room := r.stored.getD .initial }

/-- The headers of a request to connect, as far as they could be read. -/
structure ConnectRequest where
  upgrade : Bool
  accessRevision : Option Nat
  revision : Option Nat
  connectionId : Option String
  userId : Option String

/-- How a request is refused. -/
inductive Refusal where
  | problem (code error : String) (status : Nat)
  | liveProtocolError (message : String)

/-- `requiredInternalHeader`. -/
def requiredInternalHeader (value : Option String) : Except Refusal String :=
  match value with
  | some "" | none => .error (.liveProtocolError "Live relay request is invalid")
  | some value => .ok value

/-- `acceptConnection(request)`. -/
def acceptConnection (r : WorkspaceLiveRoom) (request : ConnectRequest) :
    Except Refusal (WorkspaceLiveRoom × LiveWireMessage) :=
  if !request.upgrade then
    .error (.problem "UPGRADE_REQUIRED" "A WebSocket upgrade is required" 426)
  else match request.accessRevision, request.revision with
    | some accessRevision, some revision => do
      let connectionId ← requiredInternalHeader request.connectionId
      let userId ← requiredInternalHeader request.userId
      if r.room.deleted then
        .error (.problem "WORKSPACE_DELETED" "The workspace was deleted" 410)
      else if r.room.allowedUserIds.any fun allowedUserIds =>
          decide (accessRevision < r.room.accessRevision) || !allowedUserIds.contains userId then
        .error (.problem "MEMBERSHIP_REQUIRED" "Workspace membership is required" 403)
      else
        .ok ({ r with sockets := r.sockets ++ [⟨some ⟨connectionId, userId⟩⟩] },
          wireMessage { r.room with
            accessRevision := max r.room.accessRevision accessRevision
            revision := max r.room.revision revision } .ready)
    | _, _ => .error (.problem "INVALID_REQUEST" "Live connection revisions are invalid" 400)

/-- `LIVE_CLOSE_*`. -/
inductive CloseCode where
  | invalidMessage | accessRevoked | workspaceDeleted
  deriving DecidableEq

/-- The codes sockets are closed with. -/
def CloseCode.number : CloseCode → Nat
  | .invalidMessage => 4400
  | .accessRevoked => 4403
  | .workspaceDeleted => 4410

/-- What one notification does to one socket. -/
structure Delivery where
  socket : Socket
  sent : Option LiveWireMessage
  closed : Option CloseCode

/-- `accessChanged`. -/
def accessChanged (prior : RoomState) (notification : LiveNotification) : Bool :=
  decide (prior.accessRevision < notification.accessRevision) ||
    prior.allowedUserIds.isNone || notification.deleted != prior.deleted

/-- The state after a notification that is not older than the room. -/
def nextState (prior : RoomState) (notification : LiveNotification) : RoomState where
  accessRevision := max prior.accessRevision notification.accessRevision
  allowedUserIds :=
    if accessChanged prior notification then some notification.allowedUserIds
    else prior.allowedUserIds.or (some notification.allowedUserIds)
  deleted := if accessChanged prior notification then notification.deleted else prior.deleted
  revision := max prior.revision notification.revision

/-- The body of the loop over the sockets. `fails` tells whether `send` throws. -/
def deliver (next : RoomState) (changed : Bool) (notification : LiveNotification) (fails : Bool)
    (socket : Socket) : Delivery :=
  let allowed := next.allowedUserIds.getD []
  match socket.attachment.filter fun a => !next.deleted && allowed.contains a.userId with
  | none =>
    if fails then ⟨socket, none, some .invalidMessage⟩
    else ⟨socket, some (wireMessage next (if next.deleted then .deleted else .access)),
      some (if next.deleted then .workspaceDeleted else .accessRevoked)⟩
  | some attachment =>
    if !changed && notification.sourceConnectionId == some attachment.connectionId then
      ⟨socket, none, none⟩
    else if fails then ⟨socket, none, some .invalidMessage⟩
    else ⟨socket, some (wireMessage next (if changed then .access else .change)), none⟩

/-- What a notification leads to: the answer, the room, and what the sockets are sent. -/
structure Published where
  status : Nat
  room : WorkspaceLiveRoom
  deliveries : List Delivery

/-- `sameIds(left ?? [], right ?? [])`. -/
def sameIds (left right : Option (List String)) : Bool := left.getD [] == right.getD []

/-- `publish`: `body` is the notification the body holds, if it holds one. -/
def publish (r : WorkspaceLiveRoom) (workspaceId : String) (body : Option LiveNotification)
    (fails : Nat → Bool) : Published :=
  match body.filter (·.workspaceId == workspaceId) with
  | none => ⟨400, r, []⟩
  | some notification =>
    if notification.accessRevision < r.room.accessRevision then ⟨202, r, []⟩
    else
      let prior := r.room
      let next := nextState prior notification
      let kept : WorkspaceLiveRoom :=
        if next.accessRevision != prior.accessRevision || next.deleted != prior.deleted ||
            next.revision != prior.revision || !sameIds next.allowedUserIds prior.allowedUserIds
        then { r with room := next, stored := some next } else r
      let deliveries := r.sockets.zipIdx.map fun (socket, i) =>
        deliver next (accessChanged prior notification) notification (fails i) socket
      ⟨204, { kept with
        sockets := (deliveries.filter (·.closed.isNone)).map (·.socket) }, deliveries⟩

/-! ## 3. The machine -/

/-- What a room is asked, or what happens to a socket. -/
inductive LiveAction where
  | connect (request : ConnectRequest)
  | publish (body : Option LiveNotification) (fails : Nat → Bool)
  | leave (socket : Nat)
  | evict

/-- What the room does, one request after another: the storage write of `publish` keeps other
    requests out until it is done. -/
def WorkspaceLiveRoom.after (workspaceId : String) (r : WorkspaceLiveRoom) :
    LiveAction → WorkspaceLiveRoom
  | .connect request =>
    match acceptConnection r request with
    | .ok (next, _) => next
    | .error _ => r
  | .publish body fails => (Live.publish r workspaceId body fails).room
  | .leave socket => { r with sockets := r.sockets.eraseIdx socket }
  | .evict => r.wake

/-- The room of one workspace from its start on. -/
def liveRoom (workspaceId : String) : Machine WorkspaceLiveRoom LiveAction where
  init r := r = .initial
  step r action next := next = r.after workspaceId action

/-- The notifications for the workspace that came in. -/
def received (workspaceId : String) (actions : List LiveAction) : List LiveNotification :=
  actions.filterMap fun
    | .publish body _ => body.filter (·.workspaceId == workspaceId)
    | _ => none

/-- What an honest server emits. Both revisions grow with time, and the access revision decides
    what is said about access. -/
structure Honest (emitted : Set LiveNotification) : Prop where
  grow : ∀ m ∈ emitted, ∀ n ∈ emitted,
    (m.accessRevision ≤ n.accessRevision ∧ m.revision ≤ n.revision) ∨
      (n.accessRevision ≤ m.accessRevision ∧ n.revision ≤ m.revision)
  access : ∀ m ∈ emitted, ∀ n ∈ emitted, m.accessRevision = n.accessRevision →
    m.allowedUserIds = n.allowedUserIds ∧ m.deleted = n.deleted

/-- A deleted workspace stays deleted. The room does not see to that itself: it takes the flag
    from the newest access it is told of. -/
def DeletionFinal (emitted : Set LiveNotification) : Prop :=
  ∀ m ∈ emitted, ∀ n ∈ emitted, m.accessRevision ≤ n.accessRevision →
    m.deleted = true → n.deleted = true

/-! ## 4. What the room shows -/

/-- The newest access among the notifications, and the newest content. -/
structure Shows (ns : List LiveNotification) (state : RoomState) : Prop where
  access : ∃ n ∈ ns, (∀ m ∈ ns, m.accessRevision ≤ n.accessRevision) ∧
    state.accessRevision = n.accessRevision ∧ state.allowedUserIds = some n.allowedUserIds ∧
      state.deleted = n.deleted
  content : ∃ n ∈ ns, (∀ m ∈ ns, m.revision ≤ n.revision) ∧ state.revision = n.revision

/-- The room was told nothing, or it shows and stores what it was told. -/
def Reflects (ns : List LiveNotification) (r : WorkspaceLiveRoom) : Prop :=
  (ns = [] ∧ r.room = .initial ∧ r.stored = none) ∨ (Shows ns r.room ∧ r.stored = some r.room)

section Step

variable {emitted : Set LiveNotification} {ns : List LiveNotification} {n : LiveNotification}
  {state : RoomState} {r : WorkspaceLiveRoom} {workspaceId : String} {fails : Nat → Bool}

/-- What a room stores is what it holds, once it was told anything. -/
theorem Reflects.stored (h : Reflects ns r) : (r.room = .initial ∧ r.stored = none) ∨
    (r.room.allowedUserIds ≠ none ∧ r.stored = some r.room) := by
  rcases h with ⟨-, hinitial, hnone⟩ | ⟨hs, hstored⟩
  · exact .inl ⟨hinitial, hnone⟩
  · obtain ⟨newest, -, -, -, hallowed, -⟩ := hs.access
    exact .inr ⟨by rw [hallowed]; exact Option.some_ne_none _, hstored⟩

theorem accessChanged_of_none {prior : RoomState} (h : prior.allowedUserIds = none) :
    accessChanged prior n = true := by
  unfold accessChanged
  rw [h]
  simp

/-- The first notification a room hears is what it shows. -/
theorem shows_first (n : LiveNotification) : Shows [n] (nextState .initial n) := by
  have hchanged : accessChanged .initial n = true := accessChanged_of_none rfl
  refine ⟨⟨n, List.mem_singleton_self n, fun m hm => by rw [List.mem_singleton.mp hm],
    Nat.zero_max _, ?_, ?_⟩, n, List.mem_singleton_self n,
    fun m hm => by rw [List.mem_singleton.mp hm], Nat.zero_max _⟩
  · show (if accessChanged .initial n = true then _ else _) = _
    rw [if_pos hchanged]
  · show (if accessChanged .initial n = true then _ else _) = _
    rw [if_pos hchanged]

/-- A notification that is older than the room tells it nothing new: the newest one told of
    the content as well. -/
theorem Shows.stale (h : Honest emitted) (hns : ∀ m ∈ ns, m ∈ emitted) (hn : n ∈ emitted)
    (hs : Shows ns state) (hold : n.accessRevision < state.accessRevision) :
    Shows (ns ++ [n]) state := by
  obtain ⟨⟨newest, hnewest, htop, haccess, hrest⟩, last, hlast, hmost, hrevision⟩ := hs
  have hle : n.accessRevision ≤ newest.accessRevision := by omega
  have hcontent : n.revision ≤ last.revision := by
    rcases h.grow n hn newest (hns newest hnewest) with hgrow | hgrow
    · exact hgrow.2.trans (hmost newest hnewest)
    · omega
  refine ⟨⟨newest, List.mem_append_left _ hnewest, fun m hm => ?_, haccess, hrest⟩,
    last, List.mem_append_left _ hlast, fun m hm => ?_, hrevision⟩
  · rcases List.mem_append.mp hm with hm | hm
    · exact htop m hm
    · rw [List.mem_singleton.mp hm]
      exact hle
  · rcases List.mem_append.mp hm with hm | hm
    · exact hmost m hm
    · rw [List.mem_singleton.mp hm]
      exact hcontent

/-- The content after a notification that is not older than the room. -/
theorem Shows.content_next (hs : Shows ns state) (n : LiveNotification) :
    ∃ last ∈ ns ++ [n], (∀ m ∈ ns ++ [n], m.revision ≤ last.revision) ∧
      (nextState state n).revision = last.revision := by
  obtain ⟨last, hlast, hmost, hrevision⟩ := hs.content
  have hnext : (nextState state n).revision = max last.revision n.revision := by
    show max state.revision n.revision = _
    rw [hrevision]
  rcases le_total n.revision last.revision with hle | hle
  · refine ⟨last, List.mem_append_left _ hlast, fun m hm => ?_, by rw [hnext, max_eq_left hle]⟩
    rcases List.mem_append.mp hm with hm | hm
    · exact hmost m hm
    · rw [List.mem_singleton.mp hm]
      exact hle
  · refine ⟨n, List.mem_append_right _ (List.mem_singleton_self n), fun m hm => ?_,
      by rw [hnext, max_eq_right hle]⟩
    rcases List.mem_append.mp hm with hm | hm
    · exact (hmost m hm).trans hle
    · rw [List.mem_singleton.mp hm]

/-- A notification that is not older than the room is taken in. -/
theorem Shows.next (h : Honest emitted) (hns : ∀ m ∈ ns, m ∈ emitted) (hn : n ∈ emitted)
    (hs : Shows ns state) (hnew : ¬ n.accessRevision < state.accessRevision) :
    Shows (ns ++ [n]) (nextState state n) := by
  refine ⟨?_, hs.content_next n⟩
  obtain ⟨newest, hnewest, htop, haccess, hallowed, hdeleted⟩ := hs.access
  rcases Nat.lt_or_ge state.accessRevision n.accessRevision with hlt | hge
  · -- newer access: the notification decides
    have hchanged : accessChanged state n = true := by
      unfold accessChanged
      simp [hlt]
    refine ⟨n, List.mem_append_right _ (List.mem_singleton_self n), fun m hm => ?_, ?_, ?_, ?_⟩
    · rcases List.mem_append.mp hm with hm | hm
      · have := htop m hm
        omega
      · rw [List.mem_singleton.mp hm]
    · exact Nat.max_eq_right hlt.le
    · exact if_pos hchanged
    · exact if_pos hchanged
  · -- the access the room shows already: both tell the same of it
    have hsame : newest.accessRevision = n.accessRevision := by omega
    obtain ⟨-, hflag⟩ := h.access newest (hns newest hnewest) n hn hsame
    have hchanged : accessChanged state n = false := by
      unfold accessChanged
      rw [hallowed, hdeleted, hflag]
      simp [hge]
    refine ⟨newest, List.mem_append_left _ hnewest, fun m hm => ?_, ?_, ?_, ?_⟩
    · rcases List.mem_append.mp hm with hm | hm
      · exact htop m hm
      · rw [List.mem_singleton.mp hm]
        exact hsame.ge
    · show max state.accessRevision n.accessRevision = _
      omega
    · show (if accessChanged state n = true then _ else _) = _
      rw [hchanged, hallowed]
      rfl
    · show (if accessChanged state n = true then _ else _) = _
      rw [hchanged, hdeleted]
      rfl

/-- What `publish` stores is what it computed, also where it saves the write. -/
theorem publish_room (fails : Nat → Bool) (hw : n.workspaceId = workspaceId)
    (hnew : ¬ n.accessRevision < r.room.accessRevision)
    (hr : (r.room = .initial ∧ r.stored = none) ∨
      (r.room.allowedUserIds ≠ none ∧ r.stored = some r.room)) :
    (publish r workspaceId (some n) fails).room.room = nextState r.room n ∧
      (publish r workspaceId (some n) fails).room.stored = some (nextState r.room n) := by
  have hbody : (some n).filter (·.workspaceId == workspaceId) = some n := by
    simp [Option.filter, hw]
  unfold publish
  rw [hbody]
  simp only [if_neg hnew]
  split
  · exact ⟨rfl, rfl⟩
  · rename_i hkept
    simp only [Bool.or_eq_true, bne_iff_ne, ne_eq, Bool.not_eq_true', not_or, not_not,
      Bool.not_eq_false] at hkept
    obtain ⟨⟨⟨haccess, hdeleted⟩, hrevision⟩, hids⟩ := hkept
    have hids : (nextState r.room n).allowedUserIds.getD [] =
        r.room.allowedUserIds.getD [] := by simpa [sameIds] using hids
    rcases hr with ⟨hinitial, -⟩ | ⟨hallowed, hstored⟩
    · -- the first notification always changes the room
      exfalso
      rw [hinitial] at hids hdeleted
      have hchanged : accessChanged .initial n = true := accessChanged_of_none rfl
      simp only [nextState, if_pos hchanged] at hids hdeleted
      exact n.someone hdeleted hids
    · have hnext : nextState r.room n = r.room := by
        obtain ⟨ids, hids'⟩ := Option.ne_none_iff_exists'.mp hallowed
        have hsome : ∃ next, (nextState r.room n).allowedUserIds = some next := by
          unfold nextState
          split
          · exact ⟨_, rfl⟩
          · exact ⟨ids, by rw [hids']; rfl⟩
        obtain ⟨next, hnext⟩ := hsome
        rw [hnext, hids'] at hids
        have hids : next = ids := hids
        exact RoomState.ext haccess (by rw [hnext, hids, hids']) hdeleted hrevision
      exact ⟨hnext.symm, by rw [hnext]; exact hstored⟩

/-- **One notification, at any time.** -/
theorem publish_reflects (h : Honest emitted) (hns : ∀ m ∈ ns, m ∈ emitted) (hn : n ∈ emitted)
    (hw : n.workspaceId = workspaceId) (hr : Reflects ns r) :
    Reflects (ns ++ [n]) (publish r workspaceId (some n) fails).room := by
  by_cases hold : n.accessRevision < r.room.accessRevision
  · have hsame : (publish r workspaceId (some n) fails).room = r := by
      have hbody : (some n).filter (·.workspaceId == workspaceId) = some n := by
        simp [Option.filter, hw]
      unfold publish
      rw [hbody]
      simp only [if_pos hold]
    rw [hsame]
    rcases hr with ⟨-, hinitial, -⟩ | ⟨hs, hstored⟩
    · rw [hinitial] at hold
      exact absurd hold (Nat.not_lt_zero _)
    · exact .inr ⟨hs.stale h hns hn hold, hstored⟩
  · obtain ⟨hroom, hstored⟩ := publish_room fails hw hold hr.stored
    refine .inr ⟨?_, by rw [hstored, hroom]⟩
    rw [hroom]
    rcases hr with ⟨rfl, hinitial, -⟩ | ⟨hs, -⟩
    · rw [hinitial]
      exact shows_first n
    · exact hs.next h hns hn hold

end Step

/-! ## 5. Every order of delivery -/

section Runs

variable {emitted : Set LiveNotification} {workspaceId : String} {as bs : List LiveAction}
  {r t u : WorkspaceLiveRoom}

theorem received_append (as bs : List LiveAction) :
    received workspaceId (as ++ bs) = received workspaceId as ++ received workspaceId bs :=
  List.filterMap_append

theorem acceptConnection_ok {request : ConnectRequest} {next : WorkspaceLiveRoom}
    {ready : LiveWireMessage} (h : acceptConnection r request = .ok (next, ready)) :
    r.room.deleted = false ∧ next.room = r.room ∧ next.stored = r.stored := by
  unfold acceptConnection at h
  split at h
  · cases h
  · split at h
    · obtain ⟨_, -, h⟩ := except_bind_ok.mp h
      obtain ⟨_, -, h⟩ := except_bind_ok.mp h
      split at h
      · cases h
      · rename_i hdeleted
        split at h
        · cases h
        · cases h
          exact ⟨Bool.eq_false_iff.mpr hdeleted, rfl, rfl⟩
    · cases h

theorem Reflects.wake {ns : List LiveNotification} (h : Reflects ns r) : r.wake = r := by
  unfold WorkspaceLiveRoom.wake
  obtain ⟨room, stored, sockets⟩ := r
  rcases h with ⟨-, hroom, hstored⟩ | ⟨-, hstored⟩
  · obtain rfl : room = .initial := hroom
    obtain rfl : stored = none := hstored
    rfl
  · obtain rfl : stored = some room := hstored
    rfl

/-- **The room shows what it was told, in every run.** -/
theorem room_reflects (h : Honest emitted) (hrun : (liveRoom workspaceId).Run .initial as r)
    (hin : ∀ n ∈ received workspaceId as, n ∈ emitted) :
    Reflects (received workspaceId as) r := by
  generalize hstart : WorkspaceLiveRoom.initial = start at hrun
  induction hrun with
  | nil =>
      subst hstart
      exact .inl ⟨rfl, rfl, rfl⟩
  | @snoc t u as a hrun hstep ih =>
      rw [received_append] at hin ⊢
      have hr := ih fun n hn => hin n (List.mem_append_left _ hn)
      obtain rfl : u = t.after workspaceId a := hstep
      cases a with
      | connect request =>
          rw [show received workspaceId [.connect request] = [] from rfl, List.append_nil]
          show Reflects _ (match acceptConnection t request with
            | .ok (next, _) => next
            | .error _ => t)
          split
          · rename_i next ready hok
            obtain ⟨-, hroom, hstored⟩ := acceptConnection_ok hok
            unfold Reflects
            rw [hroom, hstored]
            exact hr
          · exact hr
      | publish body fails =>
          show Reflects _ (publish t workspaceId body fails).room
          cases hbody : body.filter (·.workspaceId == workspaceId) with
          | none =>
              have hnone : received workspaceId [.publish body fails] = [] := by
                simp [received, hbody]
              have hsame : publish t workspaceId body fails = ⟨400, t, []⟩ := by
                unfold publish
                rw [hbody]
              rw [hnone, List.append_nil, hsame]
              exact hr
          | some n =>
              have hone : received workspaceId [.publish body fails] = [n] := by
                simp [received, hbody]
              obtain ⟨rfl, hw⟩ := Option.filter_eq_some_iff.mp hbody
              rw [hone] at hin ⊢
              exact publish_reflects h (fun m hm => hin m (List.mem_append_left _ hm))
                (hin n (List.mem_append_right _ (List.mem_singleton_self n)))
                (beq_iff_eq.mp hw) hr
      | leave socket =>
          rw [show received workspaceId [.leave socket] = [] from rfl, List.append_nil]
          exact hr
      | evict =>
          rw [show received workspaceId [.evict] = [] from rfl, List.append_nil]
          show Reflects _ t.wake
          rw [hr.wake]
          exact hr

theorem Reflects.stored_room {ns : List LiveNotification} {state : RoomState}
    (h : Reflects ns r) (hs : r.stored = some state) : Shows ns state := by
  rcases h with ⟨-, -, hstored⟩ | ⟨hshows, hstored⟩
  · cases hstored.symm.trans hs
  · cases hstored.symm.trans hs
    exact hshows

/-- Two rooms that were told the same show the same. -/
theorem Shows.unique {ms ns : List LiveNotification} {s s' : RoomState} (h : Honest emitted)
    (hm : ∀ n ∈ ms, n ∈ emitted) (hsame : ∀ n, n ∈ ms ↔ n ∈ ns) (hs : Shows ms s)
    (hs' : Shows ns s') : s = s' := by
  obtain ⟨⟨a, ha, htop, haccess, hallowed, hdeleted⟩, c, hc, hmost, hrevision⟩ := hs
  obtain ⟨⟨b, hb, htop', haccess', hallowed', hdeleted'⟩, d, hd, hmost', hrevision'⟩ := hs'
  have hnewest : a.accessRevision = b.accessRevision :=
    le_antisymm (htop' a ((hsame a).mp ha)) (htop b ((hsame b).mpr hb))
  have hcontent : c.revision = d.revision :=
    le_antisymm (hmost' c ((hsame c).mp hc)) (hmost d ((hsame d).mpr hd))
  obtain ⟨hids, hflag⟩ := h.access a (hm a ha) b (hm b ((hsame b).mpr hb)) hnewest
  refine RoomState.ext ?_ ?_ ?_ ?_
  · rw [haccess, haccess', hnewest]
  · rw [hallowed, hallowed', hids]
  · rw [hdeleted, hdeleted', hflag]
  · rw [hrevision, hrevision', hcontent]

/-- What a room shows grows with what it was told. -/
theorem Shows.grows {ms ns : List LiveNotification} {s s' : RoomState} (hs : Shows ms s)
    (hs' : Shows (ms ++ ns) s') :
    s.accessRevision ≤ s'.accessRevision ∧ s.revision ≤ s'.revision := by
  obtain ⟨⟨a, ha, -, haccess, -⟩, c, hc, -, hrevision⟩ := hs
  obtain ⟨⟨b, -, htop, haccess', -⟩, d, -, hmost, hrevision'⟩ := hs'
  have h1 := htop a (List.mem_append_left _ ha)
  have h2 := hmost c (List.mem_append_left _ hc)
  omega

/-- A room that was told of the deletion shows it. -/
theorem Shows.deleted {ns : List LiveNotification} {state : RoomState} {n : LiveNotification}
    (hfinal : DeletionFinal emitted) (hns : ∀ m ∈ ns, m ∈ emitted) (hs : Shows ns state)
    (hn : n ∈ ns) (hd : n.deleted = true) : state.deleted = true := by
  obtain ⟨newest, hnewest, htop, -, -, hdeleted⟩ := hs.access
  rw [hdeleted]
  exact hfinal n (hns n hn) newest (hns newest hnewest) (htop n hn) hd

end Runs

/-! ## 6. Who is told -/

section Deliveries

variable {next : RoomState} {changed fails : Bool} {n : LiveNotification} {socket : Socket}
  {m : LiveWireMessage}

/-- Nobody but an allowed user hears of a change and keeps the connection. -/
theorem deliver_allowed (h : (deliver next changed n fails socket).sent = some m) :
    (m.type = .deleted ↔ next.deleted = true) ∧
      (m.type = .change → next.deleted = false ∧ ∃ a, socket.attachment = some a ∧
        a.userId ∈ next.allowedUserIds.getD []) := by
  unfold deliver at h
  simp only at h
  split at h
  · split at h
    · cases h
    · cases h
      cases hd : next.deleted <;> simp [wireMessage]
  · rename_i attachment hfilter
    obtain ⟨hattachment, hallowed⟩ := Option.filter_eq_some_iff.mp hfilter
    simp only [Bool.and_eq_true, Bool.not_eq_true', List.contains_iff_mem] at hallowed
    split at h
    · cases h
    · split at h
      · cases h
      · cases h
        refine ⟨?_, fun _ => ⟨hallowed.1, attachment, hattachment, hallowed.2⟩⟩
        rw [hallowed.1]
        cases changed <;> simp [wireMessage]

end Deliveries

/-! ## 7. What the room promises -/

section Promise

variable (emitted : Set LiveNotification) (workspaceId : String)

/-- What came in was emitted: in any order, any number of times, with anything missing. -/
def Delivered (actions : List LiveAction) : Prop :=
  ∀ n ∈ received workspaceId actions, n ∈ emitted

/-- The stored revisions never decrease. -/
def RevisionsGrow : Prop :=
  ∀ as bs t u, (liveRoom workspaceId).Run .initial as t → (liveRoom workspaceId).Run t bs u →
    Delivered emitted workspaceId (as ++ bs) → ∀ s, t.stored = some s →
      ∃ s', u.stored = some s' ∧ s.accessRevision ≤ s'.accessRevision ∧ s.revision ≤ s'.revision

/-- After a deletion came in, every connection is refused and only the deletion is told. -/
def StaysClosed : Prop :=
  ∀ as r, (liveRoom workspaceId).Run .initial as r → Delivered emitted workspaceId as →
    (∃ n ∈ received workspaceId as, n.deleted = true) →
      (∀ request, ∃ refusal, acceptConnection r request = .error refusal) ∧
      ∀ body fails, Delivered emitted workspaceId [.publish body fails] →
        ∀ d ∈ (publish r workspaceId body fails).deliveries, ∀ m, d.sent = some m →
          m.type = .deleted

/-- A change is told to users on the allowed list of the highest access revision that came in,
    and to nobody else. -/
def TellsAllowed : Prop :=
  ∀ as r body fails, (liveRoom workspaceId).Run .initial as r →
    Delivered emitted workspaceId (as ++ [.publish body fails]) →
      ∀ d ∈ (publish r workspaceId body fails).deliveries, ∀ m, d.sent = some m →
        m.type = .change → ∃ a, d.socket.attachment = some a ∧
          ∀ newest ∈ received workspaceId (as ++ [.publish body fails]),
            (∀ n ∈ received workspaceId (as ++ [.publish body fails]),
              n.accessRevision ≤ newest.accessRevision) → a.userId ∈ newest.allowedUserIds

/-- Rooms that were told the same store the same. -/
def Converges : Prop :=
  ∀ as bs t u, (liveRoom workspaceId).Run .initial as t →
    (liveRoom workspaceId).Run .initial bs u → Delivered emitted workspaceId as →
      (∀ n, n ∈ received workspaceId as ↔ n ∈ received workspaceId bs) → t.stored = u.stored

end Promise

section Proofs

variable {emitted : Set LiveNotification} {workspaceId : String} {as bs : List LiveAction}
  {r t u : WorkspaceLiveRoom} {body : Option LiveNotification} {fails : Nat → Bool}

theorem Delivered.left (h : Delivered emitted workspaceId (as ++ bs)) :
    Delivered emitted workspaceId as := fun n hn => h n (by
  rw [received_append]
  exact List.mem_append_left _ hn)

theorem Delivered.right (h : Delivered emitted workspaceId (as ++ bs)) :
    Delivered emitted workspaceId bs := fun n hn => h n (by
  rw [received_append]
  exact List.mem_append_right _ hn)

theorem Delivered.append (h : Delivered emitted workspaceId as)
    (h' : Delivered emitted workspaceId bs) : Delivered emitted workspaceId (as ++ bs) := by
  intro n hn
  rw [received_append] at hn
  exact (List.mem_append.mp hn).elim (h n) (h' n)

/-- What `publish` sends, it sends about a notification the room then shows. -/
theorem publish_sends (h : Honest emitted) (hrun : (liveRoom workspaceId).Run .initial as r)
    (hin : Delivered emitted workspaceId (as ++ [.publish body fails])) {d : Delivery}
    (hd : d ∈ (publish r workspaceId body fails).deliveries) :
    ∃ n next changed f, d = deliver next changed n f d.socket ∧
      Shows (received workspaceId (as ++ [.publish body fails])) next := by
  have hr := room_reflects h hrun hin.left
  cases hbody : body.filter (·.workspaceId == workspaceId) with
  | none =>
      unfold publish at hd
      rw [hbody] at hd
      cases hd
  | some n =>
      obtain ⟨rfl, hw⟩ := Option.filter_eq_some_iff.mp hbody
      have hone : received workspaceId [.publish (some n) fails] = [n] := by
        simp [received, hbody]
      have hreflects : Reflects (received workspaceId (as ++ [.publish (some n) fails]))
          (publish r workspaceId (some n) fails).room :=
        room_reflects h (.snoc hrun rfl) hin
      unfold publish at hd
      rw [hbody] at hd
      simp only at hd
      split at hd
      · cases hd
      · rename_i hnew
        obtain ⟨⟨socket, i⟩, -, hsocket⟩ := List.mem_map.mp hd
        have hown : (deliver (nextState r.room n) (accessChanged r.room n) n (fails i)
            socket).socket = socket := by
          unfold deliver
          simp only
          repeat' split
          all_goals rfl
        obtain ⟨-, hstored⟩ := publish_room fails (beq_iff_eq.mp hw) hnew hr.stored
        refine ⟨n, nextState r.room n, accessChanged r.room n, fails i, ?_,
          hreflects.stored_room hstored⟩
        rw [← hsocket]
        exact congrArg _ hown.symm

theorem revisions_grow (h : Honest emitted) : RevisionsGrow emitted workspaceId := by
  intro as bs t u hrun hnext hin s hs
  have hshows := (room_reflects h hrun hin.left).stored_room hs
  rcases room_reflects h (hrun.append hnext) hin with ⟨hnil, -, -⟩ | ⟨hlater, hstored⟩
  · -- a room that was told nothing stores nothing
    obtain ⟨n, hn, -⟩ := hshows.access
    rw [received_append, List.append_eq_nil_iff] at hnil
    rw [hnil.1] at hn
    cases hn
  · rw [received_append] at hlater
    exact ⟨u.room, hstored, hshows.grows hlater⟩

theorem stays_closed (h : Honest emitted) (hfinal : DeletionFinal emitted) :
    StaysClosed emitted workspaceId := by
  intro as r hrun hin hdeleted
  obtain ⟨n, hn, hd⟩ := hdeleted
  refine ⟨fun request => ?_, fun body fails hbody d hmem m hm => ?_⟩
  · rcases room_reflects h hrun hin with ⟨hnil, -, -⟩ | ⟨hs, -⟩
    · rw [hnil] at hn
      cases hn
    · have hclosed := hs.deleted hfinal hin hn hd
      cases hc : acceptConnection r request with
      | error refusal => exact ⟨refusal, rfl⟩
      | ok p =>
          obtain ⟨hopen, -⟩ := acceptConnection_ok hc
          rw [hclosed] at hopen
          cases hopen
  · obtain ⟨n', next, changed, f, hdeliver, hs⟩ := publish_sends h hrun (hin.append hbody) hmem
    rw [hdeliver] at hm
    refine (deliver_allowed hm).1.mpr (hs.deleted hfinal (hin.append hbody) (n := n) ?_ hd)
    rw [received_append]
    exact List.mem_append_left _ hn

theorem tells_allowed (h : Honest emitted) : TellsAllowed emitted workspaceId := by
  intro as r body fails hrun hin d hmem m hm htype
  obtain ⟨n, next, changed, f, hdeliver, hs⟩ := publish_sends h hrun hin hmem
  rw [hdeliver] at hm
  obtain ⟨-, a, ha, hallowed⟩ := (deliver_allowed hm).2 htype
  refine ⟨a, ha, fun newest hnewest htop => ?_⟩
  obtain ⟨shown, hshown, hmost, -, hids, -⟩ := hs.access
  have hsame : shown.accessRevision = newest.accessRevision :=
    le_antisymm (htop shown hshown) (hmost newest hnewest)
  obtain ⟨hlist, -⟩ := h.access shown (hin shown hshown) newest (hin newest hnewest) hsame
  rw [hids, hlist] at hallowed
  exact hallowed

theorem rooms_agree (h : Honest emitted) : Converges emitted workspaceId := by
  intro as bs t u hrun hrun' hin hsame
  have hin' : Delivered emitted workspaceId bs := fun n hn => hin n ((hsame n).mpr hn)
  rcases room_reflects h hrun hin with ⟨hnil, -, hstored⟩ | ⟨hs, hstored⟩ <;>
    rcases room_reflects h hrun' hin' with ⟨hnil', -, hstored'⟩ | ⟨hs', hstored'⟩
  · rw [hstored, hstored']
  · obtain ⟨n, hn, -⟩ := hs'.access
    rw [← hsame, hnil] at hn
    cases hn
  · obtain ⟨n, hn, -⟩ := hs.access
    rw [hsame, hnil'] at hn
    cases hn
  · rw [hstored, hstored', hs.unique h hin hsame hs']

/-- **The room converges**, whatever arrives in whatever order, **and stays closed** when the
    server never takes a deletion back. -/
theorem liveRoom_converges (h : Honest emitted) (workspaceId : String) :
    RevisionsGrow emitted workspaceId ∧
      (DeletionFinal emitted → StaysClosed emitted workspaceId) ∧
      TellsAllowed emitted workspaceId ∧ Converges emitted workspaceId :=
  ⟨revisions_grow h, stays_closed h, tells_allowed h, rooms_agree h⟩

end Proofs

/-- Two users, then one, then nobody: the workspace is deleted. -/
def lifeOfWorkspace : List LiveNotification :=
  [⟨1, ["ada", "ben"], false, 0, none, "shed", fun _ => nofun⟩,
    ⟨1, ["ada", "ben"], false, 4, some "tab", "shed", fun _ => nofun⟩,
    ⟨2, ["ada"], false, 5, none, "shed", fun _ => nofun⟩,
    ⟨4, [], true, 5, none, "shed", nofun⟩]

theorem lifeOfWorkspace_honest : Honest {n | n ∈ lifeOfWorkspace} where
  grow := by simp [lifeOfWorkspace]
  access := by simp [lifeOfWorkspace]

theorem lifeOfWorkspace_final : DeletionFinal {n | n ∈ lifeOfWorkspace} := by
  simp [DeletionFinal, lifeOfWorkspace]

/-- The life of one workspace is emitted by an honest server. -/
theorem liveRoom_converges_shed :
    RevisionsGrow {n | n ∈ lifeOfWorkspace} "shed" ∧ StaysClosed {n | n ∈ lifeOfWorkspace} "shed" ∧
      TellsAllowed {n | n ∈ lifeOfWorkspace} "shed" ∧ Converges {n | n ∈ lifeOfWorkspace} "shed" := by
  obtain ⟨hgrow, hclosed, htells, hsame⟩ := liveRoom_converges lifeOfWorkspace_honest "shed"
  exact ⟨hgrow, hclosed lifeOfWorkspace_final, htells, hsame⟩

/-- The workspace comes back with the next access revision. -/
def revivedWorkspace : List LiveNotification :=
  [⟨4, [], true, 5, none, "shed", nofun⟩, ⟨5, ["ada"], false, 5, none, "shed", fun _ => nofun⟩]

theorem revivedWorkspace_honest : Honest {n | n ∈ revivedWorkspace} where
  grow := by simp [revivedWorkspace]
  access := by simp [revivedWorkspace]

/-- The room is told of both. -/
def revival : List LiveAction := revivedWorkspace.map fun n => .publish (some n) fun _ => false

/-- The room after both. -/
def revivedRoom : WorkspaceLiveRoom :=
  revival.foldl (WorkspaceLiveRoom.after "shed") .initial

theorem received_revival : received "shed" revival = revivedWorkspace := by
  simp [received, revival, revivedWorkspace, Option.filter]

/-- **A deletion that is taken back opens the room again**: ada may connect after both. -/
theorem revived_opens :
    Honest {n | n ∈ revivedWorkspace} ∧ ¬ StaysClosed {n | n ∈ revivedWorkspace} "shed" := by
  refine ⟨revivedWorkspace_honest, fun hclosed => ?_⟩
  have hrun : (liveRoom "shed").Run .initial revival revivedRoom := .cons rfl (.single rfl)
  have hdeleted : ∃ n ∈ received "shed" revival, n.deleted = true := by
    rw [received_revival]
    exact ⟨_, List.mem_cons_self, rfl⟩
  obtain ⟨refusal, hrefused⟩ := (hclosed revival revivedRoom hrun
    (fun n hn => by rwa [received_revival] at hn) hdeleted).1
      ⟨true, some 5, some 5, some "tab", some "ada"⟩
  have hopen : (acceptConnection revivedRoom
      ⟨true, some 5, some 5, some "tab", some "ada"⟩).isOk = true := by
    decide
  rw [hrefused] at hopen
  cases hopen

end Stowplan.Live
