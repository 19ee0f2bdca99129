import FileBelt.Collaboration.ServerRuns

/-!
# Groups that are submitted again

A client that lost an acknowledgement sends its group again.  `apply_update` stages it
on the current document, and the database compares the outcome with the row of the
group.  A replica that has not replayed the group comes to the same values again; one
that has replayed it stages it as a new group behind all others.
-/

namespace FileBelt.Collaboration

open Support

section

variable {Y : Yjs} {config : RoomConfig Y} {epoch : Epoch} {journal : List UpdateRequest}
  {request other : UpdateRequest} {n m : ℕ} {doc : Y.Doc} {verdicts : Verdicts}

theorem Recorded.eq_of_key (h : Recorded config epoch journal)
    (hrequest : journal[n]? = some request) (hother : journal[m]? = some other)
    (hkey : other.key = request.key) : m = n := by
  have hmapped : (journal.map UpdateRequest.key)[m]? = (journal.map UpdateRequest.key)[n]? := by
    rw [List.getElem?_map, List.getElem?_map, hrequest, hother, Option.map_some,
      Option.map_some, hkey]
  have hlt : m < (journal.map UpdateRequest.key).length := by
    rw [List.length_map]
    exact (List.getElem?_eq_some_iff.mp hother).1
  exact (List.getElem?_inj hlt h.keys).mp hmapped

theorem Recorded.existing_row (h : Recorded config epoch journal)
    (hrequest : journal[n]? = some request) :
    ∃ row, epoch.existing request.clientId request.clientUpdateId = some row ∧
      RowOf config epoch journal n request row := by
  have hkey : request.key ∈ journal.map UpdateRequest.key :=
    List.mem_map_of_mem (List.mem_of_getElem? hrequest)
  cases hexisting : epoch.existing request.clientId request.clientUpdateId with
  | none => exact absurd hkey (h.key_not_mem hexisting)
  | some row =>
    refine ⟨row, rfl, ?_⟩
    obtain ⟨_, other, hother, -, hrow⟩ := h.exists_entry (List.mem_of_find?_eq_some hexisting)
    have hsame := List.find?_some hexisting
    have hsame := of_decide_eq_true hsame
    have hkeys : (row.clientId, row.clientUpdateId) = request.key := Prod.ext hsame.1 hsame.2
    obtain rfl := h.eq_of_key hrequest hother (hrow.sequence.2.2.symm.trans hkeys)
    obtain rfl : other = request := Option.some.inj (hother.symm.trans hrequest)
    exact hrow

theorem RowOf.row_eq {row : UpdateGroupRow} (h : RowOf config epoch journal n request row)
    (hdoc : config.docAt journal n = some doc) :
    ∃ staged, (config.roomAt doc n).stageGroup config.blake3 request.chunks =
        .ok staged ∧ Insertable config request staged.receipt ∧
      row = (persistInput config request staged.receipt n row.objectId).row (n + 1) := by
  obtain ⟨doc', staged, hdoc', hstaged, hinsertable, hrow⟩ := h.staged
  obtain rfl : doc = doc' := Option.some.inj (hdoc.symm.trans hdoc')
  exact ⟨staged, hstaged, hinsertable, hrow⟩

/-- The database finds a group that is staged on the document of its
predecessors. -/
theorem Recorded.persist_again (h : Recorded config epoch journal) (hactive : epoch.active)
    (hrequest : journal[n]? = some request) (hdoc : config.docAt journal n = some doc)
    (hstorage : verdicts.storage = .ok ()) (hauthorization : verdicts.authorization = .ok ()) :
    ∃ staged epoch', (config.roomAt doc n).stageGroup config.blake3 request.chunks = .ok staged ∧
      epoch'.groups = epoch.groups ∧
      ∃ objectId, ioPersistUpdateGroup config verdicts epoch request staged.receipt
        n = (epoch', .ok (objectId, n + 1, n + 1)) := by
  obtain ⟨row, hexisting, hrowOf⟩ := h.existing_row hrequest
  obtain ⟨staged, hstaged, hinsertable, hrow⟩ := hrowOf.row_eq hdoc
  obtain ⟨object, hobject, hbytes⟩ := hrowOf.object
  have hlt : row.objectId < epoch.nextObject := by
    rw [← Epoch.id_of_object hobject]
    exact h.fresh object (Epoch.mem_of_object hobject)
  have hkept : (epoch.store .updateGroup request.chunks.flatten).object
      row.objectId = some object := by
    rw [Epoch.object_store_of_ne (Nat.ne_of_lt hlt), hobject]
  have hinvocation : (request.mcpInvocationId.any fun id =>
      config.invocation id staged.receipt.sourceBeforeDigest
        staged.receipt.sourceAfterDigest = false) = false := by
    cases hid : request.mcpInvocationId with
    | none => rfl
    | some id =>
      rw [Option.any_some, hinsertable.invocation id hid]
      rfl
  have hsame : sameGroup config.blake3 (epoch.store .updateGroup request.chunks.flatten) row
      (persistInput config request staged.receipt n epoch.nextObject)
      ⟨epoch.nextObject, .updateGroup, .durable, request.chunks.flatten⟩ := by
    rw [sameGroup, hkept, Option.map_some, hbytes, hrow]
    simp [persistInput, PersistInput.row]
  have hpersisted := persistUpdateGroup_found (hinsertable.acceptable n epoch.nextObject)
    (show (epoch.store .updateGroup request.chunks.flatten).active = true from
      hactive) hinvocation
    (Epoch.object_store h.fresh .updateGroup request.chunks.flatten) rfl hexisting
    hsame
  rw [hrow] at hpersisted
  have hanswer : (ioPersistUpdateGroup config verdicts epoch request staged.receipt
      n).2 = .ok (row.objectId, n + 1, n + 1) := by
    rw [ioPersistUpdateGroup, hactive, hstorage, hauthorization]
    dsimp only
    rw [hpersisted]
    rfl
  have hcases : Persisted config epoch request staged.receipt n
      (ioPersistUpdateGroup config verdicts epoch request staged.receipt n) :=
    persisted_ioPersistUpdateGroup h.fresh
  refine ⟨staged, _, hstaged, ?_, row.objectId, Prod.ext rfl hanswer⟩
  generalize ioPersistUpdateGroup config verdicts epoch request staged.receipt n =
    persisted at hanswer hcases ⊢
  cases hcases with
  | failed => cases hanswer
  | found hrows => exact hrows.groups
  | inserted _ hnone =>
    rw [hexisting] at hnone
    cases hnone

theorem Recorded.attempt_again (h : Recorded config epoch journal) (hactive : epoch.active)
    {task : UpdateTask} (hrequest : journal[n]? = some task.request)
    (hdoc : config.docAt journal n = some doc) (hadmitted : verdicts.admitted)
    (hstorage : verdicts.storage = .ok ()) (hauthorization : verdicts.authorization = .ok ()) :
    ∃ epoch' room', attemptUpdate config verdicts epoch (config.roomAt doc n) task =
        (epoch', room', .acknowledged (n + 1)) ∧ epoch'.groups = epoch.groups := by
  obtain ⟨staged, epoch', hstaged, hgroups, _, hpersisted⟩ :=
    h.persist_again hactive hrequest hdoc hstorage hauthorization
  obtain ⟨_, -, hrowOf⟩ := h.existing_row hrequest
  have hn : n < 2 ^ 63 := (List.getElem?_eq_some_iff.mp hrequest).1.trans h.bounded
  obtain ⟨hfirst, hlast, hcommit⟩ := RoomConfig.stageGroup_roomAt hn hstaged
  have hbase : ¬(config.roomAt doc n).serverSequence < task.request.baseSequence :=
    Nat.not_lt.mpr hrowOf.base
  refine ⟨epoch', config.roomAt staged.doc (n + 1), ?_, hgroups⟩
  rw [attemptUpdate, if_neg (fun hlate => hbase hlate.2), hadmitted, if_neg (by simp), hstaged]
  dsimp only
  rw [show (config.roomAt doc n).serverSequence = n from rfl, hpersisted]
  dsimp only
  rw [hfirst, hlast, if_neg (by simp), hcommit]
  dsimp only
  rw [hlast]

end

variable {Y : Yjs} {config : RoomConfig Y}

/-- A task is about to submit group `n` again, on a replica with the document of exactly the
groups before it. -/
structure Unreplayed (config : RoomConfig Y) (server : Server Y) (position n : ℕ)
    (request : UpdateRequest) (verdicts : Verdicts) : Prop where
  durable : server.journal[n]? = some request
  active : server.epoch.active
  task : ∃ task room, server.tasks[position]? = some task ∧
    task.request = request ∧ task.phase = .attempting ∧
    server.room task.replica = some room ∧ room.serverSequence = n ∧
    config.docAt server.journal n = some room.doc
  admitted : verdicts.admitted
  storage : verdicts.storage = .ok ()
  authorization : verdicts.authorization = .ok ()

/-- In every run, no group becomes durable twice, and a group that is submitted
again to a replica that has not replayed it is acknowledged with its sequence. -/
theorem durable_group_is_acknowledged_again {events : List ServerEvent}
    (hevents : Meets (Server.step config) (Reliable config) (Server.start Y)
      events) :
    let server := run (Server.step config) (Server.start Y) events
    (server.journal.map UpdateRequest.key).Nodup ∧
      ∀ position n request verdicts, Unreplayed config server position n request verdicts →
        (∃ row ∈ server.epoch.groups, row.clientId = request.clientId ∧
          row.clientUpdateId = request.clientUpdateId ∧
          row.lastSequence = n + 1) ∧
        ∃ server', server.step config (.attempt position verdicts) = .ok server' ∧
          server'.replies = server.replies ++ [(request, .ok (n + 1))] ∧
          server'.epoch.groups = server.epoch.groups := by
  intro server
  have h : Historical config server := historical_run hevents
  refine ⟨h.recorded.keys, ?_⟩
  intro position n request verdicts hcase
  obtain ⟨task, _, htask, rfl, hphase, hroom, rfl, -⟩ := hcase.task
  obtain ⟨row, hexisting, hrowOf⟩ := h.recorded.existing_row hcase.durable
  obtain ⟨doc, n, rfl, hdoc, -⟩ := h.room_current hroom hcase.active
  have hdurable : server.journal[n]? = some task.request := hcase.durable
  obtain ⟨_, _, hattempted, hgroups⟩ := h.recorded.attempt_again
    hcase.active hdurable hdoc hcase.admitted hcase.storage hcase.authorization
  constructor
  · obtain ⟨-, hlast, hkey⟩ := hrowOf.sequence
    obtain ⟨hclient, hupdate⟩ := Prod.mk.inj hkey
    exact ⟨row, List.mem_of_find?_eq_some hexisting, hclient, hupdate, hlast⟩
  · refine ⟨server.attempt config position task (config.roomAt doc n) verdicts, ?_, ?_⟩
    · rw [Server.step, htask, okOr_some, ok_bind, hroom, hphase]
      rfl
    · rw [Server.attempt, hattempted]
      exact ⟨rfl, hgroups⟩

/-- The characters that a document lacks. -/
def newCharacters (doc update : List UInt8) : List UInt8 :=
  update.filter fun byte => !doc.contains byte

theorem applied_newCharacters (update : List UInt8) :
    some ([] ++ newCharacters [] update) = some update :=
  congrArg some (List.filter_eq_self.mpr fun _ _ => rfl)

theorem marked_ne_nil (doc : List UInt8) : 0 :: doc ≠ [] := List.cons_ne_nil _ _

/-- A document to which characters are added once. -/
def growOnly : Yjs where
  Doc := List UInt8
  Update := List UInt8
  new := []
  push doc _ text := doc ++ text
  getString doc := doc
  encodeStateAsUpdate doc := 0 :: doc
  encodeStateVector doc := [UInt8.ofNat doc.length]
  decodeUpdate bytes := bytes.tail?
  applyUpdate doc update := some (doc ++ newCharacters doc update)
  apply_encodeState := applied_newCharacters
  encodeState_ne_nil := marked_ne_nil

/-- A room whose base version is the text `a`. -/
def letterRoom : RoomConfig growOnly where
  blake3 bytes := Vector.replicate 32 (UInt8.ofNat bytes.length)
  limits := ⟨16384, 16384, 2097152⟩
  source := [97]
  baseClientId := 1
  invocation _ _ _ := true

def addLetter : UpdateRequest := ⟨7, 8, none, 0, [[0, 98]]⟩

def allowed : Verdicts := ⟨true, .ok (), .ok (), true⟩

/-- The client has sent its group to two servers; the first has made it durable. -/
def sentTwice : List ServerEvent :=
  [.load true, .load true, .receive 0 addLetter true, .receive 1 addLetter true,
    .attempt 0 allowed]

theorem sentTwice_meets : Meets (Server.step letterRoom) (Reliable letterRoom)
    (Server.start growOnly) sentTwice := by
  decide +kernel

/-- The second server acknowledges the group with the same sequence. -/
theorem second_server_acknowledges :
    ∃ server', (run (Server.step letterRoom) (Server.start growOnly)
        sentTwice).step letterRoom (.attempt 0 allowed) = .ok server' ∧
      server'.replies = [(addLetter, .ok 1), (addLetter, .ok 1)] := by
  have hcase : Unreplayed letterRoom (run (Server.step letterRoom) (Server.start growOnly)
      sentTwice) 0 0 addLetter allowed :=
    { durable := rfl
      active := rfl
      task := ⟨_, _, rfl, rfl, rfl, rfl, rfl, rfl⟩
      admitted := rfl
      storage := rfl
      authorization := rfl }
  obtain ⟨-, hagain⟩ := durable_group_is_acknowledged_again sentTwice_meets
  obtain ⟨-, server', hstep, hreplies, -⟩ := hagain 0 0 addLetter allowed hcase
  exact ⟨server', hstep, hreplies⟩

/-- The group is sent to the same server again, which answers with an error. -/
theorem resubmitted_group_is_refused :
    (run (Server.step letterRoom) (Server.start growOnly)
      [.load true, .receive 0 addLetter true, .attempt 0 allowed, .receive 0 addLetter true,
        .attempt 0 allowed]).replies =
      [(addLetter, .ok 1), (addLetter, .error .unavailable)] := by
  rfl

/-- In every run, replicas of an active epoch at one sequence hold one document: the base
document after the groups up to it.  A kept snapshot encodes the document of its sequence. -/
theorem replicas_agree {events : List ServerEvent}
    (hevents : Meets (Server.step config) (Reliable config) (Server.start Y) events) :
    let server := run (Server.step config) (Server.start Y) events
    (∀ row ∈ server.epoch.snapshots, row.superseded = false →
      SnapshotOf config server.epoch server.journal row) ∧
    (server.epoch.active → ∀ i j room room', server.room i = some room →
      server.room j = some room' → room.serverSequence ≤ server.epoch.durableSequence ∧
        config.docAt server.journal room.serverSequence = some room.doc ∧
        (room.serverSequence = room'.serverSequence → room = room')) := by
  intro server
  have h : Historical config server := historical_run hevents
  refine ⟨h.recorded.snapshots, fun hactive i j _ _ hi hj => ?_⟩
  obtain ⟨_, n, rfl, hdoc, hn⟩ := h.room_current hi hactive
  obtain ⟨_, n', rfl, hdoc', -⟩ := h.room_current hj hactive
  refine ⟨h.recorded.durableSequence ▸ hn, hdoc, fun heq => ?_⟩
  obtain rfl : n = n' := heq
  rw [Option.some.inj (hdoc.symm.trans hdoc')]

theorem sentTwice_agrees : letterRoom.docAt (run (Server.step letterRoom)
    (Server.start growOnly) sentTwice).journal 1 = some [97, 98] :=
  ((replicas_agree sentTwice_meets).2 rfl 0 1 _ _ rfl rfl).2.1

end FileBelt.Collaboration
