import FileBelt.Collaboration.CatchUp
import FileBelt.Collaboration.Replicas

/-!
# Runs of the replicas

In every state that the servers reach, the epoch is recorded in the journal, and
the document of a replica at sequence `n` is the base document after the first
`n` entries, as long as the room is not frozen.
-/

namespace FileBelt.Collaboration

open Support

/-! ## Attempts -/

variable {snapshot : PendingSnapshot} {journal : List UpdateRequest} {request : UpdateRequest}
  {epoch epoch' : Epoch}

section

variable {Y : Yjs} (config : RoomConfig Y)

/-- What an attempt can come to: nothing, the group that is there already, or
the next group of the journal. -/
inductive Attempted (epoch : Epoch) (journal : List UpdateRequest)
    (room : RoomDocument Y) (request : UpdateRequest) :
    Epoch × RoomDocument Y × AttemptOutcome → Prop
  | refused {epoch' : Epoch} {outcome : AttemptOutcome} (h : epoch.SameRows epoch')
      (houtcome : ∀ last, outcome ≠ .acknowledged last)
      (hbase : epoch.active → outcome = .stale → request.baseSequence ≤ journal.length) :
      Attempted epoch journal room request (epoch', room, outcome)
  | found {epoch' : Epoch} {room' : RoomDocument Y} {last : ℕ}
      (h : epoch.SameRows epoch') (hroom : config.Current journal room') :
      Attempted epoch journal room request (epoch', room', .acknowledged last)
  | inserted {receipt : ApplyReceipt} {room' : RoomDocument Y}
      (h : Recorded config (epoch.insertGroup config request receipt) (journal ++ [request]))
      (hroom : config.Current (journal ++ [request]) room') :
      Attempted epoch journal room request (epoch.insertGroup config request receipt, room',
          .acknowledged (journal.length + 1))

variable {config} {epoch : Epoch} {journal : List UpdateRequest}
  {room : RoomDocument Y} {task : UpdateTask} {verdicts : Verdicts}

/-- The digest does not confuse the group with another one. -/
def Distinguished (config : RoomConfig Y) (journal : List UpdateRequest)
    (request : UpdateRequest) : Prop :=
  ∀ other ∈ journal, config.blake3 other.chunks.flatten = config.blake3 request.chunks.flatten →
      other.chunks.flatten = request.chunks.flatten

instance (config : RoomConfig Y) (journal : List UpdateRequest) :
    DecidablePred (Distinguished config journal) := fun _ =>
  inferInstanceAs (Decidable (∀ _ ∈ journal, _ → _))

theorem Recorded.found_current (h : Recorded config epoch journal) {doc : Y.Doc} {n : ℕ}
    {row : UpdateGroupRow} {staged : StagedUpdate Y}
    (hdistinct : Distinguished config journal request) (hn : n ≤ journal.length)
    (hdoc : config.docAt journal n = some doc)
    (hstaged : (config.roomAt doc n).stageGroup config.blake3 request.chunks = .ok staged)
    (hrow : row ∈ epoch.groups) (hbytes : ∀ object, epoch.object row.objectId = some object →
      config.blake3 object.bytes = config.blake3 request.chunks.flatten)
    (hsame : staged.receipt.firstSequence = row.firstSequence) :
    config.Current journal (config.roomAt staged.doc (n + 1)) := by
  have hbounded := h.bounded
  obtain ⟨m, other, hother, hlt, hrowOf⟩ := h.exists_entry hrow
  have hnm : n = m := by
    have hrowFirst := hrowOf.sequence.1
    have hfirst := (RoomConfig.stageGroup_roomAt (by omega) hstaged).1
    omega
  subst hnm
  have hflatten : other.chunks.flatten = request.chunks.flatten := by
    obtain ⟨object, hobject, hstored⟩ := hrowOf.object
    have hdigest := hbytes object hobject
    rw [hstored] at hdigest
    exact hdistinct other (List.mem_of_getElem? hother) hdigest
  refine ⟨staged.doc, n + 1, rfl, RoomConfig.docAt_succ hother hdoc ?_, hlt⟩
  rw [hflatten]
  exact (stageGroup_spec hstaged).1

theorem Attempted.failed {error : SessionError} (h : epoch.SameRows epoch') :
    Attempted config epoch journal room request (epoch', room, .failed error) :=
  .refused h (fun _ heq => by cases heq) fun _ heq => by cases heq

theorem Recorded.attempted (h : Recorded config epoch journal)
    (hroom : epoch.active → config.Current journal room)
    (hbase : epoch.active → 0 < task.persistenceAttempts →
      task.request.baseSequence ≤ journal.length)
    (hdistinct : Distinguished config journal task.request) :
    Attempted config epoch journal room task.request
      (attemptUpdate config verdicts epoch room task) := by
  rw [attemptUpdate]
  by_cases hlate : task.persistenceAttempts = 0 ∧ room.serverSequence < task.request.baseSequence
  · rw [if_pos hlate]
    exact .failed (.refl epoch)
  have hle : epoch.active → task.request.baseSequence ≤ journal.length := by
    intro hactive
    by_cases hfirst : task.persistenceAttempts = 0
    · obtain ⟨doc, n, rfl, -, hn⟩ := hroom hactive
      exact (Nat.not_lt.mp fun hlt => hlate ⟨hfirst, hlt⟩).trans hn
    · exact hbase hactive (Nat.pos_of_ne_zero hfirst)
  rw [if_neg hlate]
  split
  · exact .failed (.refl epoch)
  · cases hstaged : room.stageGroup config.blake3 task.request.chunks with
    | error => exact .failed (.refl epoch)
    | ok staged =>
      dsimp only
      have hpersisted : Persisted config epoch task.request staged.receipt
          room.serverSequence (ioPersistUpdateGroup config verdicts epoch
            task.request staged.receipt room.serverSequence) :=
        persisted_ioPersistUpdateGroup h.fresh
      generalize ioPersistUpdateGroup config verdicts epoch task.request
        staged.receipt room.serverSequence = persisted at hpersisted ⊢
      cases hpersisted with
      | failed hsame =>
        split
        · next heq => cases heq
        · split
          · exact .failed hsame
          · exact .refused hsame (fun _ heq => by cases heq) fun hactive _ => hle hactive
        · exact .failed hsame
      | @found epoch' row hsame hactive hrow hbytes =>
        obtain ⟨doc, n, rfl, hdoc, hn⟩ := hroom hactive
        dsimp only
        split
        · exact .failed hsame
        · next hsequence =>
          rw [not_or, not_not] at hsequence
          have hcurrent := h.found_current hdistinct hn hdoc hstaged
            (List.mem_of_find?_eq_some hrow) hbytes hsequence.1
          rw [(RoomConfig.stageGroup_roomAt (hn.trans_lt h.bounded) hstaged).2.2]
          exact .found hsame hcurrent
      | inserted hactive hnone hsequence hbound hinsertable =>
        obtain ⟨_, n, rfl, hdoc, -⟩ := hroom hactive
        have hdurable := h.durableSequence
        obtain rfl : n = journal.length := hsequence.trans hdurable
        obtain ⟨hfirst, hlast, hcommit⟩ := RoomConfig.stageGroup_roomAt h.bounded hstaged
        have hrecorded := h.insertGroup hdoc hstaged hinsertable (hle hactive) hnone hbound
        dsimp only
        rw [hfirst, hlast, hdurable, if_neg (by simp), hcommit]
        dsimp only
        rw [hlast]
        refine .inserted hrecorded ⟨staged.doc, journal.length + 1, rfl, ?_, ?_⟩
        · exact RoomConfig.docAt_succ List.getElem?_concat_length
            ((RoomConfig.docAt_append le_rfl _).trans hdoc) (stageGroup_spec hstaged).1
        · rw [List.length_append, List.length_singleton]

end

/-! ## Steps -/

variable {Y : Yjs} (config : RoomConfig Y)

/-- A pending snapshot is the state at its sequence. -/
def PendingOf (journal : List UpdateRequest) (snapshot : PendingSnapshot) : Prop :=
  ∃ doc, config.docAt journal snapshot.coveredSequence = some doc ∧
    snapshot.snapshot = Y.encodeStateAsUpdate doc ∧
    snapshot.coveredSequence ≤ journal.length

theorem PendingOf.append {config : RoomConfig Y} (h : PendingOf config journal snapshot)
    (more : List UpdateRequest) : PendingOf config (journal ++ more) snapshot := by
  obtain ⟨doc, hdoc, hencoded, hle⟩ := h
  refine ⟨doc, ?_, hencoded, ?_⟩
  · rw [RoomConfig.docAt_append hle, hdoc]
  · rw [List.length_append]
    omega

/-- The epoch is recorded in the journal, and what is in memory agrees with it
while the room is not frozen. -/
structure Historical (server : Server Y) : Prop where
  recorded : Recorded config server.epoch server.journal
  replicas : server.epoch.active → ∀ room, some room ∈ server.replicas →
    config.Current server.journal room
  tasks : server.epoch.active → ∀ task ∈ server.tasks,
    0 < task.persistenceAttempts → task.request.baseSequence ≤ server.journal.length
  pending : ∀ snapshot ∈ server.pending, PendingOf config server.journal snapshot

variable {config} {server server' : Server Y}

theorem Historical.start : Historical config (Server.start Y) where
  recorded :=
    { fresh := fun _ h => by cases h
      bounded := show 0 < 2 ^ 63 by decide
      durableSequence := rfl
      length := rfl
      rows := fun _ _ _ h => by cases h
      keys := List.nodup_nil
      snapshots := fun _ h => by cases h }
  replicas _ _ h := by cases h
  tasks _ _ h := by cases h
  pending _ h := by cases h

namespace Historical

variable {replica position index : ℕ} {room : RoomDocument Y} {task : UpdateTask}
  (h : Historical config server)
include h

theorem room_current (hroom : server.room replica = some room)
    (hactive : server.epoch.active) : config.Current server.journal room := by
  apply h.replicas hactive
  apply List.mem_of_getElem?
  rw [Server.room, Option.join_eq_some_iff] at hroom
  exact hroom

/-- A room is replaced, with an epoch that records a longer journal. -/
theorem setRoom (replica : ℕ) (hjournal : server.journal <+: journal)
    (hrecorded : Recorded config epoch journal)
    (hactive : epoch.active → server.epoch.active)
    (hroom : epoch.active → config.Current journal room) : Historical config
      ({ server with epoch := epoch, journal := journal }.setRoom replica room) := by
  obtain ⟨more, rfl⟩ := hjournal
  constructor
  · exact hrecorded
  · intro hopen other hother
    rcases List.mem_or_eq_of_mem_set hother with hold | hnew
    · exact (h.replicas (hactive hopen) other hold).append more
    · obtain rfl := Option.some.inj hnew
      exact hroom hopen
  · intro hopen task htask hattempts
    exact (h.tasks (hactive hopen) task htask hattempts).trans (List.prefix_append _ more).length_le
  · intro snapshot hsnapshot
    exact (h.pending snapshot hsnapshot).append more

theorem catchUp (hroom : server.room replica = some room) :
    Historical config (server.catchUp config replica room true).1 := by
  rcases h.recorded.catchUpRoom_cases (h.room_current hroom) with
    ⟨room', heq, hcurrent⟩ | ⟨room', error, heq⟩
  · rw [Server.catchUp, heq]
    exact h.setRoom replica (List.prefix_refl _) h.recorded id hcurrent
  · rw [Server.catchUp, heq]
    exact h.setRoom replica (List.prefix_refl _) h.recorded.freeze
      (fun hfrozen => by cases hfrozen) (fun hfrozen => by cases hfrozen)

theorem reply (request : UpdateRequest)
    (answer : Except SessionError ℕ) : Historical config (server.reply request answer) :=
  ⟨h.recorded, h.replicas, h.tasks, h.pending⟩

theorem setTasks {tasks : List UpdateTask} (htasks : server.epoch.active → ∀ task ∈ tasks,
      0 < task.persistenceAttempts → task.request.baseSequence ≤ server.journal.length) :
    Historical config { server with tasks := tasks } :=
  ⟨h.recorded, h.replicas, htasks, h.pending⟩

theorem eraseTask (position : ℕ) :
    Historical config { server with tasks := server.tasks.eraseIdx position } :=
  h.setTasks fun hactive task htask =>
    h.tasks hactive task (List.mem_of_mem_eraseIdx htask)

theorem setTask (position : ℕ) (htask : server.epoch.active → 0 < task.persistenceAttempts →
      task.request.baseSequence ≤ server.journal.length) :
    Historical config { server with tasks := server.tasks.set position task } := by
  apply h.setTasks
  intro hactive other hother
  rcases List.mem_or_eq_of_mem_set hother with hold | rfl
  · exact h.tasks hactive other hold
  · exact htask hactive

theorem addSnapshot (hroom : config.Current server.journal room) :
    Historical config { server with pending := server.pending ++ Server.snapshotDue room } := by
  refine ⟨h.recorded, h.replicas, h.tasks, ?_⟩
  intro snapshot hsnapshot
  rcases List.mem_append.mp hsnapshot with hold | hnew
  · exact h.pending snapshot hold
  · obtain ⟨doc, _, rfl, hdoc, hn⟩ := hroom
    rw [Server.snapshotDue] at hnew
    split at hnew
    · rw [List.mem_singleton.mp hnew]
      exact ⟨doc, hdoc, rfl, hn⟩
    · cases hnew

theorem attempt (verdicts : Verdicts) (htask : server.tasks[position]? = some task)
    (hroom : server.room task.replica = some room)
    (hdistinct : Distinguished config server.journal task.request) :
    Historical config (server.attempt config position task room verdicts) := by
  have hattempted : Attempted config server.epoch server.journal room task.request
      (attemptUpdate config verdicts server.epoch room task) :=
    h.recorded.attempted (h.room_current hroom)
      (fun hactive => h.tasks hactive task (List.mem_of_getElem? htask)) hdistinct
  rw [Server.attempt]
  generalize attemptUpdate config verdicts server.epoch room task = attempted at hattempted ⊢
  cases hattempted with
  | @refused epoch' outcome hsame houtcome hbase =>
    rw [if_pos (congrArg List.length hsame.groups)]
    have hafter := h.setRoom task.replica (List.prefix_refl _)
      (h.recorded.sameRows hsame) (fun hactive => hsame.active ▸ hactive)
      (fun hactive => h.room_current hroom (hsame.active ▸ hactive))
    cases outcome with
    | acknowledged lastSequence => exact absurd rfl (houtcome lastSequence)
    | stale =>
      apply hafter.setTask
      intro hactive _
      exact hbase (hsame.active ▸ hactive) rfl
    | failed => exact (hafter.eraseTask position).reply _ _
  | found hsame hcurrent =>
    rw [if_pos (congrArg List.length hsame.groups)]
    have hafter := h.setRoom task.replica (List.prefix_refl _)
      (h.recorded.sameRows hsame) (fun hactive => hsame.active ▸ hactive)
      (fun _ => hcurrent)
    exact ((hafter.addSnapshot hcurrent).eraseTask position).reply _ _
  | inserted hrecorded hcurrent =>
    rw [if_neg (by simp [Epoch.insertGroup])]
    have hafter := h.setRoom task.replica (List.prefix_append _ _) hrecorded id (fun _ => hcurrent)
    exact ((hafter.addSnapshot hcurrent).eraseTask position).reply _ _

theorem resume (htask : server.tasks[position]? = some task)
    (hroom : server.room task.replica = some room) :
    Historical config (server.resume config position task room true) := by
  have hafter := h.catchUp hroom
  have hmem : task ∈ (server.catchUp config task.replica room true).1.tasks :=
    List.mem_of_getElem? htask
  rw [Server.resume]
  generalize server.catchUp config task.replica room true = caught at hafter hmem ⊢
  obtain ⟨_, answer⟩ := caught
  cases answer with
  | ok =>
    apply hafter.setTask
    intro hactive
    exact hafter.tasks hactive task hmem
  | error => exact (hafter.eraseTask position).reply _ _

theorem receive (request : UpdateRequest) (hroom : server.room replica = some room) :
    Historical config (server.receive config replica room request true) := by
  have hafter := h.catchUp hroom
  rw [Server.receive]
  generalize server.catchUp config replica room true = caught at hafter ⊢
  obtain ⟨_, answer⟩ := caught
  split
  · exact h.reply _ _
  · cases answer with
    | ok =>
      apply hafter.setTasks
      intro hactive task htask hattempts
      rcases List.mem_append.mp htask with hold | hnew
      · exact hafter.tasks hactive task hold hattempts
      · rw [List.mem_singleton.mp hnew] at hattempts
        exact absurd hattempts (Nat.lt_irrefl 0)
    | error => exact hafter.reply _ _

theorem setEpoch (hrecorded : Recorded config epoch server.journal)
    (hactive : epoch.active → server.epoch.active) :
    Historical config { server with epoch := epoch } :=
  ⟨hrecorded, fun hopen => h.replicas (hactive hopen),
    fun hopen => h.tasks (hactive hopen), h.pending⟩

theorem dropSnapshot (index : ℕ) :
    Historical config { server with pending := server.pending.eraseIdx index } :=
  ⟨h.recorded, h.replicas, h.tasks, fun snapshot hsnapshot =>
    h.pending snapshot (List.mem_of_mem_eraseIdx hsnapshot)⟩

theorem persistSnapshot (verdicts : Verdicts) (hsnapshot : server.pending[index]? = some snapshot) :
    Historical config (server.persistSnapshot index snapshot verdicts) := by
  have hdropped := h.dropSnapshot index
  have hpending := h.pending snapshot (List.mem_of_getElem? hsnapshot)
  have hstored : server.epoch.SameRows
      (server.epoch.store .snapshot snapshot.snapshot) := .store _ _ _
  rw [Server.persistSnapshot]
  cases verdicts.storage with
  | error => exact hdropped
  | ok =>
    dsimp only
    split
    · exact hdropped
    · cases hcommitted : commitSnapshot verdicts.authorization
          (server.epoch.store .snapshot snapshot.snapshot)
          server.epoch.nextObject snapshot.coveredSequence
          snapshot.stateVector with
      | error error =>
        exact hdropped.setEpoch (h.recorded.sameRows hstored.abandon) id
      | ok epoch =>
        obtain ⟨_, rfl⟩ := eq_of_commitSnapshot hcommitted
        refine hdropped.setEpoch ?_ id
        apply (h.recorded.sameRows hstored).coverBy
        obtain ⟨doc, hdoc, hencoded, hle⟩ := hpending
        exact ⟨_, doc, Epoch.object_store h.recorded.fresh _ _, hdoc, hencoded, hle⟩

theorem load (hroom : loadRoom config server.epoch = .ok room) :
    Historical config { server with replicas := server.replicas ++ [some room] } := by
  refine ⟨h.recorded, ?_, h.tasks, h.pending⟩
  intro hactive other hother
  rcases List.mem_append.mp hother with hold | hnew
  · exact h.replicas hactive other hold
  · obtain rfl := Option.some.inj (List.mem_singleton.mp hnew)
    exact h.recorded.loadRoom hroom

end Historical

/-- The digest tells the group of an attempt from those that are durable, and after a group
that cannot be replayed the room is frozen. -/
def Reliable (config : RoomConfig Y) (server : Server Y) : ServerEvent → Prop
  | .attempt position verdicts => verdicts.freezes ∧ ∀ task ∈ server.tasks[position]?,
      Distinguished config server.journal task.request
  | .catchUp _ freezes | .receive _ _ freezes => freezes
  | _ => True

instance (config : RoomConfig Y) (server : Server Y) (event : ServerEvent) :
    Decidable (Reliable config server event) :=
  match event with
  | .attempt position _ =>
    @instDecidableAnd _ _ inferInstance (Option.decidableForallMem server.tasks[position]?)
  | .catchUp _ freezes | .receive _ _ freezes => inferInstanceAs (Decidable (freezes = true))
  | .load _ | .unload _ | .commitSnapshot _ _ | .freeze => isTrue trivial

theorem Historical.step {event : ServerEvent} (h : Historical config server)
    (hevent : Reliable config server event) (hstep : server.step config event = .ok server') :
    Historical config server' := by
  cases event with
  | load freezes =>
    rw [Server.step] at hstep
    split at hstep
    · next hroom =>
      cases hstep
      exact h.load hroom
    · cases hstep
      cases freezes with
      | false => exact h
      | true => exact h.setEpoch h.recorded.freeze fun hfrozen => by cases hfrozen
  | unload =>
    cases hstep
    refine ⟨h.recorded, ?_, h.tasks, h.pending⟩
    intro hactive room hroom
    rcases List.mem_or_eq_of_mem_set hroom with hold | hnone
    · exact h.replicas hactive room hold
    · cases hnone
  | catchUp =>
    obtain ⟨room, hroom, heq⟩ := bind_eq_ok hstep
    cases hevent
    cases heq
    exact h.catchUp (okOr_eq_ok hroom)
  | receive replica request =>
    obtain ⟨room, hroom, heq⟩ := bind_eq_ok hstep
    cases hevent
    cases heq
    exact h.receive request (okOr_eq_ok hroom)
  | attempt position verdicts =>
    obtain ⟨task, htask, hstep⟩ := bind_eq_ok hstep
    obtain ⟨_, hroom, hstep⟩ := bind_eq_ok hstep
    have htask := okOr_eq_ok htask
    have hroom := okOr_eq_ok hroom
    split at hstep
    · cases hstep
      exact h.attempt verdicts htask hroom (hevent.2 task htask)
    · rw [hevent.1] at hstep
      cases hstep
      exact h.resume htask hroom
  | commitSnapshot index verdicts =>
    obtain ⟨_, hsnapshot, heq⟩ := bind_eq_ok hstep
    cases heq
    exact h.persistSnapshot verdicts (okOr_eq_ok hsnapshot)
  | freeze =>
    cases hstep
    exact h.setEpoch h.recorded.freeze fun hfrozen => by cases hfrozen

theorem historical_run {events : List ServerEvent}
    (hevents : Meets (Server.step config) (Reliable config) (Server.start Y) events) :
    Historical config (run (Server.step config) (Server.start Y) events) :=
  run_invariant (fun _ _ _ h hevent hstep => h.step hevent hstep) Historical.start hevents

end FileBelt.Collaboration
