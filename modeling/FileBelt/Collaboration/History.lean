import FileBelt.Collaboration.Persist
import FileBelt.Support.Replay

/-!
# The history of a room

Every group that became durable is the journal entry of its sequence, and a
snapshot holds the document of the sequence that it covers.
-/

namespace FileBelt.Collaboration

open Support

variable {request : UpdateRequest} {row snapshot : SnapshotRow} {n coveredSequence : ℕ}

namespace RoomConfig

variable {Y : Yjs} (config : RoomConfig Y)

/-- The document that a room without snapshot starts from. -/
def baseDoc : Y.Doc := Y.push Y.new config.baseClientId config.source

/-- The document after the first `n` groups of the journal. -/
def docAt (journal : List UpdateRequest) (n : ℕ) : Option Y.Doc :=
  stateAt (fun doc request => Y.applyEncoded doc request.chunks.flatten) config.baseDoc journal n

/-- A room in memory at a sequence. -/
def roomAt (doc : Y.Doc) (n : ℕ) : RoomDocument Y where
  doc := doc
  limits := config.limits
  serverSequence := n
  frozen := none

/-- The room holds the document of its sequence. -/
def Current (journal : List UpdateRequest) (room : RoomDocument Y) : Prop :=
  ∃ doc n, room = config.roomAt doc n ∧ config.docAt journal n = some doc ∧ n ≤ journal.length

variable {config} {journal : List UpdateRequest}

theorem docAt_append (h : n ≤ journal.length) (more : List UpdateRequest) :
    config.docAt (journal ++ more) n = config.docAt journal n :=
  stateAt_append h more

theorem Current.append {room : RoomDocument Y} (h : config.Current journal room)
    (more : List UpdateRequest) : config.Current (journal ++ more) room := by
  obtain ⟨doc, n, hroom, hdoc, hn⟩ := h
  refine ⟨doc, n, hroom, ?_, ?_⟩
  · rw [docAt_append hn, hdoc]
  · rw [List.length_append]
    omega

theorem docAt_succ {doc doc' : Y.Doc} (hrequest : journal[n]? = some request)
    (hdoc : config.docAt journal n = some doc)
    (happly : Y.applyEncoded doc request.chunks.flatten = some doc') :
    config.docAt journal (n + 1) = some doc' := by
  rw [docAt, stateAt_succ hrequest]
  change (config.docAt journal n).bind _ = _
  rw [hdoc, Option.bind_some, happly]

/-- A group that is staged at a sequence has the next one. -/
theorem stageGroup_roomAt (hn : n < 2 ^ 63) {doc : Y.Doc} {chunks : List (List UInt8)}
    {staged : StagedUpdate Y}
    (hstaged : (config.roomAt doc n).stageGroup config.blake3 chunks = .ok staged) :
    staged.receipt.firstSequence = n + 1 ∧ staged.receipt.lastSequence = n + 1 ∧
      (config.roomAt doc n).commitStaged staged =
        .ok (config.roomAt staged.doc (n + 1), staged.receipt) := by
  obtain ⟨-, hfirst, hlast⟩ := stageGroup_spec hstaged
  have hcommit := commitStaged_eq hstaged
  have hnext : saturatingAddU64 (config.roomAt doc n).serverSequence 1 = n + 1 :=
    saturatingAddU64_one hn
  rw [hnext] at hfirst hlast hcommit
  exact ⟨hfirst, hlast, hcommit⟩

end RoomConfig

def UpdateRequest.key (request : UpdateRequest) : Uuid × Uuid :=
  (request.clientId, request.clientUpdateId)

variable {Y : Yjs} (config : RoomConfig Y)

/-- The row is the group at position `n`, staged on the document of the groups before it. -/
structure RowOf (epoch : Epoch) (journal : List UpdateRequest) (n : ℕ)
    (request : UpdateRequest) (row : UpdateGroupRow) : Prop where
  object : ∃ object, epoch.object row.objectId = some object ∧ object.bytes = request.chunks.flatten
  staged : ∃ doc staged, config.docAt journal n = some doc ∧
    (config.roomAt doc n).stageGroup config.blake3 request.chunks = .ok staged ∧
    Insertable config request staged.receipt ∧
    row = (persistInput config request staged.receipt n row.objectId).row (n + 1)
  base : request.baseSequence ≤ n

/-- The object of a snapshot row holds the state at its sequence. -/
def SnapshotOf (epoch : Epoch) (journal : List UpdateRequest) (row : SnapshotRow) : Prop :=
  ∃ object doc, epoch.object row.objectId = some object ∧
    config.docAt journal row.coveredSequence = some doc ∧
    object.bytes = Y.encodeStateAsUpdate doc ∧
    row.coveredSequence ≤ journal.length

/-- The rows of the epoch are those of the journal. -/
structure Recorded (epoch : Epoch) (journal : List UpdateRequest) : Prop where
  fresh : epoch.Fresh
  bounded : journal.length < 2 ^ 63
  durableSequence : epoch.durableSequence = journal.length
  length : epoch.groups.length = journal.length
  rows : ∀ n request row, journal[n]? = some request →
    epoch.groups[n]? = some row → RowOf config epoch journal n request row
  keys : (journal.map UpdateRequest.key).Nodup
  snapshots : ∀ row ∈ epoch.snapshots, row.superseded = false → SnapshotOf config epoch journal row

variable {config} {epoch epoch' epoch'' : Epoch} {journal : List UpdateRequest}

def Epoch.KeepsBytes (epoch epoch' : Epoch) : Prop :=
  ∀ id object, epoch.object id = some object →
    ∃ object', epoch'.object id = some object' ∧ object'.bytes = object.bytes

theorem Epoch.KeepsBytes.trans (h : epoch.KeepsBytes epoch') (h' : epoch'.KeepsBytes epoch'') :
    epoch.KeepsBytes epoch'' := by
  intro id object hobject
  obtain ⟨object', hobject', hbytes⟩ := h id object hobject
  obtain ⟨object'', hobject'', hbytes'⟩ := h' id object' hobject'
  exact ⟨object'', hobject'', hbytes'.trans hbytes⟩

theorem Epoch.keepsBytes_setDurable (p : Uuid → Bool) (state : ObjectState) :
    epoch.KeepsBytes (epoch.setDurable p state) := by
  intro id object hobject
  rw [Epoch.object_setDurable, hobject, Option.map_some]
  refine ⟨_, rfl, ?_⟩
  split
  · rfl
  · rfl

theorem Epoch.Fresh.supersedeCovered (h : epoch.Fresh) (current : Option SnapshotRow)
    (coveredSequence : ℕ) : (epoch.supersedeCovered current coveredSequence).Fresh :=
  (h.setDurable _ _).setDurable _ _

theorem Epoch.keepsBytes_supersedeCovered (current : Option SnapshotRow) (coveredSequence : ℕ) :
    epoch.KeepsBytes (epoch.supersedeCovered current coveredSequence) :=
  (Epoch.keepsBytes_setDurable _ _).trans (Epoch.keepsBytes_setDurable _ _)

theorem Epoch.SameRows.keepsBytes (h : epoch.SameRows epoch')
    (hfresh : epoch.Fresh) : epoch.KeepsBytes epoch' := by
  intro id object hobject
  have hlt := hfresh object (Epoch.mem_of_object hobject)
  rw [Epoch.id_of_object hobject] at hlt
  exact ⟨object, (h.object id hlt).trans hobject, rfl⟩

theorem RowOf.mono {row : UpdateGroupRow} (h : RowOf config epoch journal n request row)
    (hbytes : epoch.KeepsBytes epoch') (hn : n ≤ journal.length) (more : List UpdateRequest) :
    RowOf config epoch' (journal ++ more) n request row := by
  obtain ⟨object, hobject, hflatten⟩ := h.object
  obtain ⟨object', hobject', hsame⟩ := hbytes _ object hobject
  refine ⟨⟨object', hobject', hsame.trans hflatten⟩, ?_, h.base⟩
  rw [RoomConfig.docAt_append hn]
  exact h.staged

theorem RowOf.sequence {row : UpdateGroupRow} (h : RowOf config epoch journal n request row) :
    row.firstSequence = n + 1 ∧ row.lastSequence = n + 1 ∧
      (row.clientId, row.clientUpdateId) = request.key := by
  obtain ⟨_, _, -, -, -, hrow⟩ := h.staged
  rw [hrow]
  exact ⟨rfl, rfl, rfl⟩

theorem SnapshotOf.mono (h : SnapshotOf config epoch journal row) (hbytes : epoch.KeepsBytes epoch')
    (more : List UpdateRequest) : SnapshotOf config epoch' (journal ++ more) row := by
  obtain ⟨object, doc, hobject, hdoc, hencoded, hle⟩ := h
  obtain ⟨object', hobject', hsame⟩ := hbytes _ object hobject
  refine ⟨object', doc, hobject', ?_, hsame.trans hencoded, ?_⟩
  · rw [RoomConfig.docAt_append hle, hdoc]
  · rw [List.length_append]
    omega

theorem SnapshotOf.keep (h : SnapshotOf config epoch journal row)
    (hbytes : epoch.KeepsBytes epoch') : SnapshotOf config epoch' journal row := by
  have hmono := h.mono hbytes []
  rwa [List.append_nil] at hmono

namespace Recorded

variable (h : Recorded config epoch journal)
include h

theorem keep (hfresh : epoch'.Fresh) (hbytes : epoch.KeepsBytes epoch')
    (hdurable : epoch'.durableSequence = epoch.durableSequence)
    (hgroups : epoch'.groups = epoch.groups)
    (hsnapshots : ∀ row ∈ epoch'.snapshots, row.superseded = false →
      SnapshotOf config epoch' journal row) : Recorded config epoch' journal where
  fresh := hfresh
  bounded := h.bounded
  durableSequence := hdurable.trans h.durableSequence
  length := by rw [hgroups, h.length]
  rows n request row hrequest hrow := by
    rw [hgroups] at hrow
    have hn := (List.getElem?_eq_some_iff.mp hrequest).1
    have hmono := (h.rows n request row hrequest hrow).mono hbytes hn.le []
    rw [List.append_nil] at hmono
    exact hmono
  keys := h.keys
  snapshots := hsnapshots

theorem sameRows (hsame : epoch.SameRows epoch') : Recorded config epoch' journal := by
  have hbytes := hsame.keepsBytes h.fresh
  apply h.keep (hsame.fresh h.fresh) hbytes hsame.durableSequence hsame.groups
  intro row hrow hcurrent
  rw [hsame.snapshots] at hrow
  exact (h.snapshots row hrow hcurrent).keep hbytes

theorem freeze : Recorded config epoch.freeze journal :=
  h.keep h.fresh (fun _ object hobject => ⟨object, hobject, rfl⟩) rfl rfl h.snapshots

theorem exists_row (hrequest : journal[n]? = some request) : ∃ row, epoch.groups[n]? = some row ∧
      RowOf config epoch journal n request row := by
  have hn := (List.getElem?_eq_some_iff.mp hrequest).1
  obtain ⟨row, hrow⟩ : ∃ row, epoch.groups[n]? = some row :=
    ⟨_, List.getElem?_eq_getElem (h.length ▸ hn)⟩
  exact ⟨row, hrow, h.rows n request row hrequest hrow⟩

theorem exists_entry {row : UpdateGroupRow} (hrow : row ∈ epoch.groups) :
    ∃ m request, journal[m]? = some request ∧ m < journal.length ∧
      RowOf config epoch journal m request row := by
  obtain ⟨m, hm⟩ := List.getElem?_of_mem hrow
  have hlt : m < journal.length := by
    rw [← h.length]
    exact (List.getElem?_eq_some_iff.mp hm).1
  obtain ⟨request, hrequest⟩ : ∃ request, journal[m]? = some request :=
    ⟨_, List.getElem?_eq_getElem hlt⟩
  exact ⟨m, request, hrequest, hlt, h.rows m request row hrequest hm⟩

theorem key_not_mem (hnone : epoch.existing request.clientId request.clientUpdateId = none) :
    request.key ∉ journal.map UpdateRequest.key := by
  intro hmem
  obtain ⟨_, hother, hkey⟩ := List.mem_map.mp hmem
  obtain ⟨_, hn⟩ := List.getElem?_of_mem hother
  obtain ⟨row, hrow, hrowOf⟩ := h.exists_row hn
  refine List.find?_eq_none.mp hnone row (List.mem_of_getElem? hrow) ?_
  exact decide_eq_true (Prod.mk.inj (hrowOf.sequence.2.2.trans hkey))

theorem insertGroup {doc : Y.Doc} {staged : StagedUpdate Y}
    (hdoc : config.docAt journal journal.length = some doc)
    (hstaged : (config.roomAt doc journal.length).stageGroup config.blake3
      request.chunks = .ok staged) (hinsertable : Insertable config request staged.receipt)
    (hbase : request.baseSequence ≤ journal.length)
    (hnone : epoch.existing request.clientId request.clientUpdateId = none)
    (hbound : epoch.durableSequence + 1 < 2 ^ 63) :
    Recorded config (epoch.insertGroup config request staged.receipt) (journal ++ [request]) := by
  have hbytes : epoch.KeepsBytes (epoch.insertGroup config request staged.receipt) :=
    (Epoch.SameRows.store epoch .updateGroup request.chunks.flatten).keepsBytes h.fresh
  have hdurable := h.durableSequence
  have hlength := h.length
  refine ⟨h.fresh.store _ _, ?_, ?_, ?_, ?_, ?_, ?_⟩
  · rw [List.length_append, List.length_singleton]
    omega
  · change epoch.durableSequence + 1 = _
    rw [List.length_append, List.length_singleton, hdurable]
  · change (epoch.groups ++ [_]).length = _
    rw [List.length_append, List.length_append, List.length_singleton,
      List.length_singleton, hlength]
  · intro n other row hother hrow
    change (epoch.groups ++ [_])[n]? = some row at hrow
    by_cases hn : n < journal.length
    · rw [List.getElem?_append_left hn] at hother
      rw [List.getElem?_append_left (hlength ▸ hn)] at hrow
      exact (h.rows n other row hother hrow).mono hbytes hn.le [request]
    · -- the new row
      have hlast : n = journal.length := by
        have hlt := (List.getElem?_eq_some_iff.mp hother).1
        rw [List.length_append, List.length_singleton] at hlt
        omega
      subst hlast
      rw [List.getElem?_concat_length] at hother
      rw [← hlength, List.getElem?_concat_length] at hrow
      obtain rfl := Option.some.inj hother
      obtain rfl := Option.some.inj hrow
      refine ⟨⟨_, Epoch.object_store h.fresh _ _, rfl⟩, ?_, hbase⟩
      rw [RoomConfig.docAt_append le_rfl, hdurable]
      exact ⟨doc, staged, hdoc, hstaged, hinsertable, rfl⟩
  · rw [List.map_append, List.map_singleton]
    rw [← List.concat_eq_append]
    exact h.keys.concat (h.key_not_mem hnone)
  · intro row hrow hcurrent
    exact (h.snapshots row hrow hcurrent).mono hbytes [request]

theorem coverBy (current : Option SnapshotRow)
    (hsnapshot : SnapshotOf config epoch journal snapshot) :
    Recorded config (epoch.coverBy current snapshot) journal := by
  have hbytes : epoch.KeepsBytes (epoch.coverBy current snapshot) :=
    Epoch.keepsBytes_supersedeCovered current snapshot.coveredSequence
  have hfresh : (epoch.coverBy current snapshot).Fresh :=
    h.fresh.supersedeCovered current snapshot.coveredSequence
  apply h.keep hfresh hbytes rfl rfl
  intro row hrow hcurrent
  rcases List.mem_append.mp hrow with hold | hnew
  · obtain ⟨_, -, rfl⟩ := List.mem_map.mp hold
    cases hcurrent
  · rw [List.mem_singleton.mp hnew]
    exact hsnapshot.keep hbytes

end Recorded

theorem eq_of_commitSnapshot {authorization : Except DatabaseError Unit} {objectId : Uuid}
    {stateVector : List UInt8}
    (h : commitSnapshot authorization epoch objectId coveredSequence stateVector = .ok epoch') :
    ∃ current, epoch' = epoch.coverBy current ⟨objectId, coveredSequence, stateVector, false⟩ := by
  rw [commitSnapshot.eq_def] at h
  split at h
  · cases h
  split at h
  · cases h
  split at h
  · cases h
  split at h
  · cases h
  dsimp only at h
  split at h
  · cases h
  split at h
  · cases h
  cases h
  exact ⟨_, rfl⟩

theorem currentSnapshot_eq_some {object : CollaborationObject}
    (h : epoch.currentSnapshot = some (row, object)) :
    row ∈ epoch.snapshots ∧ row.superseded = false ∧ epoch.object row.objectId = some object := by
  obtain ⟨_, hfound, h⟩ := Option.bind_eq_some_iff.mp h
  obtain ⟨_, hstored, h⟩ := Option.bind_eq_some_iff.mp h
  obtain ⟨-, h⟩ := Option.ite_none_right_eq_some.mp h
  cases h
  have hopen := List.find?_some hfound
  exact ⟨List.mem_of_find?_eq_some hfound, of_decide_eq_true hopen, hstored⟩

theorem eq_of_fromSnapshot {bytes : List UInt8} {sequence : ℕ} {limits : CollaborationLimitConfig}
    {room : RoomDocument Y} {doc : Y.Doc} (hdoc : Y.applyEncoded Y.new bytes = some doc)
    (h : RoomDocument.fromSnapshot bytes sequence limits = .ok room) :
    room = ⟨doc, limits, sequence, none⟩ := by
  obtain ⟨-, h⟩ := else_of_ok h
  rw [hdoc, okOr_some, ok_bind] at h
  obtain ⟨-, -, h⟩ := bind_eq_ok h
  exact (Except.ok.inj h).symm

theorem Recorded.loadRoom (h : Recorded config epoch journal) {room : RoomDocument Y}
    (hroom : loadRoom config epoch = .ok room) : config.Current journal room := by
  rw [Collaboration.loadRoom] at hroom
  cases hcurrent : epoch.currentSnapshot with
  | none =>
    rw [hcurrent] at hroom
    obtain rfl := Except.ok.inj hroom
    exact ⟨config.baseDoc, 0, rfl, rfl, Nat.zero_le _⟩
  | some found =>
    obtain ⟨row, object⟩ := found
    rw [hcurrent] at hroom
    obtain ⟨hrow, hopen, hobject⟩ := currentSnapshot_eq_some hcurrent
    obtain ⟨object', doc, hobject', hdoc, hbytes, hle⟩ := h.snapshots row hrow hopen
    obtain rfl : object = object' := Option.some.inj (hobject.symm.trans hobject')
    have hencoded : Y.applyEncoded Y.new object.bytes = some doc := by
      rw [hbytes]
      exact Y.apply_encodeState doc
    exact ⟨doc, row.coveredSequence, eq_of_fromSnapshot hencoded hroom, hdoc, hle⟩

end FileBelt.Collaboration
