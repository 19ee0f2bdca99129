import FileBelt.Collaboration.Sync
import Mathlib.Tactic.Ring

/-!
# Joining a room

What the browser client makes of the synchronization frames.  Its protobuf reader
reads back every frame whose numbers are safe integers.  A state that fits one chunk
is applied; one of more chunks is refused when its first chunk arrives, since the test
for missing chunks skips the slots that have not been assigned.
-/

namespace FileBelt.Collaboration

open Support Support.Protobuf

variable {v sequence n : ℕ} {state chunk bytes : List UInt8} {b : List UInt8} {fs : List Field}
  {f : Field}

theorem readGroups_varintGroups {result multiplier : ℕ} (hv : v < 128 ^ (n + 1))
    (hsafe : result + v * multiplier ≤ maxSafeInteger) (rest : List UInt8) :
    readGroups (n + 1) result multiplier (varintGroups (n + 1) v ++ rest) =
      .ok (result + v * multiplier, rest) := by
  induction n generalizing v result multiplier with
  | zero =>
    have hbyte : (UInt8.ofNat v).toNat = v := toNat_ofNat_lt (by omega)
    rw [varintGroups, if_pos (by omega), List.singleton_append, readGroups,
      hbyte, Nat.mod_eq_of_lt (by omega), if_neg (by omega), if_pos (by omega)]
  | succ n ih =>
    rw [varintGroups]
    by_cases hsmall : v < 128
    · have hbyte : (UInt8.ofNat v).toNat = v := toNat_ofNat_lt (by omega)
      rw [if_pos hsmall, List.singleton_append, readGroups, hbyte,
        Nat.mod_eq_of_lt hsmall, if_neg (by omega), if_pos hsmall]
    · have hbyte : (UInt8.ofNat (v % 128 + 128)).toNat = v % 128 + 128 := toNat_ofNat_lt (by omega)
      have hlow : (v % 128 + 128) % 128 = v % 128 := by omega
      have hsplit : v * multiplier = v % 128 * multiplier + v / 128 * (multiplier * 128) := by
        calc v * multiplier
            = (v % 128 + 128 * (v / 128)) * multiplier := by
              rw [Nat.mod_add_div]
          _ = _ := by ring
      rw [if_neg hsmall, List.cons_append, readGroups, hbyte, hlow]
      have hdiv : v / 128 < 128 ^ (n + 1) := by
        rw [Nat.div_lt_iff_lt_mul (by decide)]
        exact hv
      have hrest := ih hdiv (show result + v % 128 * multiplier + v / 128 * (multiplier * 128) ≤
          maxSafeInteger by omega)
      rw [if_neg (by omega), if_neg (by omega), hrest, hsplit, Nat.add_assoc]

theorem readVarint_varint (hv : v ≤ maxSafeInteger) (rest : List UInt8) :
    readVarint (varint v ++ rest) = .ok (v, rest) := by
  have hbound : maxSafeInteger < 128 ^ (9 + 1) := by decide
  have h : readGroups (9 + 1) 0 1 (varintGroups (9 + 1) v ++ rest) =
      .ok (0 + v * 1, rest) :=
    readGroups_varintGroups (lt_of_le_of_lt hv hbound) (by omega) rest
  rw [Nat.zero_add, Nat.mul_one] at h
  exact h

/-- The value or the length of a payload is a safe integer. -/
def SafePayload : Payload → Prop
  | .varint v => v ≤ maxSafeInteger
  | .bytes b => b.length ≤ maxSafeInteger

/-- A field that the client can read. -/
structure SafeField (f : Field) : Prop where
  positive : 0 < f.number
  bounded : f.number < 2 ^ 29
  safe : SafePayload f.payload

theorem readPayload_encode {payload : Payload} (h : SafePayload payload) (rest : List UInt8) :
    readPayload payload.wireType (payload.encode ++ rest) = .ok (payload, rest) := by
  cases payload with
  | varint =>
    rw [readPayload, Payload.encode, readVarint_varint h]
    rfl
  | bytes b =>
    rw [Payload.wireType, readPayload, if_neg (by decide), if_pos rfl,
      Payload.encode, List.append_assoc, readVarint_varint h, ok_bind]
    dsimp only
    rw [if_pos (by rw [List.length_append]; omega), List.take_left, List.drop_left]
    rfl

theorem readField_encode (hpositive : 0 < f.number)
    (hkey : f.number * 8 + f.payload.wireType ≤ maxSafeInteger) (hsafe : SafePayload f.payload)
    (rest : List UInt8) : readField (f.encode ++ rest) = .ok (f, rest) := by
  have hwire := f.payload.wireType_lt
  have hnumber : (f.number * 8 + f.payload.wireType) / 8 = f.number := by omega
  have htype : (f.number * 8 + f.payload.wireType) % 8 = f.payload.wireType := by
    omega
  rw [readField, Field.encode, List.append_assoc, readVarint_varint hkey, ok_bind]
  dsimp only
  rw [hnumber, htype, if_neg (by omega), readPayload_encode hsafe]
  rfl

theorem readFields_encode (hfs : ∀ f ∈ fs, ∀ rest, readField (f.encode ++ rest) = .ok (f, rest))
    (hn : fs.length ≤ n) : readFields n (encode fs) = .ok fs := by
  induction fs generalizing n with
  | nil =>
    cases n with
    | zero => rfl
    | succ => rfl
  | cons f fs ih =>
    obtain ⟨_, _, hencode, hbytes⟩ := exists_encode_cons f fs
    cases n with
    | zero => exact absurd hn (Nat.not_succ_le_zero _)
    | succ =>
      have hothers := ih (List.forall_mem_cons.mp hfs).2 (Nat.le_of_succ_le_succ hn)
      rw [hencode, readFields, hbytes, hfs f List.mem_cons_self, ok_bind]
      dsimp only
      rw [hothers]
      rfl

theorem wireFields_encode (hfs : ∀ f ∈ fs, SafeField f) : wireFields (encode fs) = .ok fs := by
  refine readFields_encode (fun f hf => ?_) (length_le_encode fs)
  obtain ⟨hpositive, hbounded, hsafe⟩ := hfs f hf
  have hwire := f.payload.wireType_lt
  exact readField_encode hpositive (by rw [maxSafeInteger]; omega) hsafe

theorem safe_uint (h : v ≤ maxSafeInteger) : ∀ payload ∈ uint v, SafePayload payload :=
  forall_mem_uint h

theorem safe_blob (h : b.length ≤ maxSafeInteger) : ∀ payload ∈ blob b, SafePayload payload :=
  forall_mem_blob h

theorem safe_flag (b : Bool) : ∀ payload ∈ flag b, SafePayload payload :=
  forall_mem_flag (Nat.one_le_two_pow.trans (Nat.le_sub_one_of_lt
    (Nat.pow_lt_pow_right (m := 0) (by decide) (by decide)))) b

section

variable {α : Type} {fs gs : List Field} {n v : ℕ}

def PassesOver (find : List Field → α) (n : ℕ) : Prop :=
  ∀ f fs, f.number ≠ n → find (f :: fs) = find fs

theorem passesOver_numberField (n : ℕ) : PassesOver (numberField · n) n := by
  rintro ⟨_, _ | _⟩ _ h
  · exact if_neg h
  · rfl

theorem passesOver_bytesField (n : ℕ) : PassesOver (bytesField · n) n := by
  rintro ⟨_, _ | _⟩ _ h
  · rfl
  · exact if_neg h

variable {find : List Field → α} {slots : List Slot} {payloads : List Payload} {m : ℕ}

theorem PassesOver.append (hfind : PassesOver find n) (h : ∀ f ∈ fs, f.number ≠ n) :
    find (fs ++ gs) = find gs := by
  induction fs with
  | nil => rfl
  | cons f fs ih =>
    rw [List.cons_append, hfind f _ (h f List.mem_cons_self),
      ih (List.forall_mem_cons.mp h).2]

theorem PassesOver.fields_of_ne (hfind : PassesOver find n) (h : m ≠ n) :
    find (fields ((m, payloads) :: slots)) = find (fields slots) := by
  apply hfind.append
  intro f hf
  obtain ⟨_, -, rfl⟩ := List.mem_map.mp hf
  exact h

theorem PassesOver.fields_absent (hfind : PassesOver find n) (h : ∀ slot ∈ slots, slot.1 ≠ n) :
    find (fields slots) = find [] := by
  induction slots with
  | nil => rfl
  | cons slot slots ih =>
    rw [hfind.fields_of_ne (h slot List.mem_cons_self),
      ih (List.forall_mem_cons.mp h).2]

@[simp]
theorem numberField_fields_of_ne (h : m ≠ n) :
    numberField (fields ((m, payloads) :: slots)) n = numberField (fields slots) n :=
  (passesOver_numberField n).fields_of_ne h

@[simp]
theorem bytesField_fields_of_ne (h : m ≠ n) :
    bytesField (fields ((m, payloads) :: slots)) n = bytesField (fields slots) n :=
  (passesOver_bytesField n).fields_of_ne h

variable (h : ∀ slot ∈ slots, slot.1 ≠ n)
include h

/-- A scalar is found, also when its default was left out. -/
theorem numberField_fields_uint : numberField (fields ((n, uint v) :: slots)) n = v := by
  rw [uint]
  split
  · next hv =>
    rw [hv]
    change numberField (fields slots) n = 0
    exact (passesOver_numberField n).fields_absent h
  · change numberField (⟨n, .varint v⟩ :: fields slots) n = v
    rw [numberField, if_pos rfl]

theorem numberField_fields_flag {b : Bool} :
    numberField (fields ((n, flag b) :: slots)) n = b.toNat := by
  cases b with
  | false =>
    change numberField (fields slots) n = 0
    exact (passesOver_numberField n).fields_absent h
  | true =>
    change numberField (⟨n, .varint 1⟩ :: fields slots) n = 1
    rw [numberField, if_pos rfl]

theorem bytesField_fields_blob : bytesField (fields ((n, blob b) :: slots)) n = b := by
  rw [blob]
  split
  · next hb =>
    rw [hb]
    change bytesField (fields slots) n = []
    exact (passesOver_bytesField n).fields_absent h
  · change bytesField (⟨n, .bytes b⟩ :: fields slots) n = b
    rw [bytesField, if_pos rfl]

end

theorem syncChunkOf_fields (chunk : SyncChunk) : syncChunkOf (fields chunk.slots) = chunk := by
  rw [SyncChunk.slots, syncChunkOf]
  simp [numberField_fields_uint, bytesField_fields_blob, numberField_fields_flag]

/-! ## One frame -/

/-- A chunk of the server whose numbers the client can read. -/
structure SyncChunk.Readable (chunk : SyncChunk) : Prop where
  sequence : chunk.sequence ≤ maxSafeInteger
  chunkIndex : chunk.chunkIndex < 2 ^ 32
  chunkCount : chunk.chunkCount < 2 ^ 32
  update : chunk.update.length ≤ maxSyncChunkBytes

namespace SyncChunk.Readable

variable {chunk : SyncChunk} (h : chunk.Readable)
include h

theorem fields_safe : ∀ f ∈ fields chunk.slots, SafeField f := by
  have hindex : chunk.chunkIndex ≤ maxSafeInteger := h.chunkIndex.le.trans (by decide)
  have hcount : chunk.chunkCount ≤ maxSafeInteger := h.chunkCount.le.trans (by decide)
  have hupdate : chunk.update.length ≤ maxSafeInteger := h.update.trans (by decide)
  have hslots : ∀ slot ∈ chunk.slots, ∀ payload ∈ slot.2, SafePayload payload := by
    simp only [SyncChunk.slots, List.forall_mem_cons]
    exact ⟨safe_uint h.sequence, safe_uint hindex, safe_uint hcount, safe_blob hupdate,
      safe_flag _, List.forall_mem_nil _⟩
  intro f hf
  obtain ⟨hpositive, hbounded, hsafe⟩ := fields_numbered (n := 5) rfl (by decide) hslots f hf
  exact ⟨hpositive, hbounded, hsafe⟩

theorem frame_eq : chunk.frame = .ok (encode [⟨3, .bytes (encode (fields chunk.slots))⟩]) := by
  have hupdate := h.update
  have hinner : (encode (fields chunk.slots)).length ≤ maxSyncChunkBytes + 100 := by
    refine Nat.le_trans (encode_length_le _) ?_
    simp only [SyncChunk.slots, fields, uint, blob, flag]
    split_ifs <;> simp [Protobuf.room, Payload.size] <;> omega
  have houter := encode_length_le [⟨3, .bytes (encode (fields chunk.slots))⟩]
  have hlimit : maxSyncChunkBytes + 120 ≤ maxFrameBytes := by decide
  simp only [Protobuf.room, Payload.size] at houter
  exact if_neg (by omega)

end SyncChunk.Readable

section

variable {δ : Type} {applyUpdate : δ → List UInt8 → Except Thrown δ}
  {receiveOther : ℕ → List UInt8 → RealtimeSession δ → Except Thrown (RealtimeSession δ)}
  {session : RealtimeSession δ} {chunk : SyncChunk}

/-- A frame of the server reaches `#ReceiveSync` as the chunk it was made of. -/
theorem receive_frame (h : chunk.Readable) (hframe : chunk.frame = .ok bytes) :
    receive applyUpdate receiveOther session bytes = receiveSync applyUpdate session chunk := by
  obtain ⟨hsize, hframe⟩ := else_of_ok hframe
  obtain rfl := Except.ok.inj hframe
  set outer : List Field := [⟨3, .bytes (encode (fields chunk.slots))⟩] with houter
  have hinner : (encode (fields chunk.slots)).length ≤ maxSafeInteger :=
    ((length_le_of_mem List.mem_cons_self).trans (Nat.not_lt.mp hsize)).trans (by decide)
  have hsafe : ∀ f ∈ outer, SafeField f := by
    intro f hf
    rw [List.mem_singleton.mp hf]
    exact ⟨show 0 < 3 by decide, show 3 < 2 ^ 29 by decide, hinner⟩
  have hne : (encode outer).length ≠ 0 := by
    have hle := length_le_encode outer
    rw [houter, List.length_singleton] at hle
    rw [houter]
    omega
  rw [receive, if_neg (not_or.mpr ⟨hne, hsize⟩), wireFields_encode hsafe]
  change (wireFields (encode (fields chunk.slots)) >>= fun values =>
    receiveSync applyUpdate session (syncChunkOf values)) = _
  rw [wireFields_encode h.fields_safe, ok_bind, syncChunkOf_fields]

/-- The client has not begun to synchronize. -/
structure RealtimeSession.Waiting (session : RealtimeSession δ) : Prop where
  ready : session.ready = false
  initialSync : session.initialSync = none

/-- The client as a complete snapshot leaves it. -/
def RealtimeSession.started (sequence : ℕ) (document : δ) : RealtimeSession δ where
  document := document
  ready := true
  acknowledgedSequence := sequence
  initialSync := none

theorem receiveSync_single (hwaiting : session.Waiting)
    (hupdate : chunk.update.length ≤ maxSyncChunkBytes) (hcount : chunk.chunkCount = 1)
    (hindex : chunk.chunkIndex = 0) (hsnapshot : chunk.snapshot) :
    receiveSync applyUpdate session chunk =
      (applyComplete applyUpdate session.document chunk.update).map
        (RealtimeSession.started chunk.sequence) := by
  obtain ⟨sequence, chunkIndex, chunkCount, update, snapshot⟩ := chunk
  obtain ⟨document, ready, acknowledged, initialSync⟩ := session
  obtain ⟨rfl, rfl⟩ := hwaiting
  dsimp only at hupdate hcount hindex hsnapshot
  subst hcount hindex hsnapshot
  have hplace : placeChunk none ⟨sequence, 0, 1, update, true⟩ =
      .ok ⟨⟨[some update]⟩, sequence, true⟩ := by
    rw [placeChunk, if_neg]
    · rfl
    · dsimp only
      omega
  have hconcat : concatenate ⟨[some update]⟩ = .ok update := rfl
  have hsize : ¬2 * 1024 * 1024 < update.length := by
    rw [maxSyncChunkBytes] at hupdate
    omega
  rw [receiveSync, hplace, ok_bind]
  rw [hconcat, ok_bind, finishSync, if_neg hsize]
  cases applyComplete applyUpdate document update with
  | error => rfl
  | ok => rfl

theorem placeChunk_none {group : ChunkAccumulator} (h : placeChunk none chunk = .ok group) :
    group.chunks = (ScriptArray.ofLength chunk.chunkCount).set chunk.chunkIndex chunk.update := by
  obtain ⟨-, h⟩ := else_of_ok h
  obtain ⟨_, hempty, h⟩ := bind_eq_ok h
  obtain rfl := Except.ok.inj hempty
  obtain ⟨-, h⟩ := else_of_ok h
  rw [← Except.ok.inj h]

/-- The first of several chunks is refused, whichever it is. -/
theorem receiveSync_several (hwaiting : session.Waiting) (hcount : 1 < chunk.chunkCount) :
    ∃ thrown, receiveSync applyUpdate session chunk = .error thrown := by
  rw [receiveSync, hwaiting.initialSync]
  cases hplace : placeChunk none chunk with
  | error thrown => exact ⟨thrown, rfl⟩
  | ok group =>
    have hconcat : concatenate group.chunks = .error .typeError := by
      apply ScriptArray.forOf_of_hole
      · exact fun _ => rfl
      · exact fun _ _ => rfl
      · rw [placeChunk_none hplace]
        exact ScriptArray.hole_mem_set hcount _ _
    refine ⟨.typeError, ?_⟩
    rw [ok_bind, hasAllChunks, ScriptArray.every_isSome, if_pos rfl, hconcat, error_bind]

end

/-! ## The frames of a state -/

section

variable {snapshot : Bool} {chunks frames : List (List UInt8)} {entry : List UInt8 × ℕ}
  (hsequence : sequence ≤ maxSafeInteger)
  (hsize : ∀ chunk ∈ chunks, chunk.length ≤ maxSyncChunkBytes)
include hsequence hsize

theorem readable_of_mem_zipIdx (hcount : chunks.length < 2 ^ 32) (hentry : entry ∈ chunks.zipIdx) :
    SyncChunk.Readable ⟨sequence, entry.2, chunks.length, entry.1, snapshot⟩ := by
  obtain ⟨-, hindex, hchunk⟩ := List.mem_zipIdx hentry
  rw [Nat.zero_add] at hindex
  refine ⟨hsequence, hindex.trans hcount, hcount, hsize entry.1 ?_⟩
  rw [hchunk]
  exact List.getElem_mem _

theorem exists_syncFrames (hcount : chunks.length < 2 ^ 32) :
    ∃ frames, syncFrames sequence snapshot chunks = .ok frames := by
  rw [syncFrames, if_pos hcount]
  exact exists_mapM_eq_ok fun entry hentry => ⟨_, congrArg (Except.mapError _)
    (readable_of_mem_zipIdx hsequence hsize hcount hentry).frame_eq⟩

theorem mem_syncFrames (hframes : syncFrames sequence snapshot chunks = .ok frames) :
    frames.length = chunks.length ∧ ∀ frame ∈ frames, ∃ entry ∈ chunks.zipIdx,
      SyncChunk.Readable ⟨sequence, entry.2, chunks.length, entry.1, snapshot⟩ ∧
        SyncChunk.frame ⟨sequence, entry.2, chunks.length, entry.1, snapshot⟩ = .ok frame := by
  obtain ⟨hcount, hframes⟩ := then_of_ok hframes
  refine ⟨by rw [← (mapM_eq_ok hframes).length_eq, List.length_zipIdx], fun frame hframe => ?_⟩
  obtain ⟨entry, hentry, heq⟩ := exists_of_mem_mapM hframes hframe
  exact ⟨entry, hentry, readable_of_mem_zipIdx hsequence hsize hcount hentry, mapError_eq_ok heq⟩

end

theorem syncChunks_of_length_le (h : state.length ≤ maxSyncChunkBytes) :
    syncChunks state = [state] := by
  rw [syncChunks]
  split
  · next hstate => rw [hstate]
  · next hstate => exact slices_of_length_le hstate h

theorem length_le_of_mem_syncChunks (h : chunk ∈ syncChunks state) :
    chunk.length ≤ maxSyncChunkBytes := by
  rw [syncChunks] at h
  split at h
  · rw [List.mem_singleton.mp h]
    exact Nat.zero_le _
  · exact length_le_of_mem_slices h

theorem one_lt_length_syncChunks (h : maxSyncChunkBytes < state.length) :
    1 < (syncChunks state).length := by
  have hne : state ≠ [] := List.ne_nil_of_length_pos (Nat.zero_lt_of_lt h)
  rw [syncChunks, if_neg hne, length_slices, lt_chunkCount_iff (by decide)]
  exact h

theorem length_syncChunks_lt (h : state.length < 2 ^ 32) : (syncChunks state).length < 2 ^ 32 := by
  rw [syncChunks]
  split
  · exact Nat.one_lt_two_pow (by decide)
  · have hle : chunkCount maxSyncChunkBytes state.length ≤ 2 ^ 32 - 1 := by
      rw [chunkCount_le_iff (by decide)]
      rw [maxSyncChunkBytes]
      omega
    rw [length_slices]
    omega

/-! ## Arrival -/

section

variable {δ : Type} {applyUpdate : δ → List UInt8 → Except Thrown δ}
  {receiveOther : ℕ → List UInt8 → RealtimeSession δ → Except Thrown (RealtimeSession δ)}
  {session : RealtimeSession δ} {sequence : ℕ} {state : List UInt8}

theorem single_frame_applied (hwaiting : session.Waiting) (hsequence : sequence ≤ maxSafeInteger)
    (hstate : state.length ≤ maxSyncChunkBytes) :
    ∃ frame, syncFrames sequence true (syncChunks state) = .ok [frame] ∧
      receiveAll applyUpdate receiveOther session [frame] =
        (applyComplete applyUpdate session.document state).map
          (RealtimeSession.started sequence) := by
  have hchunks := syncChunks_of_length_le hstate
  have hsize : ∀ chunk ∈ [state], chunk.length ≤ maxSyncChunkBytes :=
    List.forall_mem_singleton.mpr hstate
  obtain ⟨frames, hframes⟩ := exists_syncFrames hsequence hsize (show 1 < 2 ^ 32 by decide)
  obtain ⟨hlength, hsent⟩ := mem_syncFrames hsequence hsize hframes
  obtain ⟨frame, rfl⟩ := List.length_eq_one_iff.mp hlength
  obtain ⟨entry, hentry, hreadable, hframe⟩ := hsent frame List.mem_cons_self
  obtain rfl : entry = (state, 0) := List.mem_singleton.mp hentry
  refine ⟨frame, hchunks ▸ hframes, ?_⟩
  rw [receiveAll, List.foldlM_cons, receive_frame hreadable hframe,
    receiveSync_single hwaiting hstate rfl rfl rfl]
  cases applyComplete applyUpdate session.document state with
  | error => rfl
  | ok => rfl

/-- The first of several chunks is refused, in whichever order they arrive. -/
theorem first_chunk_refused (hwaiting : session.Waiting) (hsequence : sequence ≤ maxSafeInteger)
    (hstate : maxSyncChunkBytes < state.length) {frames arrived : List (List UInt8)}
    (hframes : syncFrames sequence true (syncChunks state) = .ok frames)
    (harrived : arrived.Perm frames) :
    ∃ first later thrown, arrived = first :: later ∧ later ≠ [] ∧
      receive applyUpdate receiveOther session first = .error thrown := by
  have hmany := one_lt_length_syncChunks hstate
  obtain ⟨hlength, hsent⟩ := mem_syncFrames hsequence
    (fun chunk hchunk => length_le_of_mem_syncChunks hchunk) hframes
  rw [← hlength, ← harrived.length_eq] at hmany
  obtain ⟨first, later, rfl⟩ := List.exists_cons_of_length_pos (Nat.zero_lt_of_lt hmany)
  obtain ⟨entry, -, hreadable, hframe⟩ := hsent first (harrived.mem_iff.mp List.mem_cons_self)
  obtain ⟨thrown, hthrown⟩ : ∃ thrown, receiveSync applyUpdate session
      ⟨sequence, entry.2, (syncChunks state).length, entry.1, true⟩ = .error thrown :=
    receiveSync_several hwaiting (one_lt_length_syncChunks hstate)
  refine ⟨first, later, thrown, rfl, ?_, ?_⟩
  · rintro rfl
    exact absurd hmany (by simp)
  · rw [receive_frame hreadable hframe, hthrown]

/-- Nothing is applied before the last chunk of a state has arrived, and then exactly its
bytes are applied, if and only if the state fits one chunk. -/
theorem state_is_applied_iff (hwaiting : session.Waiting) (hsequence : sequence ≤ maxSafeInteger) :
    (∃ frames, syncFrames sequence true (syncChunks state) = .ok frames ∧
      ∀ arrived : List (List UInt8), arrived.Perm frames →
        (∀ early, early <+: arrived → early ≠ arrived →
          ∃ after, receiveAll applyUpdate receiveOther session early = .ok after ∧
            after.document = session.document ∧ after.ready = false) ∧
        receiveAll applyUpdate receiveOther session arrived =
          (applyComplete applyUpdate session.document state).map
            (RealtimeSession.started sequence)) ↔ state.length ≤ maxSyncChunkBytes := by
  constructor
  · rintro ⟨frames, hframes, harrival⟩
    by_contra hlarge
    obtain ⟨first, later, thrown, rfl, hlater, hthrown⟩ :=
      @first_chunk_refused δ applyUpdate receiveOther session _ _ hwaiting hsequence
        (Nat.lt_of_not_le hlarge) _ _ hframes (.refl _)
    obtain ⟨after, hafter, -⟩ := (harrival _ (.refl _)).1 [first] ⟨later, rfl⟩ fun heq =>
      hlater (List.cons.inj heq).2.symm
    rw [receiveAll, List.foldlM_cons, hthrown] at hafter
    cases hafter
  · intro hstate
    obtain ⟨frame, hframes, happlied⟩ := single_frame_applied hwaiting hsequence hstate
    refine ⟨[frame], hframes, fun arrived harrived => ?_⟩
    obtain rfl := List.perm_singleton.mp harrived
    refine ⟨fun early hinitial hne => ?_, happlied⟩
    obtain rfl : early = [] := by
      rcases List.prefix_cons_iff.mp hinitial with hnil | ⟨rest, hrest, hnil⟩
      · exact hnil
      · rw [List.prefix_nil.mp hnil] at hrest
        exact absurd hrest hne
    exact ⟨session, rfl, rfl, hwaiting.ready⟩

theorem one_byte_state_is_applied :
    ∃ frames, syncFrames 7 true (syncChunks [5]) = .ok frames ∧
      ∀ arrived : List (List UInt8), arrived.Perm frames →
        (∀ early, early <+: arrived → early ≠ arrived →
          ∃ after, receiveAll (fun document bytes => .ok (document ++ bytes))
              (fun _ _ other => .ok other) ⟨([] : List UInt8), false, 0, none⟩
              early = .ok after ∧
            after.document = [] ∧ after.ready = false) ∧
        receiveAll (fun document bytes => .ok (document ++ bytes))
          (fun _ _ other => .ok other) ⟨([] : List UInt8), false, 0, none⟩
          arrived = .ok (RealtimeSession.started 7 [5]) :=
  (state_is_applied_iff ⟨rfl, rfl⟩ (by decide)).mpr (by decide)

end

/-- One byte more than a chunk, and either of the two chunks is refused when it
arrives first. -/
theorem two_chunk_state_is_refused :
    ∃ frames, syncFrames 0 true (syncChunks (List.replicate 262145 0)) =
        .ok frames ∧
      ∀ arrived : List (List UInt8), arrived.Perm frames →
        ∃ first later thrown, arrived = first :: later ∧
          receive (fun document bytes => .ok (document ++ bytes))
            (fun _ _ other => .ok other) ⟨([] : List UInt8), false, 0, none⟩
            first = .error thrown := by
  have hlength : (List.replicate 262145 (0 : UInt8)).length = 262145 := List.length_replicate
  obtain ⟨frames, hframes⟩ := exists_syncFrames (Nat.zero_le _)
    (fun chunk hchunk => length_le_of_mem_syncChunks hchunk)
    (length_syncChunks_lt (hlength.trans_lt (by decide)))
  refine ⟨frames, hframes, fun arrived harrived => ?_⟩
  have hwaiting : RealtimeSession.Waiting ⟨([] : List UInt8), false, 0, none⟩ := ⟨rfl, rfl⟩
  obtain ⟨first, later, thrown, harrived, -, hthrown⟩ :=
    first_chunk_refused hwaiting (Nat.zero_le _) (by rw [hlength]; decide) hframes harrived
  exact ⟨first, later, thrown, harrived, hthrown⟩

/-! ## Rooms -/

section

variable {Y : Yjs} {room : RoomDocument Y} {frames : List (List UInt8)}
  {receiveOther : ℕ → List UInt8 → RealtimeSession Y.Doc → Except Thrown (RealtimeSession Y.Doc)}

theorem applyComplete_snapshot :
    applyComplete Y.applyOrThrow (RealtimeSession.new Y).document room.snapshot = .ok room.doc := by
  have hnew : Y.applyEncoded Y.new room.snapshot = some room.doc := Y.apply_encodeState room.doc
  rw [applyComplete, RoomDocument.snapshot, if_neg (Y.encodeState_ne_nil room.doc)]
  change okOr (Y.applyEncoded Y.new room.snapshot) _ = _
  rw [hnew, okOr_some]

theorem large_room_refused (hsequence : room.serverSequence ≤ maxSafeInteger)
    (hstate : maxSyncChunkBytes < room.snapshot.length)
    (hframes : initialSyncFrames room = .ok frames) :
    ∃ thrown, receiveAll Y.applyOrThrow receiveOther (RealtimeSession.new Y) frames =
      .error thrown := by
  obtain ⟨_, _, thrown, rfl, -, hthrown⟩ := @first_chunk_refused Y.Doc Y.applyOrThrow receiveOther
    (RealtimeSession.new Y) _ _ ⟨rfl, rfl⟩ hsequence hstate _ _ hframes (.refl frames)
  refine ⟨thrown, ?_⟩
  rw [receiveAll, List.foldlM_cons, hthrown, error_bind]

/-- A new client takes a room to its own document if and only if the state of the room fits
one chunk. -/
theorem room_is_joined_iff (hsequence : room.serverSequence ≤ maxSafeInteger) :
    (∃ frames, initialSyncFrames room = .ok frames ∧
      receiveAll Y.applyOrThrow receiveOther (RealtimeSession.new Y) frames =
        .ok (RealtimeSession.started room.serverSequence room.doc)) ↔
      room.snapshot.length ≤ maxSyncChunkBytes := by
  constructor
  · rintro ⟨frames, hframes, hjoined⟩
    by_contra hlarge
    obtain ⟨thrown, hthrown⟩ := large_room_refused hsequence (Nat.lt_of_not_le hlarge) hframes
    cases hjoined.symm.trans hthrown
  · intro hstate
    obtain ⟨frame, hframes, happlied⟩ := @single_frame_applied Y.Doc Y.applyOrThrow receiveOther
      (RealtimeSession.new Y) _ _ ⟨rfl, rfl⟩ hsequence hstate
    refine ⟨[frame], hframes, happlied.trans ?_⟩
    rw [applyComplete_snapshot]
    rfl

end

/-! ## A text that only grows

Documents that only receive appended text are the simplest ones the library has:
the state of one is its text after a counter. -/

/-- Append-only texts, encoded after one byte. -/
def appendOnly : Yjs where
  Doc := List UInt8
  Update := List UInt8
  new := []
  push doc _ text := doc ++ text
  getString doc := doc
  encodeStateAsUpdate doc := 0 :: doc
  encodeStateVector doc := [UInt8.ofNat doc.length]
  decodeUpdate bytes := bytes.tail?
  applyUpdate doc update := some (doc ++ update)
  apply_encodeState _ := rfl
  encodeState_ne_nil _ := List.cons_ne_nil _ _

theorem normalizeLineEndings_replicate (n : ℕ) :
    normalizeLineEndings (List.replicate n 97) = List.replicate n 97 := by
  induction n with
  | zero => rfl
  | succ n ih =>
    cases n with
    | zero => rfl
    | succ =>
      rw [List.replicate_succ, List.replicate_succ, normalizeLineEndings,
        if_neg (by decide), ← List.replicate_succ, ih]

theorem utf8Valid_letters (n : ℕ) : utf8Valid (List.replicate n (97 : UInt8)) := by
  apply utf8Valid_of_ascii
  intro byte hbyte
  rw [List.eq_of_mem_replicate hbyte]
  decide

theorem decodeMarkdownSource_letters (hn : n ≤ maxMarkdownSourceBytes) :
    decodeMarkdownSource (List.replicate n 97) = .ok (List.replicate n 97) := by
  have hbom : (List.replicate n (97 : UInt8)).take 3 ≠ [0xef, 0xbb, 0xbf] := by
    rw [List.take_replicate]
    intro h
    exact absurd (List.eq_of_mem_replicate (h ▸ List.mem_cons_self)) (by decide)
  have hnul : (0 : UInt8) ∉ List.replicate n 97 :=
    fun hmem => absurd (List.eq_of_mem_replicate hmem) (by decide)
  rw [decodeMarkdownSource, List.length_replicate, if_neg (Nat.not_lt.mpr hn), if_neg hbom]
  rw [if_neg hnul, if_pos (utf8Valid_letters n), normalizeLineEndings_replicate]

theorem small_text_is_joined :
    ∃ frames, initialSyncFrames
        (RoomDocument.fromSourceWithClientId [97, 98] ⟨16384, 16384, 2097152⟩ 1 :
          RoomDocument appendOnly) = .ok frames ∧
      receiveAll appendOnly.applyOrThrow (fun _ _ other => .ok other)
          (RealtimeSession.new appendOnly) frames =
        .ok (RealtimeSession.started 0 [97, 98]) :=
  (room_is_joined_iff (Nat.zero_le _)).mpr (by decide)

/-- A file of 262144 letters makes a room that the server admits and that no
client can join. -/
theorem large_text_cannot_be_joined :
    ∃ room : RoomDocument appendOnly,
      RoomDocument.Admitted (fun _ => Vector.replicate 32 0)
        ⟨16384, 16384, 2097152⟩ room ∧
      CollaborationLimitConfig.Valid ⟨16384, 16384, 2097152⟩ ∧
      ∃ frames thrown, initialSyncFrames room = .ok frames ∧
        receiveAll appendOnly.applyOrThrow (fun _ _ other => .ok other)
            (RealtimeSession.new appendOnly) frames = .error thrown := by
  refine ⟨RoomDocument.fromSourceWithClientId _ _ 1,
    .source (decodeMarkdownSource_letters (n := 262144) (by decide)), by decide, ?_⟩
  have hlength : (RoomDocument.fromSourceWithClientId (List.replicate 262144 97)
      ⟨16384, 16384, 2097152⟩ 1 : RoomDocument appendOnly).snapshot.length = 262145 := by
    change (0 :: List.replicate 262144 97).length = _
    rw [List.length_cons, List.length_replicate]
  obtain ⟨frames, hframes⟩ := exists_syncFrames (Nat.zero_le _)
    (fun chunk hchunk => length_le_of_mem_syncChunks hchunk)
    (length_syncChunks_lt (hlength.trans_lt (by decide)))
  obtain ⟨thrown, hthrown⟩ :=
    large_room_refused (Nat.zero_le _) (by rw [hlength]; decide) hframes
  exact ⟨frames, thrown, hframes, hthrown⟩

end FileBelt.Collaboration
