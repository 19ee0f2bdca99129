import FileBelt.Collaboration.Sync
import FileBelt.Support.Run
import FileBelt.Support.StreamDecoder
import Mathlib.Tactic.Ring

/-!
# Frames on a WebTransport stream

A client writes its frames to one stream, each after its length.  The session loop
reads them back in one branch of a `select!`.  When another branch is first, the
pending read is dropped with the bytes it has taken, and the next turn begins a new
one.

The model of the read is its state at each suspension point; it consumes one byte at a
time, so every fragmentation of the stream is a run.
-/

namespace FileBelt.Collaboration

open Support Support.Protobuf

/-! ## Reading and writing one frame -/

/-- The bytes that `write_length_delimited` writes. -/
def lengthDelimited (frame : List UInt8) : List UInt8 := varintGroups 5 frame.length ++ frame

def writeLengthDelimited (frame : List UInt8) : Except SessionError (List UInt8) :=
  if frame = [] ∨ maxFrameBytes < frame.length then .error .protocol
  else .ok (lengthDelimited frame)

/-- The suspension points of `read_length_delimited`. -/
inductive ReadState
  | first
  | length (value shift turn : ℕ)
  | body (length : ℕ) (bytes : List UInt8)
  deriving DecidableEq, Repr

/-- The checks after the loop over the length. -/
def startBody (length : ℕ) : Except SessionError ReadState :=
  if length = 0 ∨ maxFrameBytes < length then .error .protocol
  else .ok (.body length [])

/-- The loop test after a byte of the length; the loop has four turns. -/
def afterLengthByte (value shift turn : ℕ) (byte : UInt8) : Except SessionError ReadState :=
  if byte.toNat < 128 then startBody value
  else if turn < 5 then .ok (.length value shift turn)
  else .error .protocol

/-- `read_length_delimited` takes one byte. -/
def feedByte (state : ReadState) (byte : UInt8) :
    Except SessionError (ReadState × Option (List UInt8)) :=
  match state with
  | .first => do
      let next ← afterLengthByte (byte.toNat % 128) 7 1 byte
      return (next, none)
  | .length value shift turn =>
    -- a shift of less than 32 bits loses the bits that leave the word
    let part := byte.toNat % 128 * 2 ^ shift % 2 ^ 32
    if 32 ≤ shift ∨ 2 ^ 32 ≤ value + part then .error .protocol
    else do
      let next ← afterLengthByte (value + part) (shift + 7) (turn + 1) byte
      return (next, none)
  | .body length bytes =>
    let bytes := bytes ++ [byte]
    if bytes.length = length then .ok (.first, some bytes)
    else .ok (.body length bytes, none)

def readLengthDelimited : StreamDecoder ReadState UInt8 (List UInt8) SessionError where
  start := .first
  feed := feedByte

/-- `read_length_delimited` from one of its states, with what it leaves of the stream. -/
def readFrame : ReadState → List UInt8 → Except SessionError (Option (List UInt8) × List UInt8)
  | .first, [] => .ok (none, [])
  | _, [] => .error .protocol
  | state, byte :: rest => do
      let (next, frame) ← feedByte state byte
      match frame with
      | some frame => return (some frame, rest)
      | none => readFrame next rest

/-! ## The session loop -/

inductive RecvError
  | lagged | closed

/-- The branches of the `select!` that do not read, with what their calls return. -/
inductive Branch
  | broadcast (received : Except RecvError Unit) (written : Bool)
  | heartbeat (recorded encoded written : Bool)
  | poll (caughtUp : Except SessionError Unit)
  | recheck (current : Option Bool)

/-- A failed write ends the session without an error. -/
def afterWrite (written : Bool) : Option (Except SessionError Unit) :=
  if written then none else some (.ok ())

/-- The outcome with which a branch leaves the loop, if it does. -/
def Branch.ending : Branch → Option (Except SessionError Unit)
  | .broadcast (.ok ()) written => afterWrite written
  | .broadcast (.error .lagged) _ => some (.error .unavailable)
  | .broadcast (.error .closed) _ => some (.ok ())
  | .heartbeat recorded encoded written =>
    if ¬recorded then some (.error .authorization)
    else if ¬encoded then some (.error .internal)
    else afterWrite written
  | .poll (.ok ()) => none
  | .poll (.error error) => some (.error error)
  | .recheck current => if current = some true then none else some (.error .authorization)

inductive StreamEvent
  /-- The transport delivers some more bytes of the client. -/
  | arrive (count : ℕ)
  /-- The pending read takes a byte that has arrived.  If that completes a frame, the
  handler fails or its answers are written, or not. -/
  | read (answered : Except SessionError Bool)
  /-- Another branch is first. -/
  | other (branch : Branch)
  /-- The pending read sees the end of the stream. -/
  | finish
  /-- The transport fails under the pending read. -/
  | fail

def StreamEvent.ending : StreamEvent → Option (Except SessionError Unit)
  | .read (.ok written) => afterWrite written
  | .read (.error error) => some (.error error)
  | .other branch => branch.ending
  | .fail => some (.error .protocol)
  | .arrive _ | .finish => none

/-- A session of `webtransport_stream` after authentication. -/
structure StreamSession where
  /-- Bytes of the client that have not arrived. -/
  incoming : List UInt8
  /-- Bytes that have arrived and have not been read. -/
  buffer : List UInt8
  reader : ReadState
  /-- The frames given to `handle_binary_frame`. -/
  handled : List (List UInt8)
  outcome : Option (Except SessionError Unit)

/-- The session of a client that is going to write these frames. -/
def StreamSession.start (frames : List (List UInt8)) : StreamSession where
  incoming := frames.flatMap lengthDelimited
  buffer := []
  reader := .first
  handled := []
  outcome := none

namespace StreamSession

/-- The read branch, with the byte it takes and the end of the handler. -/
def takeByte (s : StreamSession) (byte : UInt8) (rest : List UInt8)
    (ending : Option (Except SessionError Unit)) : StreamSession :=
  match readLengthDelimited.feed s.reader byte with
  | .error error => { s with buffer := rest, outcome := some (.error error) }
  | .ok (reader, frame) =>
    { s with
      buffer := rest
      reader := reader
      handled := s.handled ++ frame.toList
      outcome := frame.bind fun _ => ending }

/-- One event.  Nothing happens once the session is over. -/
def step (s : StreamSession) (event : StreamEvent) : Except SessionError StreamSession :=
  match s.outcome with
  | some _ => .error .unavailable
  | none =>
    match event with
    | .arrive count =>
      .ok { s with
        incoming := s.incoming.drop count
        buffer := s.buffer ++ s.incoming.take count }
    | .read _ =>
      match s.buffer with
      | [] => .ok s
      | byte :: rest => .ok (s.takeByte byte rest event.ending)
    | .other _ =>
      -- the future of the read is dropped with the bytes it holds
      .ok { s with reader := readLengthDelimited.start, outcome := event.ending }
    | .fail => .ok { s with outcome := event.ending }
    | .finish =>
      if s.incoming = [] ∧ s.buffer = [] then
        match s.reader with
        | .first => .ok { s with outcome := some (.ok ()) }
        | _ => .ok { s with outcome := some (.error .protocol) }
      else .ok s

end StreamSession

/-! ## A read that is not dropped -/

structure Writable (frame : List UInt8) : Prop where
  nonempty : frame ≠ []
  bounded : frame.length ≤ maxFrameBytes

theorem startBody_eq {n : ℕ} (hpos : 0 < n) (hn : n ≤ maxFrameBytes) :
    startBody n = .ok (.body n []) :=
  if_neg (by omega)

theorem maxFrameBytes_lt : maxFrameBytes < 2 ^ 32 := by decide

theorem feedByte_last {v value shift turn n : ℕ} (hv : v < 128) (hshift : shift < 32)
    (hvalue : value + v * 2 ^ shift = n) (hpos : 0 < n) (hn : n ≤ maxFrameBytes) :
    feedByte (.length value shift turn) (UInt8.ofNat v) = .ok (.body n [], none) := by
  have hword := maxFrameBytes_lt
  have hbyte : (UInt8.ofNat v).toNat = v := toNat_ofNat_lt (by omega)
  have hpart : v * 2 ^ shift % 2 ^ 32 = v * 2 ^ shift := Nat.mod_eq_of_lt (by omega)
  rw [feedByte, hbyte, Nat.mod_eq_of_lt hv, hpart, hvalue, if_neg (by omega), afterLengthByte,
    hbyte, if_pos hv, startBody_eq hpos hn]
  rfl

theorem feedByte_more {v value shift turn : ℕ} (hshift : shift < 32) (hturn : turn + 1 < 5)
    (hvalue : value + v % 128 * 2 ^ shift ≤ maxFrameBytes) :
    feedByte (.length value shift turn) (UInt8.ofNat (v % 128 + 128)) =
      .ok (.length (value + v % 128 * 2 ^ shift) (shift + 7) (turn + 1), none) := by
  have hword := maxFrameBytes_lt
  have hbyte : (UInt8.ofNat (v % 128 + 128)).toNat = v % 128 + 128 := toNat_ofNat_lt (by omega)
  have hlow : (v % 128 + 128) % 128 = v % 128 := by omega
  have hpart : v % 128 * 2 ^ shift % 2 ^ 32 = v % 128 * 2 ^ shift := Nat.mod_eq_of_lt (by omega)
  rw [feedByte, hbyte, hlow, hpart, if_neg (by omega), afterLengthByte, hbyte, if_pos hturn]
  rfl

/-- The bytes of a length lead to the bytes of the frame. -/
theorem feedAll_length {k v value turn n : ℕ} (hv : v < 128 ^ (k + 1)) (hturn : turn + (k + 1) = 5)
    (hvalue : value + v * 2 ^ (7 * turn) = n) (hpos : 0 < n) (hn : n ≤ maxFrameBytes) :
    readLengthDelimited.feedAll (.length value (7 * turn) turn)
      (varintGroups (k + 1) v) = .ok (.body n [], []) := by
  induction k generalizing v value turn with
  | zero =>
    have hfeed : readLengthDelimited.feed (.length value (7 * turn) turn)
        (UInt8.ofNat v) = .ok (.body n [], none) :=
      feedByte_last (by omega) (by omega) hvalue hpos hn
    rw [varintGroups, if_pos (by omega)]
    exact StreamDecoder.feedAll_cons_silent hfeed rfl
  | succ k ih =>
    rw [varintGroups]
    by_cases hsmall : v < 128
    · have hfeed : readLengthDelimited.feed (.length value (7 * turn) turn)
          (UInt8.ofNat v) = .ok (.body n [], none) :=
        feedByte_last hsmall (by omega) hvalue hpos hn
      rw [if_pos hsmall]
      exact StreamDecoder.feedAll_cons_silent hfeed rfl
    · have hsplit : v * 2 ^ (7 * turn) =
          v % 128 * 2 ^ (7 * turn) + v / 128 * 2 ^ (7 * (turn + 1)) := by
        calc v * 2 ^ (7 * turn)
            = (v % 128 + 128 * (v / 128)) * 2 ^ (7 * turn) := by
              rw [Nat.mod_add_div]
          _ = _ := by
              ring
      have hdiv : v / 128 < 128 ^ (k + 1) := by
        rw [Nat.div_lt_iff_lt_mul (by decide)]
        exact hv
      have hrest := ih hdiv (by omega)
        (show value + v % 128 * 2 ^ (7 * turn) + v / 128 * 2 ^ (7 * (turn + 1)) = n by omega)
      have hfeed : readLengthDelimited.feed (.length value (7 * turn) turn)
          (UInt8.ofNat (v % 128 + 128)) =
            .ok (.length (value + v % 128 * 2 ^ (7 * turn)) (7 * (turn + 1)) (turn + 1), none) :=
        feedByte_more (by omega) (by omega) (by omega)
      rw [if_neg hsmall]
      exact StreamDecoder.feedAll_cons_silent hfeed hrest

theorem feedByte_first (byte : UInt8) :
    feedByte .first byte = feedByte (.length 0 (7 * 0) 0) byte := by
  have hlow : byte.toNat % 128 < 128 := Nat.mod_lt _ (by decide)
  have hpart : byte.toNat % 128 * 2 ^ 0 % 2 ^ 32 = byte.toNat % 128 := by
    rw [Nat.pow_zero, Nat.mul_one]
    exact Nat.mod_eq_of_lt (hlow.trans (by decide))
  rw [feedByte, feedByte, hpart, Nat.zero_add, if_neg (by omega)]

theorem feedAll_first {bytes : List UInt8} (hne : bytes ≠ []) :
    readLengthDelimited.feedAll .first bytes =
      readLengthDelimited.feedAll (.length 0 (7 * 0) 0) bytes := by
  obtain ⟨byte, _, rfl⟩ := List.exists_cons_of_ne_nil hne
  have hfeed : readLengthDelimited.feed .first byte =
      readLengthDelimited.feed (.length 0 (7 * 0) 0) byte := feedByte_first byte
  rw [StreamDecoder.feedAll, StreamDecoder.feedAll, hfeed]

theorem feedAll_body {n : ℕ} {kept bytes : List UInt8} (h : kept.length + bytes.length < n) :
    readLengthDelimited.feedAll (.body n kept) bytes = .ok (.body n (kept ++ bytes), []) := by
  induction bytes generalizing kept with
  | nil =>
    rw [List.append_nil]
    rfl
  | cons byte rest ih =>
    rw [List.length_cons] at h
    have hfeed : readLengthDelimited.feed (.body n kept) byte =
        .ok (.body n (kept ++ [byte]), none) := by
      exact if_neg (by rw [List.length_append, List.length_singleton]; omega)
    have hlength : (kept ++ [byte]).length + rest.length < n := by
      rw [List.length_append, List.length_singleton]
      omega
    have hrest := ih hlength
    rw [List.append_assoc] at hrest
    exact StreamDecoder.feedAll_cons_silent hfeed hrest

theorem varintGroups_ne_nil (n v : ℕ) : varintGroups (n + 1) v ≠ [] := by
  rw [varintGroups]
  split
  · exact List.cons_ne_nil _ _
  · exact List.cons_ne_nil _ _

/-- Only the last byte of a written frame completes it. -/
theorem exists_last {frame : List UInt8} (h : Writable frame) :
    ∃ bytes last t, lengthDelimited frame = bytes ++ [last] ∧
      readLengthDelimited.feedAll .first bytes = .ok (t, []) ∧
      feedByte t last = .ok (.first, some frame) := by
  obtain ⟨kept, last, hframe⟩ : ∃ kept last, frame = kept ++ [last] :=
    ⟨frame.dropLast, frame.getLast h.nonempty, (List.dropLast_append_getLast h.nonempty).symm⟩
  have hsize : kept.length + 1 = frame.length := by
    rw [hframe, List.length_append, List.length_singleton]
  have hbounded := h.bounded
  rw [maxFrameBytes] at hbounded
  have hlength : readLengthDelimited.feedAll .first
      (varintGroups (4 + 1) frame.length) = .ok (.body frame.length [], []) := by
    rw [feedAll_first (varintGroups_ne_nil 4 _)]
    exact feedAll_length (by omega) rfl (by omega) (by omega) h.bounded
  have hkept : ([] : List UInt8).length + kept.length < frame.length := by
    rw [List.length_nil]
    omega
  refine ⟨_, last, _, ?_, StreamDecoder.feedAll_append hlength (feedAll_body hkept), ?_⟩
  · rw [lengthDelimited, List.append_assoc, ← hframe]
  · rw [hframe]
    exact if_pos rfl

theorem delimits_frame {frame : List UInt8} (h : Writable frame) :
    readLengthDelimited.Delimits lengthDelimited frame := by
  obtain ⟨_, _, _, hcode, hsilent, hlast⟩ := exists_last h
  constructor
  · rw [hcode]
    exact StreamDecoder.feedAll_concat hsilent hlast
  · intro taken htaken hne
    rw [hcode] at htaken hne
    rcases List.prefix_concat_iff.mp htaken with heq | hinitial
    · exact absurd heq hne
    · exact StreamDecoder.feedAll_silent hsilent hinitial

/-! ## A whole read -/

section

variable {state next : ReadState} {byte : UInt8} {bytes rest frame kept : List UInt8}
  {n turn value : ℕ}

theorem readFrame_silent (h : readLengthDelimited.feedAll state bytes = .ok (next, [])) :
    readFrame state (bytes ++ rest) = readFrame next rest := by
  induction bytes generalizing state with
  | nil =>
    cases h
    rfl
  | cons byte bytes ih =>
    rw [← List.singleton_append] at h
    obtain ⟨t, _, _, hus, hws, hnil⟩ := StreamDecoder.exists_of_feedAll_append h
    obtain ⟨rfl, rfl⟩ := List.append_eq_nil_iff.mp hnil.symm
    obtain ⟨_, hfeed, hemitted⟩ := StreamDecoder.exists_of_feedAll_singleton hus
    obtain rfl := Option.toList_eq_nil_iff.mp hemitted.symm
    have hfeed : feedByte state byte = .ok (t, none) := hfeed
    rw [List.cons_append, readFrame, hfeed]
    exact ih hws

theorem readFrame_written (h : Writable frame) (rest : List UInt8) :
    readFrame .first (lengthDelimited frame ++ rest) = .ok (some frame, rest) := by
  obtain ⟨_, _, _, hcode, hsilent, hlast⟩ := exists_last h
  rw [hcode, List.append_assoc, readFrame_silent hsilent, List.singleton_append, readFrame, hlast]
  rfl

theorem readFrame_body (hkept : kept.length < n)
    (h : readFrame (.body n kept) bytes = .ok (some frame, rest)) :
    frame.length = n ∧ kept ++ bytes = frame ++ rest := by
  induction bytes generalizing kept with
  | nil => cases h
  | cons byte bytes ih =>
    rw [readFrame] at h
    by_cases hend : (kept ++ [byte]).length = n
    · rw [feedByte, if_pos hend] at h
      cases h
      exact ⟨hend, by rw [List.append_assoc, List.singleton_append]⟩
    · rw [feedByte, if_neg hend] at h
      rw [List.length_append, List.length_singleton] at hend
      have hrest := ih (by rw [List.length_append, List.length_singleton]; omega) h
      rw [List.append_assoc] at hrest
      exact hrest

/-- The length is the number that the prefix denotes, in a word of 32 bits. -/
theorem readFrame_length
    (h : readFrame (.length value (7 * turn) turn) bytes = .ok (some frame, rest)) :
    ∃ v, denoted bytes = some (v, frame ++ rest) ∧
      frame.length = (value + v * 2 ^ (7 * turn)) % 2 ^ 32 := by
  induction bytes generalizing value turn with
  | nil => cases h
  | cons byte bytes ih =>
    obtain ⟨⟨next, emitted⟩, hfeed, h⟩ := bind_eq_ok h
    obtain ⟨hfits, hfeed⟩ := else_of_ok hfeed
    obtain ⟨next, hnext, hfeed⟩ := bind_eq_ok hfeed
    cases hfeed
    have hword : value + byte.toNat % 128 * 2 ^ (7 * turn) % 2 ^ 32 < 2 ^ 32 := by omega
    rw [denoted]
    rw [afterLengthByte] at hnext
    split at hnext
    · next hlast =>
      obtain ⟨hstart, hnext⟩ := else_of_ok hnext
      cases hnext
      obtain ⟨hlength, hbytes⟩ := readFrame_body (by rw [List.length_nil]; omega) h
      rw [if_pos hlast, ← hbytes, hlength]
      refine ⟨byte.toNat, rfl, ?_⟩
      rw [Nat.mod_eq_of_lt hlast] at hword ⊢
      omega
    · next hmore =>
      obtain ⟨-, hnext⟩ := then_of_ok hnext
      cases hnext
      obtain ⟨v, hv, hlength⟩ :=
        ih (show readFrame (.length _ (7 * (turn + 1)) (turn + 1)) bytes = _ from h)
      have hsplit : (byte.toNat % 128 + 128 * v) * 2 ^ (7 * turn) =
          byte.toNat % 128 * 2 ^ (7 * turn) + v * 2 ^ (7 * (turn + 1)) := by
        ring
      rw [if_neg hmore, hv]
      refine ⟨_, rfl, ?_⟩
      omega

/-- A written frame is read back; of any stream that is accepted, the length is the number
that its prefix denotes if and only if that number fits 32 bits. -/
theorem frames_are_read_exactly (stream : List UInt8) :
    (∀ frame, frame ≠ [] → frame.length ≤ maxFrameBytes → ∃ bytes,
        writeLengthDelimited frame = .ok bytes ∧
          ∀ rest, readFrame .first (bytes ++ rest) = .ok (some frame, rest)) ∧
      ∀ frame rest, readFrame .first stream = .ok (some frame, rest) →
        ∃ v, denoted stream = some (v, frame ++ rest) ∧ frame.length = v % 2 ^ 32 ∧
          (frame.length = v ↔ v < 2 ^ 32) := by
  constructor
  · intro frame hne hbounded
    exact ⟨_, if_neg (not_or.mpr ⟨hne, Nat.not_lt.mpr hbounded⟩), readFrame_written ⟨hne, hbounded⟩⟩
  · intro frame rest h
    cases stream with
    | nil => cases h
    | cons =>
      rw [readFrame, feedByte_first, ← readFrame] at h
      obtain ⟨v, hv, hlength⟩ := readFrame_length h
      rw [Nat.pow_zero, Nat.mul_one, Nat.zero_add] at hlength
      exact ⟨v, hv, hlength, by omega⟩

end

/-- The fifth group leaves the word: the prefix denotes `2 ^ 32 + 1` and is taken for one. -/
theorem long_prefix_is_taken_for_one :
    readFrame .first [129, 128, 128, 128, 16, 7] = .ok (some [7], []) ∧
      denoted [129, 128, 128, 128, 16, 7] = some (2 ^ 32 + 1, [7]) := by
  decide

/-! ## Runs -/

/-- Another branch is first only while no byte of a frame has been read. -/
def BetweenFrames (s : StreamSession) : StreamEvent → Prop
  | .other _ => s.reader = .first
  | _ => True

instance (s : StreamSession) (event : StreamEvent) : Decidable (BetweenFrames s event) :=
  match event with
  | .other _ => inferInstanceAs (Decidable (_ = _))
  | .arrive _ | .read _ | .finish | .fail => inferInstanceAs (Decidable True)

/-- The reader and the handled frames are what the bytes read so far decode to, and the
session is over only after the last frame or because of an event. -/
structure Reading (frames : List (List UInt8)) (events : List StreamEvent)
    (s : StreamSession) : Prop where
  consumed : ∃ taken, taken ++ (s.buffer ++ s.incoming) = frames.flatMap lengthDelimited ∧
    readLengthDelimited.feedAll .first taken = .ok (s.reader, s.handled)
  outcome : ∀ outcome, s.outcome = some outcome →
    (outcome = .ok () ∧ s.handled = frames) ∨ ∃ event ∈ events, event.ending = some outcome

section

variable {frames : List (List UInt8)} (hframes : ∀ frame ∈ frames, Writable frame)
  {events : List StreamEvent} {s s' : StreamSession} {rest taken : List UInt8}

theorem Reading.start : Reading frames events (StreamSession.start frames) where
  consumed := ⟨[], rfl, rfl⟩
  outcome := fun _ houtcome => by cases houtcome

include hframes

/-- The bytes read so far decode to an initial part of the frames. -/
theorem feedAll_taken (h : taken ++ rest = frames.flatMap lengthDelimited) :
    ∃ t ws, readLengthDelimited.feedAll .first taken = .ok (t, ws) ∧ ws <+: frames :=
  StreamDecoder.feedAll_part (fun frame hframe => delimits_frame (hframes frame hframe)) ⟨rest, h⟩

theorem Reading.takeByte {byte : UInt8} {event : StreamEvent} (hs : Reading frames events s)
    (hevent : event ∈ events) (hbuffer : s.buffer = byte :: rest) :
    Reading frames events (s.takeByte byte rest event.ending) := by
  obtain ⟨taken, hstream, htaken⟩ := hs.consumed
  have hnext : (taken ++ [byte]) ++ (rest ++ s.incoming) =
      frames.flatMap lengthDelimited := by
    rw [← hstream, hbuffer, List.append_assoc, List.singleton_append, List.cons_append]
  -- the bytes read are an initial part of the stream, so the reader goes on
  obtain ⟨_, _, hread, -⟩ := feedAll_taken hframes hnext
  obtain ⟨_, _, _, hus, hvs, rfl⟩ := StreamDecoder.exists_of_feedAll_append hread
  obtain ⟨rfl, rfl⟩ := Prod.mk.inj (Except.ok.inj (hus.symm.trans htaken))
  obtain ⟨frame, hfeed, rfl⟩ := StreamDecoder.exists_of_feedAll_singleton hvs
  rw [StreamSession.takeByte, hfeed]
  refine ⟨⟨taken ++ [byte], hnext, hread⟩, fun outcome houtcome => .inr ⟨event, hevent, ?_⟩⟩
  obtain ⟨_, -, hending⟩ := Option.bind_eq_some_iff.mp houtcome
  exact hending

theorem Reading.drained (hs : Reading frames events s) (hincoming : s.incoming = [])
    (hbuffer : s.buffer = []) : s.reader = .first ∧ s.handled = frames := by
  obtain ⟨_, hstream, htaken⟩ := hs.consumed
  have hall : readLengthDelimited.feedAll .first
      (frames.flatMap lengthDelimited) = .ok (.first, frames) :=
    StreamDecoder.feedAll_codes fun frame hframe =>
      delimits_frame (hframes frame hframe)
  rw [hincoming, hbuffer, List.append_nil, List.append_nil] at hstream
  rw [hstream, hall] at htaken
  obtain ⟨hreader, hhandled⟩ := Prod.mk.inj (Except.ok.inj htaken)
  exact ⟨hreader.symm, hhandled.symm⟩

theorem Reading.step {event : StreamEvent} (hs : Reading frames events s)
    (hevent : BetweenFrames s event ∧ event ∈ events) (hstep : s.step event = .ok s') :
    Reading frames events s' := by
  have hending : ∀ outcome, event.ending = some outcome →
      ∃ event ∈ events, event.ending = some outcome := fun _ h => ⟨event, hevent.2, h⟩
  rw [StreamSession.step.eq_def] at hstep
  split at hstep
  · cases hstep
  · cases event with
    | arrive =>
      cases hstep
      refine ⟨?_, hs.outcome⟩
      rw [List.append_assoc, List.take_append_drop]
      exact hs.consumed
    | read =>
      dsimp only at hstep
      split at hstep
      · cases hstep
        exact hs
      · next byte rest hbuffer =>
        cases hstep
        exact hs.takeByte hframes hevent.2 hbuffer
    | other =>
      have hsame : readLengthDelimited.start = s.reader := hevent.1.symm
      rw [← Except.ok.inj hstep, hsame]
      exact ⟨hs.consumed, fun outcome houtcome => .inr (hending outcome houtcome)⟩
    | finish =>
      dsimp only at hstep
      split at hstep
      · next hend =>
        obtain ⟨hfirst, hhandled⟩ := hs.drained hframes hend.1 hend.2
        have hconsumed := hs.consumed
        rw [hfirst] at hstep hconsumed
        cases hstep
        exact ⟨hconsumed, fun _ houtcome => .inl ⟨(Option.some.inj houtcome).symm, hhandled⟩⟩
      · cases hstep
        exact hs
    | fail =>
      cases hstep
      exact ⟨hs.consumed, fun outcome houtcome => .inr (hending outcome houtcome)⟩

end

end FileBelt.Collaboration
