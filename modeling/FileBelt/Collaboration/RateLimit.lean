import FileBelt.Collaboration.Document
import FileBelt.Domain.Identity
import FileBelt.Support.Window
import Mathlib.Logic.Function.Basic

/-!
# The admission windows of a room

`RateLimiter` charges an update or an awareness message to a window of its client and to
one of the room, or to none.  Times are in nanoseconds.
-/

namespace FileBelt.Collaboration

open Support

inductive AdmissionKind
  | update | awareness
  deriving DecidableEq, Repr

inductive RateAdmission
  | admitted | clientLimited | roomLimited
  deriving DecidableEq, Repr

/-- What a window counts: a kind, in the room or of one client. -/
abbrev RateSlot := AdmissionKind × Option Uuid

/-- The limits that the limiter reads, as `validate_collaboration_limits` accepts
them. -/
structure RateLimits where
  (clientUpdatesPerSecond clientBytesPerSecond roomUpdatesPerSecond roomBytesPerSecond
    maxAwarenessBytes clientAwarenessPerSecond roomAwarenessPerSecond : ℕ)
  updates : (1 ≤ clientUpdatesPerSecond ∧ clientUpdatesPerSecond ≤ 50) ∧
    clientUpdatesPerSecond ≤ roomUpdatesPerSecond ∧ roomUpdatesPerSecond ≤ 500
  updateBytes : (262144 ≤ clientBytesPerSecond ∧ clientBytesPerSecond ≤ 2097152) ∧
    clientBytesPerSecond ≤ roomBytesPerSecond ∧ roomBytesPerSecond ≤ 16777216
  awarenessBytes : 1024 ≤ maxAwarenessBytes ∧ maxAwarenessBytes ≤ 8192
  awareness : (1 ≤ clientAwarenessPerSecond ∧ clientAwarenessPerSecond ≤ 10) ∧
    clientAwarenessPerSecond ≤ roomAwarenessPerSecond ∧ roomAwarenessPerSecond ≤ 100

/-- The events and the bytes of a second. -/
def RateLimits.perSecond (limits : RateLimits) : RateSlot → ℕ × ℕ
  | (.update, some _) => (limits.clientUpdatesPerSecond, limits.clientBytesPerSecond)
  | (.update, none) => (limits.roomUpdatesPerSecond, limits.roomBytesPerSecond)
  | (.awareness, some _) => (limits.clientAwarenessPerSecond, limits.maxAwarenessBytes)
  | (.awareness, none) => (limits.roomAwarenessPerSecond,
      min (limits.maxAwarenessBytes * limits.roomAwarenessPerSecond) (2 ^ 64 - 1))

def second : ℕ := 1000000000

structure Window where
  (started events bytes : ℕ)
  deriving DecidableEq, Repr

namespace Window

def new (now : ℕ) : Window := ⟨now, 0, 0⟩

def resetIfElapsed (window : Window) (now : ℕ) : Window :=
  if second ≤ now - window.started then new now else window

/-- One more event of some bytes is too much. -/
def Exceeds (window : Window) (limit : ℕ × ℕ) (bytes : ℕ) : Prop :=
  limit.1 < saturatingAddU64 window.events 1 ∨ limit.2 < saturatingAddU64 window.bytes bytes

instance (window : Window) (limit : ℕ × ℕ) (bytes : ℕ) : Decidable (window.Exceeds limit bytes) :=
  inferInstanceAs (Decidable (_ ∨ _))

def charge (window : Window) (bytes : ℕ) : Window :=
  { window with
    events := (window.events + 1) % 2 ^ 64
    bytes := (window.bytes + bytes) % 2 ^ 64 }

end Window

structure RateLimiter where
  limits : RateLimits
  room : AdmissionKind → Window
  clients : AdmissionKind → Uuid → Option Window

namespace RateLimiter

def new (limits : RateLimits) (now : ℕ) : RateLimiter where
  limits := limits
  room _ := .new now
  clients _ _ := none

variable (limiter : RateLimiter) (client : Uuid) (kind : AdmissionKind)

/-- The window that a call at `now` finds. -/
def window : RateSlot → ℕ → Window
  | (kind, none), _ => limiter.room kind
  | (kind, some client), now => (limiter.clients kind client).getD (.new now)

def store (mine room : Window) : RateLimiter :=
  { limiter with
    room := Function.update limiter.room kind room
    clients := Function.update limiter.clients kind
      (Function.update (limiter.clients kind) client (some mine)) }

/-- The method `admit`. -/
def admitCall (bytes now : ℕ) : RateAdmission × RateLimiter :=
  let mine := (limiter.window (kind, some client) now).resetIfElapsed now
  let room := (limiter.window (kind, none) now).resetIfElapsed now
  if mine.Exceeds (limiter.limits.perSecond (kind, some client)) bytes then
    (.clientLimited, limiter.store client kind mine room)
  else if room.Exceeds (limiter.limits.perSecond (kind, none)) bytes then
    (.roomLimited, limiter.store client kind mine room)
  else (.admitted, limiter.store client kind (mine.charge bytes) (room.charge bytes))

def removeClient : RateLimiter :=
  { limiter with clients := fun kind => Function.update (limiter.clients kind) client none }

theorem window_store (mine room : Window) (slot : RateSlot) (now : ℕ) :
    (limiter.store client kind mine room).window slot now = if slot = (kind, none) then room
      else if slot = (kind, some client) then mine else limiter.window slot now := by
  obtain ⟨other, id⟩ := slot
  by_cases hkind : other = kind
  · subst hkind
    cases id with
    | none => simp [store, window]
    | some id => by_cases hid : id = client <;> simp [store, window, hid]
  · cases id <;> simp [store, window, hkind]

end RateLimiter

inductive RateCall
  | admission (client : Uuid) (kind : AdmissionKind) (bytes : ℕ)
  | removeClient (client : Uuid)

/-- A limiter at the time of its last call, with the times and bytes of what it admitted, of
a client only since its last removal. -/
structure Metered where
  limiter : RateLimiter
  now : ℕ
  admitted : RateSlot → List (ℕ × ℕ)

/-- A call, some time after the last one. -/
def Metered.step (s : Metered) (call : ℕ × RateCall) : Metered :=
  let now := s.now + call.1
  match call.2 with
  | .removeClient client =>
    { limiter := s.limiter.removeClient client
      now := now
      admitted := fun slot => if slot.2 = some client then [] else s.admitted slot }
  | .admission client kind bytes =>
    let outcome := s.limiter.admitCall client kind bytes now
    { limiter := outcome.2
      now := now
      admitted := fun slot =>
        if outcome.1 = .admitted ∧ (slot = (kind, none) ∨ slot = (kind, some client))
        then (now, bytes) :: s.admitted slot else s.admitted slot }

/-- The limiter after calls at times that do not decrease. -/
def meter (limits : RateLimits) (start : ℕ) (calls : List (ℕ × RateCall)) : Metered :=
  calls.foldl Metered.step ⟨.new limits start, start, fun _ => []⟩

/-! ## Bounds -/

def eventsOf (charges : List (ℕ × ℕ)) : List (ℕ × ℕ) := charges.map fun charge => (charge.1, 1)

/-- A window accounts for the admissions up to `now`. -/
structure Window.Fits (window : Window) (limit : ℕ × ℕ) (now : ℕ)
    (charges : List (ℕ × ℕ)) : Prop where
  started : window.started ≤ now
  events : Windowed second limit.1 window.started window.events (eventsOf charges)
  bytes : Windowed second limit.2 window.started window.bytes charges

section

variable {window : Window} {limit : ℕ × ℕ} {now bytes start later : ℕ} {charges : List (ℕ × ℕ)}

theorem Window.fits_new (limit : ℕ × ℕ) (h : start ≤ now) : (Window.new start).Fits limit now [] :=
  ⟨h, windowed_nil (Nat.zero_le _), windowed_nil (Nat.zero_le _)⟩

theorem Window.Fits.mono (h : window.Fits limit now charges) (hle : now ≤ later) :
    window.Fits limit later charges :=
  ⟨h.started.trans hle, h.events, h.bytes⟩

theorem Window.Fits.reset (h : window.Fits limit now charges) :
    (window.resetIfElapsed now).Fits limit now charges ∧
      now < (window.resetIfElapsed now).started + second := by
  have hstarted := h.started
  unfold resetIfElapsed
  split
  · have helapsed : window.started + second ≤ now := by omega
    exact ⟨⟨le_rfl, h.events.restart helapsed, h.bytes.restart helapsed⟩,
      Nat.lt_add_of_pos_right (by decide)⟩
  · exact ⟨h, by omega⟩

theorem Window.Fits.charge (h : window.Fits limit now charges)
    (hnow : now < window.started + second) (hlimit : limit.1 < 2 ^ 64 - 1 ∧ limit.2 < 2 ^ 64 - 1)
    (hfits : ¬window.Exceeds limit bytes) :
    (window.charge bytes).Fits limit now ((now, bytes) :: charges) := by
  simp only [Exceeds, saturatingAddU64] at hfits
  have hevents : (window.events + 1) % 2 ^ 64 = window.events + 1 := Nat.mod_eq_of_lt (by omega)
  have hbytes : (window.bytes + bytes) % 2 ^ 64 = window.bytes + bytes :=
    Nat.mod_eq_of_lt (by omega)
  refine ⟨h.started, ?_, ?_⟩
  · simp only [Window.charge, hevents]
    exact h.events.charge h.started hnow (by omega)
  · simp only [Window.charge, hbytes]
    exact h.bytes.charge h.started hnow (by omega)

theorem RateLimits.perSecond_lt (limits : RateLimits) (slot : RateSlot) :
    (limits.perSecond slot).1 < 2 ^ 64 - 1 ∧ (limits.perSecond slot).2 < 2 ^ 64 - 1 := by
  have hupdates := limits.updates
  have hupdateBytes := limits.updateBytes
  have hawareness := limits.awareness
  have hawarenessBytes := limits.awarenessBytes
  have hproduct := Nat.mul_le_mul hawarenessBytes.2 hawareness.2.2
  rcases slot with ⟨_ | _, _ | _⟩ <;> simp only [perSecond] <;> omega

end

/-- Every window accounts for what was admitted, from now on. -/
structure Metered.Sound (limits : RateLimits) (s : Metered) : Prop where
  limits_eq : s.limiter.limits = limits
  fits : ∀ slot now, s.now ≤ now →
    (s.limiter.window slot now).Fits (limits.perSecond slot) now (s.admitted slot)

section

variable {limits : RateLimits} {s : Metered}

theorem Metered.Sound.store {client : Uuid} {kind : AdmissionKind} {mine room : Window} {now : ℕ}
    {admitted : RateSlot → List (ℕ × ℕ)} (h : s.Sound limits) (hnow : s.now ≤ now)
    (hroom : room.Fits (limits.perSecond (kind, none)) now (admitted (kind, none)))
    (hmine : mine.Fits (limits.perSecond (kind, some client)) now (admitted (kind, some client)))
    (hother : ∀ slot, slot ≠ (kind, none) → slot ≠ (kind, some client) →
      admitted slot = s.admitted slot) :
    Sound limits ⟨s.limiter.store client kind mine room, now, admitted⟩ := by
  refine ⟨h.limits_eq, fun slot later hlater => ?_⟩
  simp only [RateLimiter.window_store]
  split
  · next hslot => exact hslot ▸ hroom.mono hlater
  · next hne =>
    split
    · next hslot => exact hslot ▸ hmine.mono hlater
    · next hne' => exact hother slot hne hne' ▸ h.fits slot later (hnow.trans hlater)

theorem Metered.Sound.step (h : s.Sound limits) (call : ℕ × RateCall) :
    (s.step call).Sound limits := by
  obtain ⟨elapsed, call⟩ := call
  have hnow : s.now ≤ s.now + elapsed := Nat.le_add_right _ _
  cases call with
  | removeClient client =>
    refine ⟨h.limits_eq, fun slot later hlater => ?_⟩
    have hfits := h.fits slot later (hnow.trans hlater)
    obtain ⟨kind, _ | id⟩ := slot
    · exact hfits
    · by_cases hid : id = client
      · simpa [Metered.step, RateLimiter.removeClient, RateLimiter.window, hid] using
          Window.fits_new _ le_rfl
      · simpa [Metered.step, RateLimiter.removeClient, RateLimiter.window, hid] using hfits
  | admission client kind bytes =>
    have hreset := fun slot => (h.fits slot _ hnow).reset
    have hkept := h.store hnow (hreset (kind, none)).1 (hreset (kind, some client)).1
    simp only [Metered.step, RateLimiter.admitCall, h.limits_eq]
    split
    · simpa using hkept
    · next hmine =>
      split
      · simpa using hkept
      · next hroom =>
        refine h.store hnow ?_ ?_ fun slot hne hne' => if_neg (by tauto)
        · simpa using (hreset _).1.charge (hreset _).2 (limits.perSecond_lt _) hroom
        · simpa using (hreset _).1.charge (hreset _).2 (limits.perSecond_lt _) hmine

theorem sound_meter (limits : RateLimits) (start : ℕ) (calls : List (ℕ × RateCall)) :
    (meter limits start calls).Sound limits := by
  refine List.foldlRecOn calls _ ⟨rfl, fun slot now hnow => ?_⟩ fun s h call _ => h.step call
  obtain ⟨_, _ | _⟩ := slot
  · exact Window.fits_new _ hnow
  · exact Window.fits_new _ le_rfl

end

/-- The windows after a refused call are those that the call found.  In less than a second,
from `x` to `y`, at most twice the limits are admitted, of the events and of the bytes, for
the room and for each client since its last removal. -/
theorem admissions_are_bounded (limits : RateLimits) (start : ℕ) (calls : List (ℕ × RateCall)) :
    let s := meter limits start calls
    (∀ client kind bytes now, (s.limiter.admitCall client kind bytes now).1 ≠ .admitted →
      (s.limiter.admitCall client kind bytes now).2 = s.limiter.store client kind
        ((s.limiter.window (kind, some client) now).resetIfElapsed now)
        ((s.limiter.window (kind, none) now).resetIfElapsed now)) ∧
    ∀ slot x y, y < x + second →
      spent x y (eventsOf (s.admitted slot)) ≤ 2 * (limits.perSecond slot).1 ∧
        spent x y (s.admitted slot) ≤ 2 * (limits.perSecond slot).2 := by
  refine ⟨fun client kind bytes now hrefused => ?_, fun slot x y hspan => ?_⟩
  · unfold RateLimiter.admitCall at hrefused ⊢
    grind
  · have hfits := (sound_meter limits start calls).fits slot _ le_rfl
    exact ⟨hfits.events.twice x y hspan, hfits.bytes.twice x y hspan⟩

end FileBelt.Collaboration
