import FileBelt.Nfs.Pages
import Mathlib.Data.Finset.Card

/-!
# Reading a directory

`filebelt_readdir` hands the children of a directory to a callback, page by page.  A
directory handle remembers for the last sixty-four cookies the cursor of a page and how
many of its children to skip.  The callback may stop a call after any child; the next
call starts from the cookie of the last child it got.  The listing of the VFS never says
that a directory is at its end, so no reading comes to one.
-/

namespace FileBelt.Nfs

open Support.Protobuf

def readdirSlots : ℕ := 64

def cursorBytes : ℕ := 1025

def listLimit : ℕ := 256

/-- `FIRST_COOKIE` of the file server. -/
def firstCookie : ℕ := 3

structure ReaddirSlot where
  cookie : ℕ := 0
  skip : ℕ := 0
  cursor : List Byte := []
  deriving DecidableEq, Repr

/-- The part of `struct filebelt_obj_handle` that reading a directory uses. -/
structure FilebeltObjHandle where
  slots : Fin readdirSlots → ReaddirSlot
  next : Fin readdirSlots

def FilebeltObjHandle.fresh : FilebeltObjHandle := ⟨fun _ => {}, ⟨0, by decide⟩⟩

def FilebeltObjHandle.put (handle : FilebeltObjHandle) (slot : ReaddirSlot) :
    FilebeltObjHandle where
  slots := fun i => if i = handle.next then slot else handle.slots i
  next := ⟨(handle.next + 1) % readdirSlots, Nat.mod_lt _ (by decide)⟩

def rememberReaddir (handle : FilebeltObjHandle) (cookie : ℕ)
    (cursor : List Byte) (skip : ℕ) : Option FilebeltObjHandle :=
  if cursorBytes ≤ cursor.length then none
  else some (handle.put ⟨cookie, skip, cursor⟩)

def resumeReaddir (handle : FilebeltObjHandle) (cookie : ℕ) : Option ReaddirSlot :=
  ((List.finRange readdirSlots).map handle.slots).find? (·.cookie = cookie)

def filebeltCopySlice (slice : List Byte) (capacity : ℕ) : Option (List Byte) :=
  if slice = [] ∨ capacity ≤ slice.length ∨ 0 ∈ slice then none else some slice

inductive FsalStatus
  | noError | badCookie | inval | serverFault
  deriving DecidableEq, Repr

inductive LoopEnd
  | completed | terminated | failed
  deriving DecidableEq, Repr

/-- A child and the cookie it was handed out with. -/
structure Delivery where
  child : ChildRecord
  cookie : ℕ
  deriving DecidableEq, Repr

structure LoopState where
  handle : FilebeltObjHandle
  baseCookie : ℕ
  delivered : List Delivery

/-- The state after the callback got a child. -/
def LoopState.deliver (s : LoopState) (handle : FilebeltObjHandle)
    (entry : ChildRecord) : LoopState where
  handle := handle
  baseCookie := s.baseCookie + 1
  delivered := s.delivered ++ [⟨entry, s.baseCookie + 1⟩]

/-- `stop n` says that the callback stops the call at its child number `n`. -/
def deliverLoop (cursor : List Byte) (stop : ℕ → Bool) :
    ℕ → LoopState → List ChildRecord → LoopState × LoopEnd
  | _, s, [] => (s, .completed)
  | index, s, entry :: entries =>
    match filebeltCopySlice entry.displayName 256 with
    | none => (s, .failed)
    | some _ =>
      match rememberReaddir s.handle (s.baseCookie + 1) cursor (index + 1) with
      | none => (s, .failed)
      | some handle =>
        if stop s.delivered.length then
          (s.deliver handle entry, .terminated)
        else
          deliverLoop cursor stop (index + 1) (s.deliver handle entry) entries

structure ReaddirResult where
  status : FsalStatus
  eof : Bool
  delivered : List Delivery
  deriving DecidableEq, Repr

/-- The end of a call whose callback took the whole page. -/
def finishPage (page : ListResponse) (s : LoopState) : ReaddirResult × FilebeltObjHandle :=
  if page.endOfFile then (⟨.noError, true, s.delivered⟩, s.handle)
  else
    match filebeltCopySlice page.nextCursor cursorBytes with
    | none => (⟨.serverFault, false, s.delivered⟩, s.handle)
    | some next =>
      match rememberReaddir s.handle s.baseCookie next 0 with
      | none => (⟨.serverFault, false, s.delivered⟩, s.handle)
      | some handle => (⟨.noError, false, s.delivered⟩, handle)

/-- A call that goes on from a slot; the database returns the children as `nodes`. -/
def readPage (nodes : List ChildRecord) (handle : FilebeltObjHandle) (baseCookie : ℕ)
    (slot : ReaddirSlot) (stop : ℕ → Bool) : ReaddirResult × FilebeltObjHandle :=
  match listNodes nodes slot.cursor listLimit with
  | .error _ => (⟨.inval, false, []⟩, handle)
  | .ok page =>
    if page.entries.length < slot.skip then (⟨.badCookie, false, []⟩, handle)
    else
      match deliverLoop slot.cursor stop slot.skip ⟨handle, baseCookie, []⟩
          (page.entries.drop slot.skip) with
      | (s, .failed) => (⟨.serverFault, page.endOfFile, s.delivered⟩, s.handle)
      | (s, .terminated) => (⟨.noError, false, s.delivered⟩, s.handle)
      | (s, .completed) => finishPage page s

/-- `filebelt_readdir` of an ordinary directory. -/
def filebeltReaddir (nodes : List ChildRecord) (handle : FilebeltObjHandle) (whence : ℕ)
    (stop : ℕ → Bool) : ReaddirResult × FilebeltObjHandle :=
  if whence = 0 then readPage nodes handle (firstCookie - 1) {} stop
  else
    match resumeReaddir handle whence with
    | none => (⟨.badCookie, false, []⟩, handle)
    | some slot => readPage nodes handle whence slot stop

/-! ## Whole readings -/

/-- A client that reads a directory: what its calls returned so far. -/
structure ListingSession where
  handle : FilebeltObjHandle
  results : List ReaddirResult

def ListingSession.start : ListingSession := ⟨.fresh, []⟩

def ListingSession.delivered (s : ListingSession) : List Delivery :=
  s.results.flatMap ReaddirResult.delivered

/-- The children that the callback got. -/
def ListingSession.children (s : ListingSession) : List ChildRecord :=
  s.delivered.map Delivery.child

/-- The cookie of the last child. -/
def ListingSession.whence (s : ListingSession) : ℕ :=
  (s.delivered.getLast?.map Delivery.cookie).getD 0

/-- The next call, from the last cookie. -/
def ListingSession.next (nodes : List ChildRecord) (s : ListingSession) (stop : ℕ → Bool) :
    ReaddirResult × FilebeltObjHandle :=
  filebeltReaddir nodes s.handle s.whence stop

/-- The session after `n` calls on an unchanged directory; `stops n` says where the callback
stops call number `n`. -/
def ListingSession.after (nodes : List ChildRecord) (stops : ℕ → ℕ → Bool) : ℕ → ListingSession
  | 0 => .start
  | n + 1 =>
    let s := after nodes stops n
    let result := s.next nodes (stops n)
    ⟨result.2, s.results ++ [result.1]⟩

/-- A directory is read: until the end of file is reported no call fails and each gets a new
child or reports it, and by then the visible children were delivered, each once. -/
structure ReadsDirectory (nodes : List ChildRecord) (stops : ℕ → ℕ → Bool) : Prop where
  no_error : ∀ n, (∀ r ∈ (ListingSession.after nodes stops n).results, r.eof = false) →
    ((ListingSession.after nodes stops n).next nodes (stops n)).1.status = .noError
  progress : ∀ n, (∀ r ∈ (ListingSession.after nodes stops n).results, r.eof = false) →
    ((ListingSession.after nodes stops n).next nodes (stops n)).1.eof ∨
      ∃ x ∈ ((ListingSession.after nodes stops n).next nodes (stops n)).1.delivered,
        x.child ∉ (ListingSession.after nodes stops n).children
  complete : ∀ n, (∀ r ∈ (ListingSession.after nodes stops n).results, r.eof = false) →
    ((ListingSession.after nodes stops n).next nodes (stops n)).1.eof →
      (ListingSession.after nodes stops (n + 1)).children.Perm (nodes.filter ChildRecord.visible)

section

variable {nodes : List ChildRecord} {cursor : List Byte} {stop : ℕ → Bool}

/-- A page does not end its directory and holds children of it. -/
theorem listNodes_ok {limit : ℕ} {page : ListResponse}
    (h : listNodes nodes cursor limit = .ok page) :
    page.endOfFile = false ∧ ∀ c ∈ page.entries, c ∈ nodes := by
  rw [listNodes] at h
  split at h
  · cases h
  · cases hcursor : requestedCursor cursor with
    | none =>
      rw [hcursor] at h
      cases h
    | some =>
      rw [hcursor] at h
      obtain rfl := Except.ok.inj h
      rw [listPage]
      split
      · exact ⟨rfl, fun c hc => mem_of_mem_listLoop (List.mem_of_mem_dropLast hc)⟩
      · exact ⟨rfl, fun c hc => mem_of_mem_listLoop hc⟩

theorem deliverLoop_mem {entries : List ChildRecord} (hentries : ∀ c ∈ entries, c ∈ nodes)
    (index : ℕ) (s : LoopState) (hs : ∀ x ∈ s.delivered, x.child ∈ nodes) :
    ∀ x ∈ (deliverLoop cursor stop index s entries).1.delivered, x.child ∈ nodes := by
  induction entries generalizing index s with
  | nil => exact hs
  | cons entry entries ih =>
    obtain ⟨hentry, hentries⟩ := List.forall_mem_cons.mp hentries
    have hnext : ∀ handle, ∀ x ∈ (s.deliver handle entry).delivered, x.child ∈ nodes := fun _ =>
      List.forall_mem_append.mpr ⟨hs, List.forall_mem_singleton.mpr hentry⟩
    rw [deliverLoop]
    split
    · exact hs
    · split
      · exact hs
      · split
        · exact hnext _
        · exact ih hentries _ _ (hnext _)

/-- What every call keeps to: it does not report the end and delivers children of the
directory. -/
def ReaddirResult.Within (nodes : List ChildRecord) (result : ReaddirResult) : Prop :=
  result.eof = false ∧ ∀ x ∈ result.delivered, x.child ∈ nodes

theorem readPage_within (handle : FilebeltObjHandle) (baseCookie : ℕ) (slot : ReaddirSlot) :
    (readPage nodes handle baseCookie slot stop).1.Within nodes := by
  rw [readPage]
  split
  · exact ⟨rfl, fun _ hx => absurd hx List.not_mem_nil⟩
  · next page hpage =>
    obtain ⟨heof, hentries⟩ := listNodes_ok hpage
    have hloop : ∀ x ∈ (deliverLoop slot.cursor stop slot.skip ⟨handle, baseCookie, []⟩
        (page.entries.drop slot.skip)).1.delivered, x.child ∈ nodes :=
      deliverLoop_mem (fun c hc => hentries c (List.mem_of_mem_drop hc)) _ _
        fun _ hx => absurd hx List.not_mem_nil
    generalize deliverLoop slot.cursor stop slot.skip ⟨handle, baseCookie, []⟩
      (page.entries.drop slot.skip) = result at hloop
    obtain ⟨s, loopEnd⟩ := result
    split
    · exact ⟨rfl, fun _ hx => absurd hx List.not_mem_nil⟩
    · cases loopEnd with
      | failed => exact ⟨heof, hloop⟩
      | terminated => exact ⟨rfl, hloop⟩
      | completed =>
        dsimp only [finishPage]
        rw [heof, if_neg Bool.false_ne_true]
        split
        · exact ⟨rfl, hloop⟩
        · split <;> exact ⟨rfl, hloop⟩

theorem filebeltReaddir_within (handle : FilebeltObjHandle) (whence : ℕ) :
    (filebeltReaddir nodes handle whence stop).1.Within nodes := by
  rw [filebeltReaddir]
  split
  · exact readPage_within _ _ _
  · split
    · exact ⟨rfl, fun _ hx => absurd hx List.not_mem_nil⟩
    · exact readPage_within _ _ _

variable {stops : ℕ → ℕ → Bool}

theorem ListingSession.children_after (n : ℕ) : (after nodes stops (n + 1)).children =
    (after nodes stops n).children ++
      ((after nodes stops n).next nodes (stops n)).1.delivered.map Delivery.child := by
  rw [children, delivered, after, List.flatMap_append, List.flatMap_singleton, List.map_append]
  rfl

theorem ListingSession.after_within (n : ℕ) :
    ∀ r ∈ (after nodes stops n).results, r.Within nodes := by
  induction n with
  | zero => exact fun _ hr => absurd hr List.not_mem_nil
  | succ n ih =>
    exact List.forall_mem_append.mpr
      ⟨ih, List.forall_mem_singleton.mpr (filebeltReaddir_within _ _)⟩

theorem ListingSession.children_subset (n : ℕ) : (after nodes stops n).children ⊆ nodes := by
  intro c hc
  obtain ⟨x, hx, rfl⟩ := List.mem_map.mp hc
  obtain ⟨r, hr, hx⟩ := List.mem_flatMap.mp hx
  exact (after_within n r hr).2 x hx

/-- As no call reports the end, each brings a child that was not delivered before. -/
theorem ReadsDirectory.le_card (h : ReadsDirectory nodes stops) (n : ℕ) :
    n ≤ (ListingSession.after nodes stops n).children.toFinset.card := by
  induction n with
  | zero => exact Nat.zero_le _
  | succ n ih =>
    have hopen : ∀ r ∈ (ListingSession.after nodes stops n).results, r.eof = false :=
      fun r hr => (ListingSession.after_within n r hr).1
    rcases h.progress n hopen with heof | ⟨x, hx, hnew⟩
    · rw [ListingSession.next, (filebeltReaddir_within _ _).1] at heof
      cases heof
    · have hsub : insert x.child (ListingSession.after nodes stops n).children.toFinset ⊆
          (ListingSession.after nodes stops (n + 1)).children.toFinset := by
        rw [ListingSession.children_after, List.toFinset_append]
        refine Finset.insert_subset ?_ Finset.subset_union_left
        refine Finset.mem_union_right _ (List.mem_toFinset.mpr ?_)
        exact List.mem_map_of_mem hx
      have hcard := Finset.card_le_card hsub
      rw [Finset.card_insert_of_notMem (mt List.mem_toFinset.mp hnew)] at hcard
      exact (Nat.succ_le_succ ih).trans hcard

end

/-- No directory is read: the end of file is never reported, and a directory has too few
children for every call to deliver a new one. -/
theorem readdir_never_reads (nodes : List ChildRecord) (stops : ℕ → ℕ → Bool) :
    ¬ReadsDirectory nodes stops := by
  intro h
  have hmany := h.le_card (nodes.length + 1)
  have hsub : (ListingSession.after nodes stops (nodes.length + 1)).children.toFinset ⊆
      nodes.toFinset := by
    intro c hc
    rw [List.mem_toFinset] at hc ⊢
    exact ListingSession.children_subset _ hc
  have hfew := (Finset.card_le_card hsub).trans nodes.toFinset_card_le
  omega

theorem letter_text {letter : Byte} (hascii : letter < 0x80 ∧ letter ≠ 0) :
    utf8Valid [letter] ∧ 0 ∉ [letter] := by
  refine ⟨decide_eq_true hascii.1, ?_⟩
  rw [List.mem_singleton]
  exact fun h => hascii.2 h.symm

theorem letter_ne_nil (letter : Byte) : [letter] ≠ [] := List.cons_ne_nil _ _

theorem letter_length (letter : Byte) : [letter].length ≤ 255 := Nat.le_of_ble_eq_true rfl

def letterFile (letter : Byte) (hascii : letter < 0x80 ∧ letter ≠ 0) (id : ℕ)
    (hpositive : id ≠ 0) (hbound : id < 2 ^ 128) : ChildRecord where
  kind := .file
  nameKey := [letter]
  id := id
  displayName := [letter]
  visible := true
  nameKeyNonempty := letter_ne_nil letter
  nameKeyText := letter_text hascii
  idPositive := hpositive
  idBound := hbound
  displayNameText := ⟨letter_ne_nil letter, letter_length letter, (letter_text hascii).2⟩

def threeFiles : List ChildRecord :=
  [letterFile 97 (by decide) 1 (by decide) (by decide),
    letterFile 98 (by decide) 2 (by decide) (by decide),
    letterFile 99 (by decide) 3 (by decide) (by decide)]

/-- A callback that takes every child gets the three children and an error. -/
theorem readdir_lastPage_fails :
    (filebeltReaddir threeFiles .fresh 0 fun _ => false).1.status = .serverFault ∧
      (filebeltReaddir threeFiles .fresh 0 fun _ => false).1.eof = false ∧
      (filebeltReaddir threeFiles .fresh 0 fun _ => false).1.delivered.map Delivery.child =
        threeFiles ∧
      ¬ReadsDirectory threeFiles fun _ _ => false := by
  have hstatus : (filebeltReaddir threeFiles .fresh 0 fun _ => false).1.status = .serverFault := by
    decide +kernel
  refine ⟨hstatus, by decide +kernel, by decide +kernel, ?_⟩
  intro h
  have hok := h.no_error 0 fun _ hr => absurd hr List.not_mem_nil
  cases hstatus.symm.trans hok

end FileBelt.Nfs
