import FileBelt.Nfs.Lifecycle

/-!
# Repeated drain commands

The drain command persists its marker, drains the local exports and tells the VFS.  A
command that finds the marker of an earlier one reports success at once, so a report is
only as good as the command that put the marker there.
-/

namespace FileBelt.Nfs

/-- The errors of a gateway that `drain` returns. -/
inductive DrainError
  | state | vfs | exports
  deriving DecidableEq, Repr

/-- What one command meets: the outcomes of `write_state`, of the installer's `drain` and of
`validate`, and the error code of a reply of the VFS. -/
structure DrainCall where
  write : WriteOutcome
  localDrained : Bool
  requestValid : Bool
  response : Option ℤ

/-- The state file, and whether some command has drained the exports and the VFS. -/
structure DrainHost where
  disk : Option GatewayStateFile
  exportsDrained : Bool
  vfsDrained : Bool

/-- `VfsError::Ok`. -/
def vfsErrorOk : ℤ := 1

def drain (host : DrainHost) (call : DrainCall) : DrainHost × Except DrainError Unit :=
  match host.disk with
  | none => (host, .error .state)
  | some state =>
    if state.draining then (host, .ok ())
    else
      let marked := { host with disk := some { state with draining := true } }
      match call.write with
      | .failed => (host, .error .state)
      | .unsynced => (marked, .error .state)
      | .written =>
        -- The result of the installer is looked at last.
        let drained := { marked with exportsDrained := host.exportsDrained || call.localDrained }
        if call.requestValid = false then (drained, .error .state)
        else if call.response ≠ some vfsErrorOk then (drained, .error .vfs)
        else
          let told := { drained with vfsDrained := true }
          if call.localDrained = false then (told, .error .exports) else (told, .ok ())

/-- The host after a sequence of commands. -/
def drains (host : DrainHost) (calls : List DrainCall) : DrainHost :=
  calls.foldl (fun host call => (drain host call).1) host

/-- Nothing fails once the marker is in place. -/
def DrainCall.Completes (call : DrainCall) : Prop :=
  call.write = .failed ∨ (call.write = .written ∧ call.localDrained ∧
    call.requestValid ∧ call.response = some vfsErrorOk)

/-- The exports and the VFS are drained if the marker is in the state file. -/
def DrainHost.Drained (host : DrainHost) : Prop :=
  host.disk.any GatewayStateFile.draining →
    host.exportsDrained ∧ host.vfsDrained

variable {host : DrainHost} {call : DrainCall}

theorem DrainHost.Drained.drain (h : host.Drained) (hcall : call.Completes) :
    (drain host call).1.Drained := by
  unfold Nfs.drain
  split
  · exact h
  · split
    · exact h
    · rcases hcall with hwrite | ⟨hwrite, hlocal, hvalid, hresponse⟩
      · rw [hwrite]
        exact h
      · simp [hwrite, hlocal, hvalid, hresponse, DrainHost.Drained]

theorem DrainHost.Drained.of_ok (h : host.Drained) (hok : (Nfs.drain host call).2 = .ok ()) :
    (Nfs.drain host call).1.exportsDrained ∧ (Nfs.drain host call).1.vfsDrained := by
  unfold Nfs.drain at hok ⊢
  split at hok
  · cases hok
  · next state hdisk =>
    split at hok
    · next hmarker =>
      rw [if_pos hmarker]
      exact h (by rw [hdisk]; exact hmarker)
    · cases hwrite : call.write with
      | failed =>
        rw [hwrite] at hok
        cases hok
      | unsynced =>
        rw [hwrite] at hok
        cases hok
      | written =>
        rw [hwrite] at hok
        split_ifs at hok ⊢ with hvalid hresponse hlocal
        simp [hlocal]

theorem DrainHost.Drained.drains (h : host.Drained) {calls : List DrainCall}
    (hcalls : ∀ call ∈ calls, call.Completes) : (drains host calls).Drained := by
  induction calls generalizing host with
  | nil => exact h
  | cons call rest ih =>
    obtain ⟨hcall, hrest⟩ := List.forall_mem_cons.mp hcalls
    exact ih (h.drain hcall) hrest

/-- A command reports success only after the exports and the VFS were drained, as long as
the first command that put the marker in place failed in no later part. -/
theorem drain_ok_after_both (host : DrainHost)
    (hfresh : host.disk.any GatewayStateFile.draining = false) (calls : List DrainCall)
    (hcalls : ∀ call ∈ calls, call.Completes) (call : DrainCall)
    (hok : (drain (drains host calls) call).2 = .ok ()) :
    (drain (drains host calls) call).1.exportsDrained ∧
      (drain (drains host calls) call).1.vfsDrained := by
  have hdrained : host.Drained := by
    intro hmarker
    rw [hfresh] at hmarker
    cases hmarker
  exact (hdrained.drains hcalls).of_ok hok

def undrainedHost : DrainHost where
  disk := some ⟨5, 1, 9, 1, 4, 1800000000, false⟩
  exportsDrained := false
  vfsDrained := false

/-- The first command cannot write, the second drains, the third finds the marker. -/
theorem drain_ok_after_two :
    (drain (drains undrainedHost [⟨.failed, true, true, none⟩, ⟨.written, true, true, some 1⟩])
      ⟨.failed, false, true, none⟩).1.vfsDrained := by
  refine (drain_ok_after_both undrainedHost rfl _ ?_ _ rfl).2
  exact List.forall_mem_cons.mpr ⟨.inl rfl,
    List.forall_mem_singleton.mpr (.inr ⟨rfl, rfl, rfl, rfl⟩)⟩

/-- Neither the installer nor the VFS answers the first command; the second one succeeds. -/
theorem drain_ok_after_neither :
    (drain undrainedHost ⟨.written, false, true, none⟩).2 = .error .vfs ∧
      drain (drains undrainedHost [⟨.written, false, true, none⟩]) ⟨.written, false, true, none⟩ =
        (drains undrainedHost [⟨.written, false, true, none⟩], .ok ()) ∧
      (drains undrainedHost [⟨.written, false, true, none⟩]).exportsDrained = false ∧
      (drains undrainedHost [⟨.written, false, true, none⟩]).vfsDrained = false :=
  ⟨rfl, rfl, rfl, rfl⟩

end FileBelt.Nfs
