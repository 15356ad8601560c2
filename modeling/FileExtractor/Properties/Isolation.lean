import FileExtractor.Properties.Pairing

/-!
# Tasks are isolated, but for the names of their objects

What the system keeps of a task (`World.view`): its row, its claims, its records, its `File` rows,
the names that it has marked and the objects of its records. A step leaves the view of a task that
it does not concern (`World.Concerns`), and so does any run of such steps, whatever other tasks do
meanwhile. The one thing that tasks share is the bucket: its keys have the file name and not the
task, so an upload or a cleanup of another task concerns a task that has a record of the name.
-/

namespace FileExtractor

open Rel Lts World

/-- What is stored of a task. -/
structure TaskView where
  row : Option DownloadTaskModel
  claims : Nat
  record : String → Option DownloadedFileModel
  file : FileId → Option FileModel
  marked : List (TaskId × String)
  object : String → Option Bytes

namespace World

def view (w : World) (id : TaskId) : TaskView where
  row := w.store.tasks.get? id
  claims := w.claims id
  record n := w.store.downloaded.get? (id, n)
  file fileId := if w.store.owner fileId = some id then w.store.files.get? fileId else none
  marked := w.store.marked.filter fun p => p.1 = id
  object n :=
    if w.store.downloaded.exists_ id n then w.store.bucket (Handler.storageKey n) else none

/-- The step works on the task, or on an object of one of its records. -/
def Concerns (w : World) (id : TaskId) : Label → Prop
  | .start _ taskId _ _ => taskId = id
  | .claim pid _ => ∃ m workerId, w.procs pid = .received m workerId ∧ m.taskId = id
  | .reclaimStuck _ ids _ | .reclaimBlocked _ ids _ => id ∈ ids
  | .call pid _ => ∃ k, w.procs pid = .handling k ∧ (k.message.taskId = id ∨
      ∃ n, w.store.downloaded.exists_ id n = true ∧
        ((∃ content, k.handler.call k.message =
            some (.uploadStream (Handler.storageKey n) content)) ∨
          k.handler.call k.message = some (.deleteObject (Handler.storageKey n))))
  | _ => False

variable {sha256 : Bytes → Digest} {w w' : World} {l : Label} {id : TaskId}

/-! ## The parts of the view -/

/-- The rows of the tasks that are not concerned. -/
theorem row_unconcerned (hid : w.CopiesOfMessage) (h : Step sha256 w l w')
    (hl : ¬ w.Concerns id l) :
    w'.store.tasks.get? id = w.store.tasks.get? id ∧ w'.claims id = w.claims id := by
  cases hm' : w'.store.tasks.get? id with
  | none =>
    cases hm : w.store.tasks.get? id with
    | some m =>
      obtain ⟨m', hm''⟩ := h.row_persists hm
      rw [hm'] at hm''; cases hm''
    | none =>
      refine ⟨rfl, ?_⟩
      cases h with
      | claimed pid msg workerId fate row hp hf hrow hs =>
        exact Function.update_of_ne (fun e => hl ⟨msg, workerId, hp, e.symm⟩) _ _
      | _ => rfl
  | some m' =>
    have hr := h.rowStep hm'
    generalize hg : w.store.tasks.get? id = g at hr
    cases hr with
    | kept m hn => exact ⟨rfl, hn⟩
    | added pid candidateId fate hlab hn => subst hlab; exact absurd rfl hl
    | claimed m pid msg workerId fate hlab hf hp hmsg hs hn =>
      subst hlab; exact absurd ⟨msg, workerId, hp, hmsg⟩ hl
    | written m pid reply k t hlab hp hc ht hn =>
      subst hlab
      have hid' := ((hid pid k hp).stored (.identity fun i _ _ => i = k.message.taskId) hc).1
      exact absurd ⟨k, hp, .inl (hid'.symm.trans ht)⟩ hl
    | releasedStuck m pid ids fate hlab hf hmem hs hn => subst hlab; exact absurd hmem hl
    | releasedBlocked m pid ids fate hlab hf hmem hs hn => subst hlab; exact absurd hmem hl

/-- The insertion of a file for another task. -/
theorem addFile_unconcerned {taskId tid : TaskId} {file : File} {fileHash : FileHash}
    {s s' : Store} (h : s.apply taskId (.addFile tid file fileHash) = some s') (hne : tid ≠ id) :
    (∀ n, s'.downloaded.get? (id, n) = s.downloaded.get? (id, n)) ∧
      ∀ fileId, (if s'.owner fileId = some id then s'.files.get? fileId else none) =
        if s.owner fileId = some id then s.files.get? fileId else none := by
  obtain ⟨files, downloaded, hf, hd, rfl⟩ := Store.apply_addFile h
  refine ⟨fun n => ?_, fun fileId => ?_⟩
  · show downloaded.get? (id, n) = _
    rw [Table.get?_insert hd, if_neg]
    exact fun e => hne (congrArg Prod.fst e).symm
  · show (if Function.update s.owner file.id (some tid) fileId = some id
      then files.get? fileId else none) = _
    by_cases he : fileId = file.id
    · subst he
      have hnew : s.files.get? file.id = none := (Table.insert?_eq_some hf).1
      rw [Function.update_self, hnew, if_neg (by simpa using hne)]
      simp
    · rw [Function.update_of_ne he, Table.get?_insert hf]
      rw [if_neg (show fileId ≠ file.toModel.id from he)]

/-- The deletion of a file of another task. -/
theorem deleteFile_unconcerned {taskId tid : TaskId} {file : File} {s s' : Store}
    (h : s.apply taskId (.deleteFile tid file) = some s') (hst : s.Stores tid file)
    (hne : tid ≠ id) :
    (∀ n, s'.downloaded.get? (id, n) = s.downloaded.get? (id, n)) ∧
      ∀ fileId, (if s'.owner fileId = some id then s'.files.get? fileId else none) =
        if s.owner fileId = some id then s.files.get? fileId else none := by
  cases h
  refine ⟨fun n => ?_, fun fileId => ?_⟩
  · show (s.downloaded.deleteRecord tid file.filename).get? (id, n) = _
    rw [DownloadedTable.deleteRecord, Table.get?_delete]
    cases hd : s.downloaded.get? (id, n) with
    | none => rfl
    | some d =>
      have hkey : d.key ≠ (tid, file.filename) := by
        rw [(Table.get?_eq_some.mp hd).2]
        exact fun e => hne (congrArg Prod.fst e).symm
      simp [Option.filter, hkey]
  · show (if s.owner fileId = some id then (s.files.deleteById file.id).get? fileId else none) = _
    split
    · next ho =>
      have he : fileId ≠ file.id := by
        rintro rfl
        rw [hst.2] at ho
        exact hne (Option.some.inj ho)
      rw [FileTable.deleteById, Table.get?_delete]
      cases hm : s.files.get? fileId with
      | none => rfl
      | some m =>
        have hk : m.id ≠ file.id := by rw [(Table.get?_eq_some.mp hm).2]; exact he
        simp [Option.filter, hk]
    · rfl

/-- The records and the `File` rows of the tasks that are not concerned. -/
theorem files_unconcerned (hw : w.FilesInvariant) (hid : w.CopiesOfMessage) (h : Step sha256 w l w')
    (hl : ¬ w.Concerns id l) : (w'.view id).record = (w.view id).record ∧
      (w'.view id).file = (w.view id).file := by
  have own : ∀ {pid : Pid} {reply : Reply} {k : Worker} {f : Frame}, l = .call pid reply →
      w.procs pid = .handling k → k.handler.frame = some f → f.task.id ≠ id := by
    intro pid reply k f hlab hp hf he
    subst hlab
    exact hl ⟨k, hp, .inl ((hid.taskId hp hf).symm.trans he)⟩
  cases h.filesStep with
  | kept hf hd ho =>
    simp only [view, hf, hd, ho, and_self]
  | added pid reply k f file fileHash rest hlab hp hk ha =>
    obtain ⟨hrec, hfile⟩ := addFile_unconcerned ha (own hlab hp (by rw [hk]; rfl))
    exact ⟨funext hrec, funext hfile⟩
  | deleted pid reply k f e file todo hlab hp hk ha =>
    have hst := hw.stored hp (by rw [hk]; exact List.mem_cons_self)
    rw [← hid.taskId hp (f := f) (by rw [hk]; rfl)] at hst
    obtain ⟨hrec, hfile⟩ := deleteFile_unconcerned ha hst (own hlab hp (by rw [hk]; rfl))
    exact ⟨funext hrec, funext hfile⟩

/-- A call marks names of its own task. -/
theorem apply_marked_unconcerned {taskId : TaskId} {c : Call} {s s' : Store}
    (h : s.apply taskId c = some s') (hne : taskId ≠ id) :
    s'.marked.filter (fun p => p.1 = id) = s.marked.filter fun p => p.1 = id := by
  cases c with
  | markDownloaded batch candidateId =>
    cases h
    simp [List.filter_append, List.filter_map, Function.comp_def, hne]
  | addFile tid file fileHash =>
    obtain ⟨files, downloaded, -, -, rfl⟩ := Store.apply_addFile h
    rfl
  | _ => cases h; rfl

theorem marked_unconcerned (h : Step sha256 w l w') (hl : ¬ w.Concerns id l) :
    (w'.view id).marked = (w.view id).marked := by
  rcases h.effect with same | ⟨pid, reply, k, c, rfl, hp, hc, -, ha⟩
  · simp only [view, same.marked]
  · exact apply_marked_unconcerned ha fun e => hl ⟨k, hp, .inl e⟩

/-- The objects of the records. -/
theorem objects_unconcerned (h : Step sha256 w l w') (hl : ¬ w.Concerns id l)
    (hrec : (w'.view id).record = (w.view id).record) :
    (w'.view id).object = (w.view id).object := by
  funext n
  have hex : w'.store.downloaded.exists_ id n = w.store.downloaded.exists_ id n :=
    congrArg Option.isSome (congrFun hrec n)
  show (if w'.store.downloaded.exists_ id n then _ else none) = _
  rw [hex]
  show (if w.store.downloaded.exists_ id n then _ else none) =
    if w.store.downloaded.exists_ id n then _ else none
  split
  · next hn =>
    rcases h.effect with same | ⟨pid, reply, k, c, rfl, hp, hc, -, ha⟩
    · rw [same.bucket]
    rcases Store.apply_bucket ha (Handler.storageKey n) with e | ⟨content, rfl, -⟩ | ⟨rfl, -⟩
    · exact e
    · exact absurd ⟨k, hp, .inr ⟨n, hn, .inl ⟨content, hc⟩⟩⟩ hl
    · exact absurd ⟨k, hp, .inr ⟨n, hn, .inr hc⟩⟩ hl
  · rfl

/-- **One step.** -/
theorem view_unconcerned (hr : (system sha256).Reach System.free w) (h : Step sha256 w l w')
    (hl : ¬ w.Concerns id l) : w'.view id = w.view id := by
  have hid := copies_of_message sha256 w hr
  obtain ⟨hrow, hclaims⟩ := row_unconcerned hid h hl
  obtain ⟨hrec, hfile⟩ := files_unconcerned (files_invariant sha256 w hr) hid h hl
  have hmarked := marked_unconcerned h hl
  have hobject := objects_unconcerned h hl hrec
  unfold view at hrec hfile hmarked hobject ⊢
  simp only [TaskView.mk.injEq] at hrec hfile hmarked hobject ⊢
  exact ⟨hrow, hclaims, hrec, hfile, hmarked, hobject⟩

end World

/-- **Tasks are isolated.** From any reachable state, a run whose steps do not concern a task, of
any length and with any failures, crashes and reclaims of other tasks, leaves what is stored of the
task. -/
theorem tasks_isolated (sha256 : Bytes → Digest) (id : TaskId) (w w' : World) (ls : List Label)
    (hr : (system sha256).Reach System.free w)
    (hg : (system sha256).Guarded (fun w l => ¬ w.Concerns id l) w ls)
    (hrun : (system sha256).run w ls = some w') : w'.view id = w.view id := by
  induction ls generalizing w with
  | nil => cases hrun; rfl
  | cons l ls ih =>
    obtain ⟨v, hst, hrun⟩ := System.run_cons_eq_some.mp hrun
    exact (ih v (.step hr trivial hst) (hg.2 v hst) hrun).trans
      (view_unconcerned hr (Step.of_step hst) hg.1)

/-- A task is created while another one waits. -/
theorem waiting_task_isolated : ∃ w w', (system fun _ => 0).run (fresh 0 fun _ => none)
      [.start 0 "s" none .done, .send 0] = some w ∧
    (system fun _ => 0).run w [.start 0 "t" none .done, .send 0] = some w' ∧
    w'.view "s" = w.view "s" := by
  have h : (system fun _ => 0).run (fresh 0 fun _ => none)
      ([.start 0 "s" none .done, .send 0] ++ [.start 0 "t" none .done, .send 0]) = some _ := rfl
  obtain ⟨w, h₁, h₂⟩ := System.run_append_eq_some.mp h
  refine ⟨w, _, h₁, h₂, tasks_isolated _ "s" _ _ _
    (System.reach_of_run ⟨0, fun _ => none, rfl⟩ h₁) ?_ h₂⟩
  have hne : ("t" : TaskId) ≠ "s" := by decide
  exact ⟨hne, fun v _ => ⟨fun e => e, fun _ _ => trivial⟩⟩

end FileExtractor
