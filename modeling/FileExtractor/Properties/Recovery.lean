import FileExtractor.Properties.Marks
import FileExtractor.Worker.Runs

/-!
# Recovery after crashes and blocks

One task, one handler at a time, and an API that offers the names of `U` with the contents
`content` until they are marked. A run may crash or be blocked at any call and is repeated then.

The cleanup deletes an object first and its rows in a later transaction. A crash between the two
leaves a record without an object, and the next run skips the name (`object_lost`). `Recovers`
excludes a stop at this one call. Under it the objects of the recorded files are there in every
state, except for the file whose rows are about to be deleted (`World.RecoveryInvariant.objects`),
and a task is stored as `SUCCESS` only when every name of `U` is marked, hence recorded.
-/

namespace FileExtractor

open Rel Lts World

/-! ## The environment -/

/-- What the API answers, and where the run does not stop. An answer without names says that each
name of `U` is marked; an archive has a file for each name of the batch, and each entry has the
content of its name; a mark that raises has had no effect; and the transaction that deletes the rows
of a file takes effect. -/
def Answers (U : Set String) (content : String → Bytes) (taskId : TaskId) (s : Store) :
    Handler → Reply → Prop
  | .names _, .done (.names fileNames) => fileNames = [] → ∀ n ∈ U, (taskId, n) ∈ s.marked
  | .download f, .done (.archive archive) =>
    (∀ n ∈ f.batch, ∃ info ∈ archive, info.filename = n ∧ info.isDir = false) ∧
      ∀ info ∈ archive, info.data = content info.filename
  | .mark _, .lost _ => False
  | .deleteRows _ _ _ _, .refused _ => False
  | _, _ => True

/-- The runs of one task. -/
def Recovers (U : Set String) (content : String → Bytes) (taskId : TaskId) (w : World) :
    Label → Prop
  | .start _ id _ _ => id = taskId
  | .call pid reply => ∀ k, w.procs pid = .handling k →
      Answers U content taskId w.store k.handler reply
  | .crash pid => ∀ k f e file todo, w.procs pid = .handling k →
      k.handler ≠ .deleteRows f e file todo
  | l => ReclaimsEnded w l

variable {U : Set String} {content : String → Bytes} {taskId : TaskId} {w w' : World} {l : Label}
  {sha256 : Bytes → Digest}

theorem Recovers.marksFollow (h : Recovers U content taskId w l) : MarksFollow w l := by
  cases l with
  | call pid reply =>
    intro k f hp
    have ha := h k hp
    refine ⟨fun hk archive hr n hn => ?_, fun hk e hr => ?_⟩
    · subst hr
      rw [hk] at ha
      exact .inl (ha.1 n hn)
    · subst hr
      rw [hk] at ha
      exact ha.elim
  | reclaimStuck pid ids fate => exact h
  | _ => trivial

/-- The extracted files have the contents of their names. -/
theorem content_of_extractStream {archive : Archive}
    (h : ∀ info ∈ archive, info.data = content info.filename) {extracted : ExtractedFile}
    (hx : extracted ∈ extractStream archive) : extracted.content = content extracted.filename := by
  obtain ⟨info, hmem, rfl⟩ := List.mem_map.mp hx
  obtain ⟨i, hi, hname, hread⟩ := Archive.exists_read (List.mem_filter.mp hmem).1
  have hdata := h i hi
  rw [hname] at hdata
  exact hread.trans hdata

/-! ## The invariant -/

structure World.RecoveryInvariant (U : Set String) (content : String → Bytes) (taskId : TaskId)
    (w : World) : Prop where
  only : ∀ {id m}, w.store.tasks.get? id = some m → id = taskId
  contents : ∀ {pid k extracted}, w.procs pid = .handling k → extracted ∈ k.handler.entries →
    extracted.content = content extracted.filename
  recording : ∀ {pid k f file fileHash rest}, w.procs pid = .handling k →
    k.handler = .record f file fileHash rest →
    w.store.bucket (Handler.storageKey file.filename) = some (content file.filename)
  objects : ∀ {n}, w.store.Recorded taskId n →
    w.store.bucket (Handler.storageKey n) = some (content n) ∨
    ∃ pid k f e file todo, w.procs pid = .handling k ∧ k.handler = .deleteRows f e file todo ∧
      file.filename = n
  succeeding : ∀ {pid k f}, w.procs pid = .handling k → k.handler = .storeSuccess f →
    ∀ n ∈ U, (taskId, n) ∈ w.store.marked
  succeeded : ∀ {m}, w.store.tasks.get? taskId = some m → m.status = .success →
    ∀ n ∈ U, (taskId, n) ∈ w.store.marked

namespace World.RecoveryInvariant

variable (hw : w.RecoveryInvariant U content taskId)
include hw

theorem step_only (hok : Recovers U content taskId w l) (h : Step sha256 w l w') {id : TaskId}
    {m' : DownloadTaskModel} (hm' : w'.store.tasks.get? id = some m') : id = taskId := by
  have hr := h.rowStep hm'
  generalize hg : w.store.tasks.get? id = g at hr
  cases hr with
  | added pid candidateId fate hl hn => subst hl; exact hok
  | _ => exact hw.only hg

theorem step_contents (hok : Recovers U content taskId w l) (h : Step sha256 w l w') {pid : Pid}
    {k' : Worker} {extracted : ExtractedFile} (hp' : w'.procs pid = .handling k')
    (hx : extracted ∈ k'.handler.entries) : extracted.content = content extracted.filename := by
  cases h.handling hp' with
  | kept k lost hp hl hlost => exact hw.contents hp hx
  | begun m workerId row hl hp hrow hs hrow' => cases hx
  | resumed k reply c handler hl hp hc hs hr =>
    subst hl
    rcases (Handler.resume_next hr).entries hx with hx | ⟨f, archive, hk, ha, hx⟩
    · exact hw.contents hp hx
    · have hans := hok k hp
      rw [hk, Reply.of_seen ha] at hans
      exact content_of_extractStream hans.2 hx

theorem step_succeeding (hok : Recovers U content taskId w l) (h : Step sha256 w l w') {pid : Pid}
    {k' : Worker} {f : Frame} (hp' : w'.procs pid = .handling k')
    (hk' : k'.handler = .storeSuccess f) : ∀ n ∈ U, (taskId, n) ∈ w'.store.marked := by
  intro n hn
  refine h.marked_mono ?_
  cases h.handling hp' with
  | kept k lost hp hl hlost => exact hw.succeeding hp hk' n hn
  | begun m workerId row hl hp hrow hs hrow' => cases hk'
  | resumed k reply c handler hl hp hc hs hr =>
    subst hk' hl
    obtain ⟨f₀, hk, ha⟩ := (Handler.resume_next hr).storeSuccess
    have hans := hok k hp
    rw [hk, Reply.of_seen ha] at hans
    exact hans rfl n hn

theorem step_succeeded (hid : w.CopiesOfMessage) (h : Step sha256 w l w') {m' : DownloadTaskModel}
    (hm' : w'.store.tasks.get? taskId = some m') (hs' : m'.status = .success) :
    ∀ n ∈ U, (taskId, n) ∈ w'.store.marked := by
  intro n hn
  refine h.marked_mono ?_
  have hr := h.rowStep hm'
  generalize hg : w.store.tasks.get? taskId = g at hr
  cases hr with
  | kept m hc => exact hw.succeeded hg hs' n hn
  | added pid candidateId fate hl hc => cases hs'
  | claimed m pid msg workerId fate hl hf hp hmsg hs hc => cases hs'
  | written m pid reply k t hl hp hc ht hcl =>
    obtain ⟨f, hk⟩ := (hid pid k hp).stored_success hc hs'
    exact hw.succeeding hp hk n hn
  | releasedStuck m pid ids fate hl hf hmem hs hc => cases hs'
  | releasedBlocked m pid ids fate hl hf hmem hs hc => cases hs'

/-- An object with the content of its name stays, unless the cleanup deletes it. -/
theorem step_bucket (hf : w.FilesInvariant) (h : Step sha256 w l w') {n : String}
    (hb : w.store.bucket (Handler.storageKey n) = some (content n)) :
    w'.store.bucket (Handler.storageKey n) = some (content n) ∨
    ∃ pid reply k f e key file todo, l = .call pid reply ∧ w.procs pid = .handling k ∧
      k.handler = .deleteObject f e key file todo ∧ file.filename = n := by
  rcases h.effect with same | ⟨pid, reply, k, c, rfl, hp, hc, -, ha⟩
  · rw [same.bucket]; exact .inl hb
  rcases Store.apply_bucket ha (Handler.storageKey n) with he | ⟨bytes, rfl, he⟩ | ⟨rfl, -⟩
  · rw [he]; exact .inl hb
  · obtain ⟨f, extracted, rest, hk, hkey, rfl⟩ := Handler.call_uploadStream hc
    have hn : n = extracted.filename := Handler.storageKey_injective hkey
    have hcont : extracted.content = content extracted.filename :=
      hw.contents hp (by rw [hk]; exact List.mem_cons_self)
    rw [he, hcont, hn]; exact .inl rfl
  · obtain ⟨f, e, file, todo, hk⟩ := Handler.call_deleteObject hc
    have hn : n = file.filename := Handler.storageKey_injective (hf.keys hp hk)
    exact .inr ⟨pid, reply, k, f, e, _, file, todo, rfl, hp, hk, hn.symm⟩

/-- The one task is the task of every live handler. -/
theorem task_of_live (hx : w.Exclusive) {pid : Pid} {k : Worker} (hk : w.Live pid k) :
    k.message.taskId = taskId := by
  obtain ⟨m, hm, -⟩ := hx.owns hk
  exact hw.only hm

theorem step_recording (hx : w.Exclusive) (hf : w.FilesInvariant) (h : Step sha256 w l w')
    {pid : Pid} {k' : Worker} {f : Frame} {file : File} {fileHash : FileHash}
    {rest : List ExtractedFile}
    (hp' : w'.procs pid = .handling k') (hk' : k'.handler = .record f file fileHash rest) :
    w'.store.bucket (Handler.storageKey file.filename) = some (content file.filename) := by
  cases h.handling hp' with
  | kept k lost hp hl hlost =>
    have hlive : w.Live pid k := ⟨hp, by rw [show k.handler = _ from hk']; rfl⟩
    refine (hw.step_bucket hf h (hw.recording hp hk')).resolve_right ?_
    rintro ⟨q, reply, k₂, f', e, key, file', todo, rfl, hq, hk₂, -⟩
    have hlive₂ : w.Live q k₂ := ⟨hq, by rw [hk₂]; rfl⟩
    have hqp : q = pid := hx.unique hlive₂ hlive
      ((hw.task_of_live hx hlive₂).trans (hw.task_of_live hx hlive).symm)
    exact hl reply (by rw [hqp])
  | begun m workerId row hl hp hrow hs hrow' => cases hk'
  | resumed k reply c handler hl hp hc hs hr =>
    subst hk'
    obtain ⟨extracted, fileId, hk, ha, rfl, rfl⟩ := (Handler.resume_next hr).record
    have hcont : extracted.content = content extracted.filename :=
      hw.contents hp (by rw [hk]; exact List.mem_cons_self)
    rw [hk] at hc
    cases hc
    obtain rfl := Reply.of_seen ha
    have hap := (Store.serve_done hs).2
    simp only [Store.apply, Option.some.injEq] at hap
    rw [← hap]
    show Function.update w.store.bucket _ _ (Handler.storageKey extracted.filename) = _
    rw [Function.update_self, hcont]; rfl

theorem step_objects (hx : w.Exclusive) (hid : w.CopiesOfMessage) (hf : w.FilesInvariant)
    (hok : Recovers U content taskId w l) (h : Step sha256 w l w') {n : String}
    (hr' : w'.store.Recorded taskId n) :
    w'.store.bucket (Handler.storageKey n) = some (content n) ∨
    ∃ pid k f e file todo, w'.procs pid = .handling k ∧ k.handler = .deleteRows f e file todo ∧
      file.filename = n := by
  -- an object that is there
  have present : w.store.bucket (Handler.storageKey n) = some (content n) →
      w'.store.bucket (Handler.storageKey n) = some (content n) ∨
      ∃ pid k f e file todo, w'.procs pid = .handling k ∧ k.handler = .deleteRows f e file todo ∧
        file.filename = n := by
    intro hb
    rcases hw.step_bucket hf h hb with hb | ⟨pid, reply, k, f, e, key, file, todo, rfl, hp, hk, hn⟩
    · exact .inl hb
    · obtain ⟨c, handler, -, -, hres, hw'⟩ := h.called hp
      rw [hk] at hres
      obtain rfl := Handler.Next.deleteRows_of_deleteObject hres
      refine .inr ⟨pid, { k with handler := .deleteRows f e file todo }, f, e, file, todo, ?_, rfl,
        hn⟩
      rw [hw', setProc_self]
  by_cases hr : w.store.Recorded taskId n
  · rcases hw.objects hr with hb | ⟨pid, k, f, e, file, todo, hp, hk, rfl⟩
    · exact present hb
    -- the rows of the file are about to be deleted
    have hlive : w.Live pid k := ⟨hp, by rw [hk]; rfl⟩
    by_cases hl : ∃ reply, l = .call pid reply
    · obtain ⟨reply, rfl⟩ := hl
      obtain ⟨c, handler, hc, hs, -⟩ := h.called hp
      have hans := hok k hp
      have htask : f.task.id = k.message.taskId := hid.taskId hp (by rw [hk]; rfl)
      rw [hk] at hc hans
      cases hc
      have hgone : ¬ w'.store.Recorded f.task.id file.filename := by
        cases reply with
        | done answer => exact Store.apply_deleteFile_recorded (Store.serve_done hs).2
        | refused e => exact hans.elim
        | lost e =>
          have ha : w.store.apply k.message.taskId (.deleteFile f.task.id file) = some w'.store :=
            hs
          exact Store.apply_deleteFile_recorded ha
      rw [htask, hw.task_of_live hx hlive] at hgone
      exact absurd hr' hgone
    · obtain ⟨lost, hp'⟩ := h.goes_on hp hlive.2 (fun reply e => hl ⟨reply, e⟩) (by
        rintro rfl
        exact hok k f e file todo hp hk)
      exact .inr ⟨pid, _, f, e, file, todo, hp', hk, rfl⟩
  · -- the record is new, and its object was uploaded before
    rcases h.effect with same | ⟨pid, reply, k, c, rfl, hp, hc, -, ha⟩
    · exact absurd ((Store.recorded_of_eq same.downloaded).mp hr') hr
    obtain ⟨file, fileHash, rfl, rfl⟩ := Store.apply_newly_recorded ha hr hr'
    obtain ⟨f, rest, hk, -⟩ := Handler.call_addFile hc
    exact present (hw.recording hp hk)

end World.RecoveryInvariant

/-- **The invariant of the recovery.** -/
theorem recovery_invariant (sha256 : Bytes → Digest) (U : Set String) (content : String → Bytes)
    (taskId : TaskId) : (system sha256).Invariant (Recovers U content taskId)
      (World.RecoveryInvariant U content taskId) := by
  refine System.Reach.induct ?_ fun w l w' hr hw hok hst => ?_
  · rintro w ⟨now, bucket, rfl⟩
    exact ⟨fun h => (by cases h), fun h => (by cases h), fun h => (by cases h),
      fun h => (by cases h), fun h => (by cases h), fun h => by cases h⟩
  · have h := Step.of_step hst
    have hid := copies_of_message sha256 w hr.toFree
    have hx := exclusive_invariant sha256 w
      (hr.mono fun _ _ hok => hok.marksFollow.reclaimsEnded)
    have hf := files_invariant sha256 w hr.toFree
    exact ⟨hw.step_only hok h, hw.step_contents hok h, hw.step_recording hx hf h,
      hw.step_objects hx hid hf hok h, hw.step_succeeding hok h, hw.step_succeeded hid h⟩

/-- After the end of the task no deletion is under way, so the objects are there. -/
theorem object_recovered (hr : (system sha256).Reach (Recovers U content taskId) w)
    {m : DownloadTaskModel} (hm : w.store.tasks.get? taskId = some m) (hs : m.status = .success)
    {n : String} (hn : w.store.Recorded taskId n) :
    w.store.bucket (Handler.storageKey n) = some (content n) := by
  have hrec := recovery_invariant sha256 U content taskId w hr
  have hx := exclusive_invariant sha256 w (hr.mono fun _ _ h => h.marksFollow.reclaimsEnded)
  refine (hrec.objects hn).resolve_right ?_
  rintro ⟨pid, k, f, e, file, todo, hp, hk, -⟩
  have hlive : w.Live pid k := ⟨hp, by rw [hk]; rfl⟩
  have htask := hrec.task_of_live hx hlive
  exact hx.not_live (htask ▸ hm) (by rw [hs]; decide) hlive

/-- **Completeness after recovery.** In every such run, when the task is stored as `SUCCESS`, each
name of `U` has exactly one record of the task, exactly one file of the task, which is `UPLOADED`,
and its content under its key in the bucket. -/
theorem recovered_complete (sha256 : Bytes → Digest) (U : Set String) (content : String → Bytes)
    (taskId : TaskId) : (system sha256).Invariant (Recovers U content taskId) fun w =>
      ∀ m, w.store.tasks.get? taskId = some m → m.status = .success → ∀ n ∈ U,
        (∃! d, d ∈ w.store.downloaded ∧ d.taskId = taskId ∧ d.fileName = n) ∧
        (∃! f, f ∈ w.store.files ∧ w.store.owner f.id = some taskId ∧ f.filename = n ∧
          f.status = .uploaded) ∧
        w.store.bucket (Handler.storageKey n) = some (content n) := by
  intro w hw m hm hs n hn
  have hrec := recovery_invariant sha256 U content taskId w hw
  have hx := exclusive_invariant sha256 w (hw.mono fun _ _ h => h.marksFollow.reclaimsEnded)
  have hpair := (files_invariant sha256 w hw.toFree).paired
  have hmarks := marks_invariant sha256 w (hw.mono fun _ _ h => h.marksFollow)
  have hr : w.store.Recorded taskId n := hmarks.marked (hrec.succeeded hm hs n hn)
  obtain ⟨d, hd⟩ := Option.isSome_iff_exists.mp hr
  obtain ⟨hmem, hkey⟩ := Table.get?_eq_some.mp hd
  obtain ⟨f, hf, hlink⟩ := hpair.covered hmem
  have hmatch := hpair.partner hf hmem hlink
  have hof : ∀ {f'}, w.store.owner f'.id = some taskId → f'.filename = n →
      w.store.recordKey f' = some d.key := by
    intro f' ho hn'
    simp only [Store.recordKey, ho, hn', hkey, Option.map_some]
  refine ⟨⟨d, ⟨hmem, congrArg Prod.fst hkey, congrArg Prod.snd hkey⟩, ?_⟩,
    ⟨f, ⟨hf, ?_, ?_, hmatch.status⟩, ?_⟩, ?_⟩
  · rintro d' ⟨hmem', rfl, rfl⟩
    exact Table.eq_of_key hmem' hmem hkey.symm
  · obtain ⟨t, ho, ht⟩ := Option.map_eq_some_iff.mp hlink
    have : t = taskId := (congrArg Prod.fst ht).trans (congrArg Prod.fst hkey)
    rw [ho, this]
  · exact hmatch.filename.trans (congrArg Prod.snd hkey)
  · rintro f' ⟨hf', ho, hn', -⟩
    exact hpair.injective hf' hf ((hof ho hn').trans hlink.symm)
  · -- a live handler has a row that is `RUNNING`
    refine (hrec.objects hr).resolve_right ?_
    rintro ⟨pid, k, f', e, file, todo, hp, hk, -⟩
    have hlive : w.Live pid k := ⟨hp, by rw [hk]; rfl⟩
    have htask := hrec.task_of_live hx hlive
    exact hx.not_live (htask ▸ hm) (by rw [hs]; decide) hlive

/-! ## An object that is lost -/

/-- The environment in which the only failures are crashes at any call and blocks of the API, which
have no effect: what the calls of the handler are answered. -/
def Contract (U : Set String) (content : String → Bytes) (taskId : TaskId) (s : Store) :
    Handler → Reply → Prop
  | .names _, .done (.names fileNames) =>
    (∀ n ∈ fileNames, n ∈ U ∧ (taskId, n) ∉ s.marked) ∧
      (fileNames = [] → ∀ n ∈ U, (taskId, n) ∈ s.marked)
  | .download f, .done (.archive archive) =>
    (archive.map ZipInfo.filename).Nodup ∧
      (∀ n, n ∈ archive.map ZipInfo.filename ↔ n ∈ f.batch) ∧
      ∀ info ∈ archive, info.data = content info.filename ∧ info.isDir = false
  | .names _, .refused e | .download _, .refused e | .mark _, .refused e =>
    ∃ retryAfter > 60, e = .blocked retryAfter
  | _, .done _ => True
  | _, _ => False

def Environment (U : Set String) (content : String → Bytes) (taskId : TaskId) (w : World) :
    Label → Prop
  | .start _ id _ _ => id = taskId
  | .call pid reply => ∀ k, w.procs pid = .handling k →
      Contract U content taskId w.store k.handler reply
  | l => ReclaimsEnded w l

theorem Contract.answers {s : Store} {h : Handler} {reply : Reply}
    (hc : Contract U content taskId s h reply) : Answers U content taskId s h reply := by
  unfold Answers
  split
  · exact hc.2
  · refine ⟨fun n hn => ?_, fun info hi => (hc.2.2 info hi).1⟩
    obtain ⟨info, hi, rfl⟩ := List.mem_map.mp ((hc.2.1 n).mpr hn)
    exact ⟨info, hi, rfl, (hc.2.2 info hi).2⟩
  · exact hc
  · exact hc
  · trivial

/-- A run in this environment is one of `Recovers`, unless it crashes between the two deletions. -/
theorem Environment.recovers (h : Environment U content taskId w l)
    (hc : ∀ pid k f e file todo, l = .crash pid → w.procs pid = .handling k →
      k.handler ≠ .deleteRows f e file todo) : Recovers U content taskId w l := by
  cases l with
  | crash pid => exact fun k f e file todo => hc pid k f e file todo rfl
  | call pid reply => exact fun k hp => (h k hp).answers
  | _ => exact h

/-- The one name of the API is stored, and its mark is blocked. The cleanup deletes the object, and
the worker dies. The next run finds the record, skips the name, marks it and succeeds. -/
def lostObject : List Label :=
  let m : Message := ⟨"t", none⟩
  let taskOfA := ((DownloadTask.new "t" "").toModel.claimed "a" 0).toDomain
  let taskOfB :=
    (({ taskOfA with receivedFiles := 1 }.toModel.releasedStuck).claimed "b" 301).toDomain
  let archive : Archive := [⟨"x", [1]⟩]
  [.start 0 "t" none .done, .send 0, .deliver 1 m "a", .claim 1 .done,
    .call 1 (.done (.task (some taskOfA))), .call 1 (.done (.names ["x"])), .call 1 (.done .done),
    .call 1 (.done (.archive archive)), .call 1 (.done .next), .call 1 (.done .done),
    .call 1 (.done (.found false)), .call 1 (.done (.stored 7)), .call 1 (.done .done),
    .call 1 (.done .next), .call 1 (.refused (.blocked 100)), .call 1 (.done .done), .crash 1,
    .tick 301, .reclaimStuck 3 ["t"] .done, .send 3, .deliver 2 m "b", .claim 2 .done,
    .call 2 (.done (.task (some taskOfB))), .call 2 (.done (.names ["x"])), .call 2 (.done .done),
    .call 2 (.done (.archive archive)), .call 2 (.done .next), .call 2 (.done .done),
    .call 2 (.done (.found true)), .call 2 (.done .next), .call 2 (.done .done),
    .call 2 (.done .done), .call 2 (.done (.names [])), .call 2 (.done .done)]

/-- `Contract` for the one name `"x"` with the content `[1]`, for the replies of `lostObject`. -/
def contractCheck (s : Store) : Handler → Reply → Bool
  | .names _, .done (.names fileNames) =>
    if fileNames = [] then s.marked.contains ("t", "x")
    else fileNames.all (· = "x") && !s.marked.contains ("t", "x")
  | .download f, .done (.archive archive) => f.batch = ["x"] && archive = [⟨"x", [1]⟩]
  | .mark _, .refused (.blocked retryAfter) => 60 < retryAfter
  | .names _, _ => false
  | .download _, _ => false
  | _, .done _ => true
  | _, _ => false

theorem contract_of_check {s : Store} {h : Handler} {reply : Reply}
    (hc : contractCheck s h reply = true) : Contract {"x"} (fun _ => [1]) "t" s h reply := by
  unfold contractCheck at hc
  split at hc
  · next f fileNames =>
    split at hc
    · next hn =>
      subst hn
      refine ⟨by simp, fun _ n hn => ?_⟩
      rw [Set.mem_singleton_iff.mp hn]
      exact List.contains_iff_mem.mp hc
    · next hne =>
      simp only [Bool.and_eq_true, List.all_eq_true, decide_eq_true_eq, Bool.not_eq_true',
        List.contains_eq_mem, decide_eq_false_iff_not] at hc
      exact ⟨fun n hn => ⟨hc.1 n hn, hc.1 n hn ▸ hc.2⟩, fun e => absurd e hne⟩
  · next f archive =>
    simp only [Bool.and_eq_true, decide_eq_true_eq] at hc
    obtain ⟨hb, rfl⟩ := hc
    exact ⟨by decide, by simp [hb], by decide⟩
  · next f retryAfter => exact ⟨retryAfter, of_decide_eq_true hc, rfl⟩
  · cases hc
  · cases hc
  · -- another call than `get_file_names` and the download
    cases h <;> first | trivial | simp_all
  · cases hc

/-- `Environment`, checked for the first four processes. -/
def environmentCheck (w : World) (l : Label) : Bool :=
  l.within 4 && match l with
    | .start _ id _ _ => id = "t"
    | .call pid reply => match w.procs pid with
      | .handling k => contractCheck w.store k.handler reply
      | _ => true
    | .reclaimStuck _ ids _ => w.endedWithin 4 ids
    | _ => true

theorem environment_of_check (hw : w.Within 4) (hc : environmentCheck w l = true) :
    Environment {"x"} (fun _ => [1]) "t" w l := by
  unfold environmentCheck at hc
  rw [Bool.and_eq_true] at hc
  obtain ⟨-, hc⟩ := hc
  cases l with
  | start pid id candidateId fate =>
    show id = "t"
    exact of_decide_eq_true hc
  | call pid reply =>
    intro k hp
    simp only [hp] at hc
    exact contract_of_check hc
  | reclaimStuck pid ids fate => exact World.ended_of_check hw hc
  | _ => trivial

theorem object_lost :
    ¬ (system fun _ => 0).Invariant (Environment {"x"} (fun _ => [1]) "t") fun w =>
      ∀ m, w.store.tasks.get? "t" = some m → m.status = .success → ∀ n ∈ ({"x"} : Set String),
        (∃! d, d ∈ w.store.downloaded ∧ d.taskId = "t" ∧ d.fileName = n) ∧
        (∃! f, f ∈ w.store.files ∧ w.store.owner f.id = some "t" ∧ f.filename = n ∧
          f.status = .uploaded) ∧
        w.store.bucket (Handler.storageKey n) = some [1] := by
  intro hinv
  have hrun : ((system fun _ => 0).runIf environmentCheck (fresh 0 fun _ => none) lostObject).any
      (fun w => (w.store.tasks.get? "t").any (fun m => m.status = .success) &&
        (w.store.bucket "files/x").isNone) = true := by decide +kernel
  have hinit : (system fun _ => 0).Reach (Environment {"x"} (fun _ => [1]) "t")
      (fresh 0 fun _ => none) := .init ⟨0, fun _ => none, rfl⟩
  obtain ⟨w, hr, hcheck⟩ := hinit.runIf (I := World.Within 4)
    (fun w l w' hw hc hst => hw.step (Step.of_step hst) (Bool.and_eq_true .. ▸ hc).1)
    (fun w l hw hc => environment_of_check hw hc) .fresh hrun
  rw [Bool.and_eq_true, Option.isNone_iff_eq_none] at hcheck
  obtain ⟨m, hm, hs⟩ := (Option.any_eq_true ..).mp hcheck.1
  obtain ⟨-, -, hb⟩ := hinv w hr m hm (of_decide_eq_true hs) "x" rfl
  have hkey : Handler.storageKey "x" = "files/x" := by decide
  rw [hkey, hcheck.2] at hb
  cases hb

end FileExtractor
