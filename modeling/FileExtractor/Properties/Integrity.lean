import FileExtractor.Properties.Pairing

/-!
# Objects and rows

The key `files/<name>` does not mention the task, so an upload for one task replaces the object
that a row of another task refers to (`object_replaced`), and a cleanup deletes it. `KeepsObjects`
excludes both, and an entry whose `file_size` is not the length of what is read for its name.

The invariant is about the stored rows and about the files of the handlers that are about to be
stored (`record`): each has its object (`Intact`).
-/

namespace FileExtractor

open Rel Lts World

/-- The row describes the bytes. -/
def FileModel.Describes (sha256 : Bytes → Digest) (m : FileModel) (bytes : Bytes) : Prop :=
  m.hash = some (hexdigest (sha256 bytes)) ∧ m.size = bytes.length

/-- The row has its object, and describes it. -/
def Intact (sha256 : Bytes → Digest) (s : Store) (m : FileModel) : Prop :=
  ∃ key bytes, m.storageKey = some key ∧ s.bucket key = some bytes ∧ m.Describes sha256 bytes

/-- An upload stores what it declares as its size, and the rows that refer to its key, stored or
about to be stored by another process, describe the new object. No deletion of an object takes
effect. -/
def KeepsObjects (sha256 : Bytes → Digest) (w : World) : Label → Prop
  | .call pid reply => ∀ k, w.procs pid = .handling k → (∀ e, reply ≠ .refused e) →
      (∀ f extracted rest, k.handler = .upload f extracted rest →
        extracted.size = extracted.content.length ∧
        (∀ m ∈ w.store.files, m.storageKey = some (Handler.storageKey extracted.filename) →
          m.Describes sha256 extracted.content) ∧
        ∀ pid' k' f' file fileHash rest', pid' ≠ pid → w.procs pid' = .handling k' →
          k'.handler = .record f' file fileHash rest' → file.filename = extracted.filename →
          file.toModel.Describes sha256 extracted.content) ∧
      ∀ f e key file todo, k.handler ≠ .deleteObject f e key file todo
  | _ => True

structure World.IntegrityInvariant (sha256 : Bytes → Digest) (w : World) : Prop where
  rows : ∀ {m}, m ∈ w.store.files → Intact sha256 w.store m
  recording : ∀ {pid k f file fileHash rest}, w.procs pid = .handling k →
    k.handler = .record f file fileHash rest → Intact sha256 w.store file.toModel

variable {sha256 : Bytes → Digest} {w w' : World} {l : Label}

/-- The row of an uploaded object. -/
theorem intact_storedFile {s : Store} {now : Time} {fileId : FileId} {extracted : ExtractedFile}
    (hb : s.bucket (Handler.storageKey extracted.filename) = some extracted.content)
    (hs : extracted.size = extracted.content.length) :
    Intact sha256 s (Handler.storedFile sha256 now fileId extracted).toModel :=
  ⟨_, _, rfl, hb, rfl, hs⟩

namespace World.IntegrityInvariant

variable (hw : w.IntegrityInvariant sha256)

/-- **An object in use stays intact**: of a row that describes what an upload puts under its key. -/
theorem intact_step (hok : KeepsObjects sha256 w l) (h : Step sha256 w l w') {m : FileModel}
    (hm : Intact sha256 w.store m)
    (hput : ∀ pid reply k f extracted rest, l = .call pid reply → w.procs pid = .handling k →
      (∀ e, reply ≠ .refused e) → k.handler = .upload f extracted rest →
      m.storageKey = some (Handler.storageKey extracted.filename) →
      m.Describes sha256 extracted.content) : Intact sha256 w'.store m := by
  obtain ⟨key, bytes, hkey, hb, hdesc⟩ := hm
  rcases h.effect with same | ⟨pid, reply, k, c, rfl, hp, hc, heff, ha⟩
  · exact ⟨key, bytes, hkey, by rw [same.bucket]; exact hb, hdesc⟩
  rcases Store.apply_bucket ha key with he | ⟨content, rfl, he⟩ | ⟨rfl, -⟩
  · exact ⟨key, bytes, hkey, by rw [he]; exact hb, hdesc⟩
  · obtain ⟨f, extracted, rest, hk, rfl, rfl⟩ := Handler.call_uploadStream hc
    exact ⟨_, _, hkey, he, hput pid reply k f extracted rest rfl hp heff hk hkey⟩
  · obtain ⟨f, e, file, todo, hk⟩ := Handler.call_deleteObject hc
    exact absurd hk ((hok k hp heff).2 f e key file todo)

include hw

theorem step_rows (hok : KeepsObjects sha256 w l) (h : Step sha256 w l w') {m : FileModel}
    (hm : m ∈ w'.store.files) : Intact sha256 w'.store m := by
  have old : m ∈ w.store.files → Intact sha256 w'.store m := fun hm =>
    intact_step hok h (hw.rows hm) fun pid reply k f extracted rest hl hp heff hk hkey => by
      subst hl
      exact ((hok k hp heff).1 f extracted rest hk).2.1 m hm hkey
  cases h.filesStep with
  | kept hf hd ho => rw [hf] at hm; exact old hm
  | added pid reply k f file fileHash rest hl hp hk ha =>
    obtain ⟨files, downloaded, hf, -, hs'⟩ := Store.apply_addFile ha
    rw [hs'] at hm
    rcases (Table.mem_insert hf).mp hm with hm | rfl
    · exact old hm
    -- the new row is the one that was about to be stored
    obtain ⟨key, bytes, hkey, hb, hrest⟩ := hw.recording hp hk
    exact ⟨key, bytes, hkey, by rw [hs']; exact hb, hrest⟩
  | deleted pid reply k f e file todo hl hp hk ha =>
    simp only [Store.apply, Option.some.injEq] at ha
    rw [← ha] at hm
    exact old (Table.mem_delete.mp hm).1

theorem step_recording (hup : w.RecordsUploaded sha256) (hok : KeepsObjects sha256 w l)
    (h : Step sha256 w l w') {pid : Pid} {k' : Worker} {f : Frame} {file : File}
    {fileHash : FileHash} {rest : List ExtractedFile} (hp' : w'.procs pid = .handling k')
    (hk' : k'.handler = .record f file fileHash rest) : Intact sha256 w'.store file.toModel := by
  cases h.handling hp' with
  | kept k lost hp hl hlost =>
    obtain ⟨now, fileId, extracted, rfl, -⟩ := hup pid k f file fileHash rest hp hk'
    refine intact_step hok h (hw.recording hp hk') ?_
    intro q reply k₂ f' extracted' rest' hl' hq heff hk₂ hkey
    have hne : pid ≠ q := fun e => hl reply (by rw [hl', e])
    have hname : extracted.filename = extracted'.filename :=
      Handler.storageKey_injective (Option.some.inj hkey)
    subst hl'
    exact ((hok k₂ hq heff).1 f' extracted' rest' hk₂).2.2 pid k f _ fileHash rest hne hp hk' hname
  | begun m workerId row hl hp hrow hs hrow' => cases hk'
  | resumed k reply c handler hl hp hc hs hr =>
    subst hk' hl
    obtain ⟨extracted, fileId, hk, ha, rfl, -⟩ := (Handler.resume_next hr).record
    rw [hk] at hc
    cases hc
    obtain rfl := Reply.of_seen ha
    have hap := (Store.serve_done hs).2
    simp only [Store.apply, Option.some.injEq] at hap
    have hsize := ((hok k hp fun _ h => by cases h).1 f extracted rest hk).1
    refine intact_storedFile ?_ hsize
    rw [← hap]
    exact Function.update_self ..

end World.IntegrityInvariant

/-- **Every `UPLOADED` row has its object**, in every run whose uploads and cleanups keep the
objects of the rows: the bytes under its key have the hash and the length that the row says. -/
theorem objects_intact (sha256 : Bytes → Digest) :
    (system sha256).Invariant (KeepsObjects sha256) fun w => ∀ m ∈ w.store.files,
      m.status = .uploaded → ∃ key bytes, m.storageKey = some key ∧
        w.store.bucket key = some bytes ∧ m.hash = some (hexdigest (sha256 bytes)) ∧
        m.size = bytes.length := by
  have hinv : (system sha256).Invariant (KeepsObjects sha256)
      (World.IntegrityInvariant sha256) := by
    refine System.Reach.induct ?_ fun w l w' hr hw hok hst => ?_
    · rintro w ⟨now, bucket, rfl⟩
      exact ⟨fun h => absurd h (Table.not_mem_empty _), fun h => by cases h⟩
    · have h := Step.of_step hst
      have hup := records_uploaded sha256 w hr.toFree
      exact ⟨hw.step_rows hok h, hw.step_recording hup hok h⟩
  exact fun w hw m hm _ => (hinv w hw).rows hm

/-- Nothing less will do for the stored rows: an upload that takes effect and that a row with its
key does not describe, and any deletion that takes effect, leave a row without its object. -/
theorem objects_broken (sha256 : Bytes → Digest) :
    (system sha256).Keeps System.free fun w l w' => ∀ pid reply k, l = .call pid reply →
      w.procs pid = .handling k → (∀ e, reply ≠ .refused e) →
      (∀ f extracted rest m, k.handler = .upload f extracted rest → m ∈ w.store.files →
        m.storageKey = some (Handler.storageKey extracted.filename) →
        ¬ m.Describes sha256 extracted.content →
        m ∈ w'.store.files ∧ ¬ Intact sha256 w'.store m) ∧
      ∀ f e key file todo, k.handler = .deleteObject f e key file todo →
        file.toModel ∈ w'.store.files ∧ ¬ Intact sha256 w'.store file.toModel := by
  intro w l w' hr _ hst pid reply k hl hp heff
  have h := Step.of_step hst
  subst hl
  obtain ⟨c, handler, hc, hs, -⟩ := h.called hp
  have ha : w.store.apply k.message.taskId c = some w'.store :=
    (Store.serve_cases hs).resolve_left fun ⟨_, e, he⟩ => heff e he
  refine ⟨fun f extracted rest m hk hm hkey hd => ?_, fun f e key file todo hk => ?_⟩ <;>
    rw [hk] at hc <;> cases hc <;> rw [← Option.some.inj ha]
  · refine ⟨hm, ?_⟩
    rintro ⟨key', bytes, hkey', hb, hdesc⟩
    cases hkey.symm.trans hkey'
    cases (Function.update_self ..).symm.trans hb
    exact hd hdesc
  · have hf := files_invariant sha256 w hr
    have hmem : file ∈ k.handler.batchFiles := by rw [hk]; exact List.mem_cons_self
    have hrow := (hf.stored hp hmem).1
    refine ⟨hrow, ?_⟩
    rintro ⟨key', bytes, hkey', hb, -⟩
    obtain ⟨d, -, -, hmatch⟩ := hf.paired.linked hrow
    cases hmatch.storageKey.symm.trans hkey'
    obtain rfl := hf.keys hp hk
    cases (Function.update_self ..).symm.trans hb

/-! ## An object that is replaced -/

/-- The tasks `s` and `t` have a file `x` each, with different contents. -/
def sameName : List Label :=
  let task (id : TaskId) := ((DownloadTask.new id "").toModel.claimed "a" 0).toDomain
  let store (pid : Pid) (id : TaskId) (bytes : Bytes) (fileId : FileId) : List Label :=
    [.start 0 id none .done, .send 0, .deliver pid ⟨id, none⟩ "a", .claim pid .done,
      .call pid (.done (.task (some (task id)))), .call pid (.done (.names ["x"])),
      .call pid (.done .done), .call pid (.done (.archive [⟨"x", bytes⟩])), .call pid (.done .next),
      .call pid (.done .done), .call pid (.done (.found false)), .call pid (.done (.stored fileId)),
      .call pid (.done .done)]
  store 1 "s" [1] 1 ++ store 2 "t" [2, 2] 2

theorem object_replaced :
    ¬ (system fun bytes => BitVec.ofNat 256 bytes.length).Invariant System.free fun w =>
      ∀ m ∈ w.store.files, m.status = .uploaded → ∃ key bytes, m.storageKey = some key ∧
        w.store.bucket key = some bytes ∧
        m.hash = some (hexdigest (BitVec.ofNat 256 bytes.length)) ∧ m.size = bytes.length := by
  intro hinv
  obtain ⟨w, hr, hcheck⟩ := System.reach_of_check
    (S := system fun bytes => BitVec.ofNat 256 bytes.length) sameName
    (fun w => (w.store.files.get? 1).any (fun m => m.status = .uploaded &&
        m.storageKey = some "files/x" && m.size = 1) && w.store.bucket "files/x" = some [2, 2])
    ⟨0, fun _ => none, rfl⟩ (by decide +kernel)
  rw [Bool.and_eq_true, Option.any_eq_true] at hcheck
  obtain ⟨⟨m, hm, hrow⟩, hbucket⟩ := hcheck
  simp only [Bool.and_eq_true, decide_eq_true_eq] at hrow hbucket
  obtain ⟨⟨hs, hkey⟩, hsize⟩ := hrow
  obtain ⟨key, bytes, hkey', hb, -, hlen⟩ := hinv w hr m (Table.get?_eq_some.mp hm).1 hs
  rw [hkey] at hkey'; cases hkey'
  rw [hbucket] at hb; cases hb
  rw [hsize] at hlen; cases hlen

end FileExtractor
