import FileExtractor.Lib.Inevitable
import FileExtractor.Properties.Pairing
import FileExtractor.Worker.Runs

/-!
# Objects that are left behind

An object is uploaded before its rows are inserted, and deleted before its rows are deleted, so the
bucket and the tables are never changed together. A step **abandons** an object when no code comes
back to it: an upload that raises after its effect and an insertion that is rolled back (the file is
not in `batch_file_entities`), a crash between the two, and a deletion that raises without effect
(the rows are deleted all the same).

These are all: the invariant goes backwards. An object is in use (`InUse`) if a handler is about to
insert its rows, or if a row refers to it that no cleanup is about to delete. Over a step that
abandons nothing an unused object has been unused before, and is the same (`Stray.back`).
-/

namespace FileExtractor

open Rel Lts World

namespace Handler

/-- The key of the object that is uploaded and whose rows are about to be inserted. -/
def unrecorded : Handler → Option String
  | record _ file _ _ => file.storageKey
  | _ => none

/-- The row whose object was deleted and which is about to be deleted. -/
def removing : Handler → Option FileId
  | deleteRows _ _ file _ => some file.id
  | _ => none

/-- The key of the object that the code does not come back to after the reply. -/
def abandons : Handler → Reply → Option String
  | upload _ extracted _, .lost _ => some (storageKey extracted.filename)
  | record _ file _ _, .refused _ => file.storageKey
  | deleteObject _ _ key _ _, .refused _ => some key
  | _, _ => none

variable {h : Handler} {key : String} {id : FileId}

theorem unrecorded_eq_some (hu : h.unrecorded = some key) :
    ∃ f file fileHash rest, h = record f file fileHash rest ∧ file.storageKey = some key := by
  cases h with
  | record f file fileHash rest => exact ⟨f, file, fileHash, rest, rfl, hu⟩
  | _ => cases hu

theorem removing_eq_some (hu : h.removing = some id) :
    ∃ f e file todo, h = deleteRows f e file todo ∧ file.id = id := by
  cases h with
  | deleteRows f e file todo => exact ⟨f, e, file, todo, rfl, Option.some.inj hu⟩
  | _ => cases hu

end Handler

namespace World

/-- A handler is about to insert the rows of the object. -/
def Recording (w : World) (key : String) : Prop :=
  ∃ pid k, w.procs pid = .handling k ∧ k.handler.unrecorded = some key

/-- A cleanup is about to delete the row. -/
def Removing (w : World) (id : FileId) : Prop :=
  ∃ pid k, w.procs pid = .handling k ∧ k.handler.removing = some id

/-- Some handler or row needs the object. -/
def InUse (w : World) (key : String) : Prop :=
  w.Recording key ∨ ∃ m ∈ w.store.files, m.storageKey = some key ∧ ¬ w.Removing m.id

/-- An object that is not in use. -/
def Stray (w : World) (key : String) : Prop := w.store.bucket key ≠ none ∧ ¬ w.InUse key

/-- An object without a row, which no handler is about to insert. -/
structure LeftBehind (w : World) (key : String) : Prop where
  object : w.store.bucket key ≠ none
  row : ∀ m ∈ w.store.files, m.storageKey ≠ some key
  recording : ¬ w.Recording key

/-- The key of the object that the step abandons. -/
def abandons (w : World) : Label → Option String
  | .crash pid =>
    match w.procs pid with
    | .handling k => k.handler.unrecorded
    | _ => none
  | .call pid reply =>
    match w.procs pid with
    | .handling k => k.handler.abandons reply
    | _ => none
  | _ => none

variable {sha256 : Bytes → Digest} {w w' : World} {l : Label} {key : String} {id : FileId}

theorem LeftBehind.stray (h : w.LeftBehind key) : w.Stray key := by
  refine ⟨h.object, ?_⟩
  rintro (hr | ⟨m, hm, hk, -⟩)
  · exact h.recording hr
  · exact h.row m hm hk

theorem abandons_call {pid : Pid} {k : Worker} {reply : Reply} (hp : w.procs pid = .handling k) :
    w.abandons (.call pid reply) = k.handler.abandons reply := by
  simp only [abandons, hp]

theorem abandons_crash {pid : Pid} {k : Worker} (hp : w.procs pid = .handling k) :
    w.abandons (.crash pid) = k.handler.unrecorded := by
  simp only [abandons, hp]

/-- A cleanup comes to a row from the object of its file. -/
theorem Removing.before (h : Step sha256 w l w') (hr : w'.Removing id) : w.Removing id ∨
    ∃ pid reply k f e key file todo, l = .call pid reply ∧ w.procs pid = .handling k ∧
      k.handler = .deleteObject f e key file todo ∧ file.id = id := by
  obtain ⟨pid, k', hk', hrem⟩ := hr
  cases h.handling hk' with
  | kept k lost hp hl hlost => exact .inl ⟨pid, k, hp, hrem⟩
  | begun m workerId row hl hp hrow hs hrow' => cases hrem
  | resumed k reply c handler hl hp hc hs hr =>
    obtain ⟨f, e, file, todo, he, hid⟩ := Handler.removing_eq_some hrem
    obtain rfl : handler = .deleteRows f e file todo := he
    obtain ⟨key, hk⟩ := (Handler.resume_next hr).at_deleteRows
    exact .inr ⟨pid, reply, k, f, e, key, file, todo, hl, hp, hk, hid⟩

/-- A row that is deleted, now or with the next step of a cleanup, is of a file to clean up. -/
theorem Removing.held (h : Step sha256 w l w') (hr : w'.Removing id) :
    ∃ pid, id ∈ w.tokens pid := by
  have held : ∀ {pid k file}, w.procs pid = .handling k → file ∈ k.handler.batchFiles →
      file.id ∈ w.tokens pid := by
    intro pid k file hp hmem
    refine List.mem_map_of_mem ?_
    rw [hp]; exact hmem
  rcases hr.before h with
    ⟨pid, k, hp, hrem⟩ | ⟨pid, reply, k, f, e, key, file, todo, -, hp, hk, rfl⟩
  · obtain ⟨f, e, file, todo, hk, rfl⟩ := Handler.removing_eq_some hrem
    exact ⟨pid, held hp (by rw [hk]; exact List.mem_cons_self)⟩
  · exact ⟨pid, held hp (by rw [hk]; exact List.mem_cons_self)⟩

/-! ## One step back -/

/-- The object of a stray key is the one before the step. -/
theorem Stray.bucket_eq (h : Step sha256 w l w') (hs : w'.Stray key)
    (ha : w.abandons l ≠ some key) : w'.store.bucket key = w.store.bucket key := by
  rcases h.effect with same | ⟨pid, reply, k, c, rfl, hp, hc, heff, hap⟩
  · rw [same.bucket]
  rcases Store.apply_bucket hap key with he | ⟨content, rfl, -⟩ | ⟨rfl, he⟩
  · exact he
  · -- after an upload the handler is about to insert the rows, or the upload has raised
    obtain ⟨f, extracted, rest, hk, rfl, rfl⟩ := Handler.call_uploadStream hc
    rw [abandons_call hp, hk] at ha
    cases reply with
    | refused e => exact absurd rfl (heff e)
    | lost e => exact absurd rfl ha
    | done answer =>
      obtain ⟨c, handler, -, -, hr, hw'⟩ := h.called hp
      rw [hk] at hr
      refine absurd (.inl ⟨pid, _, by rw [hw', setProc_self], ?_⟩) hs.2
      cases answer <;> simp only [Reply.seen, Handler.resume, Option.some.injEq,
        reduceCtorEq] at hr
      subst hr; rfl
  · exact absurd he hs.1

/-- What a handler is about to insert stays in use, if the step does not abandon it. -/
theorem InUse.of_recording (hw : w.FilesInvariant) (h : Step sha256 w l w')
    (ha : w.abandons l ≠ some key) (hr : w.Recording key) : w'.InUse key := by
  obtain ⟨pid, k, hp, hu⟩ := hr
  obtain ⟨f, file, fileHash, rest, hk, hkey⟩ := Handler.unrecorded_eq_some hu
  have hended : k.handler.isEnded = false := by rw [hk]; rfl
  by_cases hcrash : l = .crash pid
  · subst hcrash
    rw [abandons_crash hp] at ha
    exact absurd hu ha
  by_cases hcall : ∃ reply, l = .call pid reply
  · obtain ⟨reply, rfl⟩ := hcall
    rw [abandons_call hp, hk] at ha
    obtain ⟨c, handler, hc, hs, -, -⟩ := h.called hp
    rw [hk] at hc
    cases hc
    rcases Store.serve_cases hs with ⟨-, e, rfl⟩ | hap
    · exact absurd hkey ha
    -- the row is there, and no cleanup knows it yet
    obtain ⟨files, downloaded, hf, -, he⟩ := Store.apply_addFile hap
    refine .inr ⟨file.toModel, ?_, hkey, fun hrem => ?_⟩
    · rw [he]; exact (Table.mem_insert hf).mpr (.inr rfl)
    · obtain ⟨q, hq⟩ := hrem.held h
      exact hw.not_held hap q hq
  · obtain ⟨lost, hp'⟩ := h.goes_on hp hended (fun reply e => hcall ⟨reply, e⟩) hcrash
    exact .inl ⟨pid, _, hp', hu⟩

/-- A row that no cleanup is about to delete keeps its object in use, if the step does not abandon
or delete this object. -/
theorem InUse.of_row (hw : w.FilesInvariant) (h : Step sha256 w l w')
    (ha : w.abandons l ≠ some key) (hb : w'.store.bucket key ≠ none) {m : FileModel}
    (hm : m ∈ w.store.files) (hkey : m.storageKey = some key) (hn : ¬ w.Removing m.id) :
    w'.InUse key := by
  refine .inr ⟨m, ?_, hkey, fun hrem => ?_⟩
  · cases h.filesStep with
    | kept hf hd ho => rw [hf]; exact hm
    | added pid reply k f file fileHash rest hl hp hk hap =>
      obtain ⟨files, downloaded, hf, -, he⟩ := Store.apply_addFile hap
      rw [he]; exact (Table.mem_insert hf).mpr (.inl hm)
    | deleted pid reply k f e file todo hl hp hk hap =>
      have hne : m.id ≠ file.id := fun he => hn ⟨pid, k, hp, by rw [hk, he]; rfl⟩
      rw [← Option.some.inj hap]
      exact Table.mem_delete.mpr ⟨hm, decide_eq_false_iff_not.mpr hne⟩
  · obtain hrem | ⟨pid, reply, k, f, e, key', file, todo, rfl, hp, hk, hid⟩ := hrem.before h
    · exact hn hrem
    -- the object that was deleted is the one of the row
    have hst := (hw.stored hp (by rw [hk]; exact List.mem_cons_self)).1
    have hfile : file.toModel = m := Table.eq_of_key hst hm hid
    obtain ⟨d, -, -, hmatch⟩ := hw.paired.linked hst
    obtain rfl : key = key' := by
      have hk' := hw.keys hp hk
      have hname := hmatch.storageKey
      rw [hfile, hkey, ← hfile] at hname
      exact (Option.some.inj hname).trans hk'.symm
    rw [abandons_call hp, hk] at ha
    obtain ⟨c, handler, hc, hs, -, -⟩ := h.called hp
    rw [hk] at hc
    cases hc
    rcases Store.serve_cases hs with ⟨-, e', rfl⟩ | hap
    · exact ha rfl
    · rw [← Option.some.inj hap] at hb
      exact hb (Function.update_self ..)

/-- **One step back**: what is not in use was not in use, if the step does not abandon it. -/
theorem Stray.back (hw : w.FilesInvariant) (h : Step sha256 w l w') (hs : w'.Stray key)
    (ha : w.abandons l ≠ some key) :
    w.Stray key ∧ w'.store.bucket key = w.store.bucket key := by
  have hb := hs.bucket_eq h ha
  refine ⟨⟨hb ▸ hs.1, fun hu => hs.2 ?_⟩, hb⟩
  rcases hu with hr | ⟨m, hm, hkey, hn⟩
  · exact .of_recording hw h ha hr
  · exact .of_row hw h ha hs.1 hm hkey hn

end World

/-! ## The run -/

/-- **An object is left behind by a failure.** In every run of the system, an object without a row
and without a handler that is about to insert its row is the one that was there at the beginning, or
is as one of the steps has left it that abandon an object of its key. -/
theorem leftBehind_abandoned (sha256 : Bytes → Digest) (now : Time) (bucket : String → Option Bytes)
    (ls : List Label) (w : World) (key : String)
    (hrun : (system sha256).run (fresh now bucket) ls = some w) (hleft : w.LeftBehind key) :
    w.store.bucket key = bucket key ∨
    ∃ ls₁ l ls₂ u v, ls = ls₁ ++ l :: ls₂ ∧ (system sha256).run (fresh now bucket) ls₁ = some u ∧
      (system sha256).step u l = some v ∧ (system sha256).run v ls₂ = some w ∧
      u.abandons l = some key ∧ w.store.bucket key = v.store.bucket key := by
  have hback : ∀ w l w', (system sha256).Reach System.free w → System.free w l →
      (system sha256).step w l = some w' → w'.Stray key → ¬ w.abandons l = some key →
      w.Stray key ∧ w'.store.bucket key = w.store.bucket key := by
    intro w l w' hr _ hst hs ha
    exact hs.back (files_invariant sha256 w hr) (Step.of_step hst) ha
  have hinit : (system sha256).Reach System.free (fresh now bucket) := .init ⟨now, bucket, rfl⟩
  rcases hinit.last_cause hback System.guarded_free hrun hleft.stray with
    ⟨-, he⟩ | ⟨ls₁, l, ls₂, u, v, hls, h₁, hst, h₂, hc, -, he⟩
  · exact .inl he
  · exact .inr ⟨ls₁, l, ls₂, u, v, hls, h₁, hst, h₂, hc, he⟩

/-- A worker dies between the upload of the one file and the insertion of its rows. -/
def uploadedOnly : List Label :=
  let m : Message := ⟨"t", none⟩
  let task := ((DownloadTask.new "t" "").toModel.claimed "a" 0).toDomain
  [.start 0 "t" none .done, .send 0, .deliver 1 m "a", .claim 1 .done,
    .call 1 (.done (.task (some task))), .call 1 (.done (.names ["x"])), .call 1 (.done .done),
    .call 1 (.done (.archive [⟨"x", [1]⟩])), .call 1 (.done .next), .call 1 (.done .done),
    .call 1 (.done (.found false)), .call 1 (.done (.stored 7)), .crash 1]

/-- Its object has been abandoned. -/
theorem uploaded_left_behind : ∃ w,
    (system fun _ => 0).run (fresh 0 fun _ => none) uploadedOnly = some w ∧
    w.store.bucket "files/x" = some [1] ∧
    ∃ ls₁ l ls₂ u, uploadedOnly = ls₁ ++ l :: ls₂ ∧
      (system fun _ => 0).run (fresh 0 fun _ => none) ls₁ = some u ∧
      u.abandons l = some "files/x" := by
  obtain ⟨w, hrun, hp⟩ := (Option.any_eq_true ..).mp
    (by decide +kernel : ((system fun _ => 0).run (fresh 0 fun _ => none) uploadedOnly).any
      (fun w => decide (w.store.bucket "files/x" = some [1]) && w.store.files.rows.isEmpty &&
        (List.range 4).all w.isIdle) = true)
  simp only [Bool.and_eq_true, decide_eq_true_eq, List.isEmpty_iff, List.all_eq_true,
    List.mem_range, isIdle_eq] at hp
  obtain ⟨⟨hobject, hrows⟩, hidle⟩ := hp
  have hwithin : w.Within 4 := Within.fresh.run (by decide) hrun
  have hleft : w.LeftBehind "files/x" := by
    refine ⟨by rw [hobject]; exact Option.some_ne_none _, fun m hm => ?_, ?_⟩
    · rw [Table.mem_def, hrows] at hm; cases hm
    · rintro ⟨pid, k, hpid, -⟩
      by_cases hlt : pid < 4
      · rw [hidle pid hlt] at hpid; cases hpid
      · rw [hwithin pid (Nat.le_of_not_lt hlt)] at hpid; cases hpid
  rcases leftBehind_abandoned _ _ _ _ w _ hrun hleft with
    he | ⟨ls₁, l, ls₂, u, v, hls, h₁, -, -, ha, -⟩
  · rw [hobject] at he; cases he
  · exact ⟨w, hrun, hobject, ls₁, l, ls₂, u, hls, h₁, ha⟩

end FileExtractor
