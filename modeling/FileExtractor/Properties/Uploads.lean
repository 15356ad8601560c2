import FileExtractor.Properties.Idempotence
import FileExtractor.Properties.Obtained

/-!
# A file is uploaded at most once for each claim

The API may give a name again and again, in one answer or in several, and a task may be executed
many times. A claim is a credit of one upload for each name. A live handler that may still upload
the name has not used its own (`Credit`): it has it from its claim, and after the upload the handler
is about to insert the record, or the record is there, or the handler is on its way out
(`Handler.spent`).
-/

namespace FileExtractor

open Rel Lts World

namespace Handler

/-- The name of the file to upload. -/
def uploading : Handler → Option String
  | upload _ extracted _ => some extracted.filename
  | _ => none

/-- The handler is about to insert the record of the name, or it uploads no more files. -/
def spent (n : String) : Handler → Bool
  | record _ file _ _ => file.filename = n
  | deleteObject _ _ _ _ _ | deleteRows _ _ _ _ => true
  | storeBlocked _ | storeSuccess _ | storeFailed _ | ended _ => true
  | _ => false

variable {sha256 : Bytes → Digest} {now : Time} {h h' : Handler} {a : Except Exn Answer}
  {n : String}

theorem uploading_eq_some (hu : h.uploading = some n) :
    ∃ f extracted rest, h = upload f extracted rest ∧ extracted.filename = n := by
  cases h with
  | upload f extracted rest => exact ⟨f, extracted, rest, rfl, Option.some.inj hu⟩
  | _ => cases hu

theorem spent_closing (hc : h.isClosing = true) : h.spent n = true := by
  cases h <;> first | rfl | cases hc

/-- After the upload, whatever the answer. -/
theorem Next.spent_of_uploading (hn : Next sha256 now h a h') (hu : h.uploading = some n) :
    h'.spent n = true := by
  cases hn with
  | closed hc => exact spent_closing hc
  | uploaded f extracted rest fileId => exact decide_eq_true (Option.some.inj hu)
  | batched f f' hf hh ha hp => rcases hh with rfl | rfl | rfl <;> cases hu
  | cleaning f e key file todo hk ht hm => rfl
  | _ => cases hu

/-- Only the insertion of the record brings the handler back to the archive. -/
theorem Next.spent (hn : Next sha256 now h a h') (hs : h.spent n = true) : h'.spent n = true ∨
    ∃ f file fileHash rest, h = Handler.record f file fileHash rest ∧ file.filename = n ∧
      a = .ok .done := by
  cases hn with
  | closed hc => exact .inl (spent_closing hc)
  | recorded f file fileHash rest =>
    exact .inr ⟨f, file, fileHash, rest, rfl, of_decide_eq_true hs, rfl⟩
  | batched f f' hf hh ha hp => rcases hh with rfl | rfl | rfl <;> cases hs
  | completed | cleaning | deleted => exact .inl rfl
  | _ => cases hs

end Handler

namespace World

/-- The step asks for the upload of a file of this name for the task. -/
def uploads (id : TaskId) (n : String) (w : World) : Label → Bool
  | .call pid _ =>
    match w.procs pid with
    | .handling k => k.message.taskId = id && k.handler.uploading = some n
    | _ => false
  | _ => false

/-- Of the claims of the task so many have been used for an upload of the name, and a live handler
that may still upload it has another one. -/
structure Credit (id : TaskId) (n : String) (w : World) (used : Nat) : Prop where
  le : used ≤ w.claims id
  lt : ∀ {pid k}, w.Live pid k → k.message.taskId = id → k.handler.spent n = false →
    ¬ w.store.Recorded id n → used < w.claims id

variable {sha256 : Bytes → Digest} {w w' : World} {l : Label} {id : TaskId} {n : String}
  {used : Nat}

theorem uploads_eq_true (hu : w.uploads id n l = true) :
    ∃ pid reply k, l = .call pid reply ∧ w.procs pid = .handling k ∧ k.message.taskId = id ∧
      k.handler.uploading = some n := by
  unfold uploads at hu
  split at hu
  · next pid reply =>
    split at hu
    · next k hp =>
      simp only [Bool.and_eq_true, decide_eq_true_eq] at hu
      exact ⟨pid, reply, k, rfl, hp, hu.1, hu.2⟩
    · cases hu
  · cases hu

/-- A handler begins with a claim. -/
theorem claims_of_begun {pid : Pid} {k : Worker} (h : Step sha256 w (.claim pid .done) w')
    (hk : w'.procs pid = .handling k) :
    w'.claims k.message.taskId = w.claims k.message.taskId + 1 := by
  cases h with
  | refused l hl => cases hl
  | claimFails pid m workerId fate hp hn => rw [setProc_self] at hk; cases hk
  | claimed pid m workerId fate row hp hf hrow hs =>
    rw [setProc_self] at hk; cases hk
    exact Function.update_self ..

/-- A record that the call of a handler does not leave there is one that a cleanup deletes. -/
theorem recorded_before (hx : w.Exclusive) (hid : w.CopiesOfMessage) (h : Step sha256 w l w')
    {pid : Pid} {k : Worker} (hk : w.Live pid k) (ht : k.message.taskId = id)
    (hd : ∀ f e file todo reply, l = .call pid reply → k.handler ≠ .deleteRows f e file todo)
    (hrec : ¬ w'.store.Recorded id n) : ¬ w.store.Recorded id n := by
  refine fun hold => hrec (keeps_recorded hid h hold ?_)
  intro pid' reply k' f e file todo hl hp' hk' ht' _
  have hlive : w.Live pid' k' := ⟨hp', by rw [hk']; rfl⟩
  obtain rfl := hx.unique hlive hk (ht'.trans ht.symm)
  have hp := hk.handling
  rw [hp'] at hp; cases hp
  exact hd f e file todo reply hl hk'

namespace Credit

variable (hw : w.Credit id n used) (hx : w.Exclusive)
include hw hx

/-- An upload uses the claim of the one live handler of the task. -/
theorem step_upload (hnew : w.StoresNew) (h : Step sha256 w l w')
    (hu : w.uploads id n l = true) : w'.Credit id n (used + 1) := by
  obtain ⟨pid, reply, k, rfl, hp, ht, hk⟩ := uploads_eq_true hu
  obtain ⟨f, extracted, rest, he, hname⟩ := Handler.uploading_eq_some hk
  have hlive : w.Live pid k := ⟨hp, by rw [he]; rfl⟩
  have hrec : ¬ w.store.Recorded id n := by
    rw [← ht]
    exact hnew pid k n hp (by rw [he, ← hname]; rfl)
  have hlt := hw.lt hlive ht (by rw [he]; rfl) hrec
  have hle := h.claims_mono id
  refine ⟨by omega, fun {q k'} hq ht' hs _ => ?_⟩
  exfalso
  rcases hq.before h with ⟨hl, -⟩ | ⟨k₀, hq₀, hm, -⟩
  · cases hl
  obtain rfl : q = pid := hx.unique hq₀ hlive (by rw [hm, ht', ht])
  cases h.handling hq.handling with
  | kept k lost hp' hl hlost => exact hl reply rfl
  | begun m workerId row hl hp' hrow hs' hrow' => cases hl
  | resumed k₁ reply' c handler hl hp' hc hs' hr =>
    rw [hp] at hp'; cases hp'
    have hspent : handler.spent n = true := (Handler.resume_next hr).spent_of_uploading hk
    rw [show Handler.spent n handler = false from hs] at hspent
    cases hspent

/-- Any other step: a claim gives one, and no handler gets its own back. -/
theorem step_other (hid : w.CopiesOfMessage) (h : Step sha256 w l w') : w'.Credit id n used := by
  have hle := h.claims_mono id
  refine ⟨hw.le.trans hle, fun {q k'} hq ht hs hrec => ?_⟩
  cases h.handling hq.handling with
  | kept k lost hp hl hlost =>
    have hlive : w.Live q k := ⟨hp, hq.2⟩
    have hold := recorded_before hx hid h hlive ht (fun _ _ _ _ reply e => absurd e (hl reply)) hrec
    exact (hw.lt hlive ht hs hold).trans_le hle
  | begun m workerId row hl hp hrow hs' hrow' =>
    subst hl
    have hc := claims_of_begun h hq.handling
    rw [ht] at hc
    have := hw.le
    omega
  | resumed k reply c handler hl hp hc hs' hr =>
    subst hl
    have hlive := live_of_call hp hc
    have hunspent : k.handler.spent n = false := by
      by_contra hspent
      rcases (Handler.resume_next hr).spent (Bool.eq_true_of_not_eq_false hspent) with
        hs₁ | ⟨f, file, fileHash, rest, hk, rfl, ha⟩
      · rw [show Handler.spent n handler = false from hs] at hs₁
        cases hs₁
      -- the record has just been inserted
      · obtain rfl := Reply.of_seen ha
        have htask := hid.taskId hp (f := f) (by rw [hk]; rfl)
        rw [hk] at hc
        cases hc
        refine hrec ?_
        have := (Store.apply_addFile_recorded (Store.serve_done hs').2).1
        rwa [htask, show k.message.taskId = id from ht] at this
    have hold := recorded_before hx hid h hlive ht
      (fun f e file todo _ _ hk => by rw [hk] at hunspent; cases hunspent) hrec
    exact (hw.lt hlive ht hunspent hold).trans_le hle

end Credit

end World

/-- **A file is uploaded at most once for each claim.** In every run in which `reclaim_stuck` takes
only tasks of ended handlers, the uploads of a name that the handlers of a task ask for are at most
as many as the claims of the task, however often the API gives the name. -/
theorem uploads_le_claims (sha256 : Bytes → Digest) (w₀ w : World) (ls : List Label) (id : TaskId)
    (n : String) (h0 : (system sha256).init w₀)
    (hg : (system sha256).Guarded ReclaimsEnded w₀ ls) (hrun : (system sha256).run w₀ ls = some w) :
    (system sha256).tally (World.uploads id n) w₀ ls ≤ w.claims id := by
  have hstart : w₀.Credit id n 0 := by
    obtain ⟨now, bucket, rfl⟩ := h0
    exact ⟨Nat.zero_le _, fun hk => by cases hk.handling⟩
  have := System.Reach.run_tally (R := fun w used => w.Credit id n used)
    (p := World.uploads id n) (fun w used l w' hr hw _ hst => ?_) (.init h0) hstart hg hrun
  · rw [Nat.zero_add] at this
    exact this.le
  · have hx := exclusive_invariant sha256 w hr
    split
    · next hu => exact hw.step_upload hx (storesNew_invariant sha256 w hr) (Step.of_step hst) hu
    · exact hw.step_other hx (copies_of_message sha256 w hr.toFree) (Step.of_step hst)

/-- The API gives the name `x` twice in one batch. -/
def givenTwice : List Label :=
  let task := ((DownloadTask.new "t" "").toModel.claimed "a" 0).toDomain
  [.start 0 "t" none .done, .send 0, .deliver 1 ⟨"t", none⟩ "a", .claim 1 .done,
    .call 1 (.done (.task (some task))), .call 1 (.done (.names ["x", "x"])), .call 1 (.done .done),
    .call 1 (.done (.archive [⟨"x", [1]⟩, ⟨"x", [1]⟩])), .call 1 (.done .next),
    .call 1 (.done .done), .call 1 (.done (.found false)), .call 1 (.done (.stored 1)),
    .call 1 (.done .done), .call 1 (.done .next), .call 1 (.done (.found true))]

theorem given_twice_uploaded_once : ∃ w,
    (system fun _ => 0).run (fresh 0 fun _ => none) givenTwice = some w ∧ w.claims "t" = 1 ∧
    (system fun _ => 0).tally (World.uploads "t" "x") (fresh 0 fun _ => none) givenTwice ≤ 1 := by
  obtain ⟨w, hrun, hc⟩ := (Option.any_eq_true ..).mp
    (by decide +kernel : ((system fun _ => 0).run (fresh 0 fun _ => none) givenTwice).any
      (fun w => w.claims "t" = 1) = true)
  have hc := of_decide_eq_true hc
  have hle := uploads_le_claims _ _ w givenTwice "t" "x" ⟨0, fun _ => none, rfl⟩
    (guarded_of_no_reclaim (by decide)) hrun
  exact ⟨w, hrun, hc, hc ▸ hle⟩

end FileExtractor
