import FileExtractor.Application.Outstanding
import FileExtractor.Worker.Execution

/-!
# The batches of a run

What a run whose calls succeed asks the API for: the names that it has got (`asked`), and the
downloads and marks of its batches (`transfers`). `Traced` says that the batches so far and the
names that are not processed yet are the names that the run has got, in order; `Tally` that the
counters of the copy have grown by these names. Both hold in every state of such a run (`Batched`).
So what is pending is read off the calls, and the run asks until it gets an empty list with nothing
pending (`StopsAsking`).
-/

namespace FileExtractor

open Lts

/-- A call of the API for a batch. -/
inductive Transfer where
  | download (batch : List String)
  | mark (batch : List String)
  deriving DecidableEq

/-- The download of a batch and its mark. -/
def Transfer.both (batch : List String) : List Transfer := [download batch, mark batch]

/-- The names that the API records. -/
def Transfer.marked : Transfer → List String
  | download _ => []
  | mark batch => batch

def Call.transfer : Call → Option Transfer
  | downloadStream batch => some (.download batch)
  | markDownloaded batch _ => some (.mark batch)
  | _ => none

def Reply.names : Reply → Option (List String)
  | done (.names fileNames) => some fileNames
  | _ => none

theorem Reply.of_names {reply : Reply} {fileNames : List String}
    (h : reply.names = some fileNames) : reply = .done (.names fileNames) := by
  unfold names at h
  split at h
  · cases h; rfl
  · cases h

/-- The names of an answer. -/
def Answer.fileNames : Answer → List String
  | names fileNames => fileNames
  | _ => []

/-- The lists of names that a run has got. -/
def asked (calls : List (Call × Reply)) : List (List String) :=
  calls.filterMap fun p => p.2.names

/-- Its downloads and marks. -/
def transfers (calls : List (Call × Reply)) : List Transfer :=
  calls.filterMap fun p => p.1.transfer

/-- The batch whose download has been answered, and whose mark has not. -/
def Handler.opened : Handler → List Transfer
  | extract f _ | storeHeartbeat f _ _ | checkExists f _ _ | upload f _ _ => [.download f.batch]
  | record f _ _ _ | mark f => [.download f.batch]
  | _ => []

/-- The batch that the answer to this call is the mark of. -/
def Handler.marking : Handler → List (List String)
  | mark f => [f.batch]
  | _ => []

/-- The batches so far. -/
def Traced (calls : List (Call × Reply)) (h : Handler) : Prop :=
  ∃ batches : List (List String), (∀ b ∈ batches, b ≠ [] ∧ b.length ≤ 3) ∧
    transfers calls = batches.flatMap Transfer.both ++ h.opened ∧
    batches.flatten ++ h.unprocessed = (asked calls).flatten

/-- Every name that the calls have got has been marked. -/
def NothingPending (calls : List (Call × Reply)) : Prop :=
  (transfers calls).flatMap Transfer.marked = (asked calls).flatten

/-- `get_file_names` has answered with an empty list between these calls. -/
def EmptyBetween (before after calls : List (Call × Reply)) : Prop :=
  ∃ call, calls = before ++ (call, .done (.names [])) :: after

/-- No empty list has been got with nothing pending. -/
def GoesOnAsking (calls : List (Call × Reply)) : Prop :=
  ∀ before after, EmptyBetween before after calls → ¬ NothingPending before

/-- The last list that was asked for is empty, and it is the first empty one that was got with
nothing pending. -/
def StopsAsking (calls : List (Call × Reply)) : Prop :=
  ∃ before after, EmptyBetween before after calls ∧ asked after = [] ∧ NothingPending before ∧
    GoesOnAsking before

/-- The counters of the copy have grown by `total` received names, of which `n` are outstanding. -/
def DownloadTask.Tally (s : DownloadTask) (total n : Nat) (t : DownloadTask) : Prop :=
  t.receivedFiles = s.receivedFiles + total ∧ t.processedFiles + n = s.processedFiles + total

variable {sha256 : Bytes → Digest} {now : Time} {h h' : Handler} {a : Answer} {call : Call}
  {calls : List (Call × Reply)} {command : ProcessFilesCommand}

theorem asked_concat (p : Call × Reply) :
    asked (calls ++ [p]) = asked calls ++ p.2.names.toList := by
  unfold asked
  rw [List.filterMap_append]
  cases hp : p.2.names <;> simp [hp]

theorem transfers_concat (p : Call × Reply) :
    transfers (calls ++ [p]) = transfers calls ++ p.1.transfer.toList := by
  unfold transfers
  rw [List.filterMap_append]
  cases hp : p.1.transfer <;> simp [hp]

theorem flatten_asked_concat (call : Call) (a : Answer) :
    (asked (calls ++ [(call, .done a)])).flatten = (asked calls).flatten ++ a.fileNames := by
  rw [asked_concat, List.flatten_append]
  cases a <;> simp [Reply.names, Answer.fileNames]

theorem flatMap_marked_both (batches : List (List String)) :
    (batches.flatMap Transfer.both).flatMap Transfer.marked = batches.flatten := by
  simp [List.flatMap_assoc, Transfer.both, Transfer.marked, List.flatMap_id']

/-- What is not processed is what has been got and is not marked. -/
theorem Traced.marked (ht : Traced calls h) :
    (transfers calls).flatMap Transfer.marked ++ h.unprocessed = (asked calls).flatten := by
  obtain ⟨batches, -, htransfers, hnames⟩ := ht
  have hopened : h.opened.flatMap Transfer.marked = [] := by cases h <;> rfl
  rw [htransfers, List.flatMap_append, flatMap_marked_both, hopened, List.append_nil, hnames]

theorem Traced.nothingPending_iff (ht : Traced calls h) :
    NothingPending calls ↔ h.unprocessed = [] := by
  rw [NothingPending, ← ht.marked, List.self_eq_append_right]

/-- An empty list after one more call is an earlier one, or the answer to this call. -/
theorem EmptyBetween.of_concat {before after : List (Call × Reply)} {reply : Reply}
    (he : EmptyBetween before after (calls ++ [(call, reply)])) :
    (before = calls ∧ reply = .done (.names [])) ∨
      ∃ after', EmptyBetween before after' calls := by
  obtain ⟨call', hcalls⟩ := he
  rcases List.eq_nil_or_concat after with rfl | ⟨after', last, rfl⟩
  · obtain ⟨rfl, hlast⟩ := List.append_inj' hcalls rfl
    simp only [List.cons.injEq, Prod.mk.injEq, and_true] at hlast
    exact .inl ⟨rfl, hlast.2⟩
  · rw [List.concat_eq_append, ← List.cons_append, ← List.append_assoc] at hcalls
    exact .inr ⟨after', call', (List.append_inj' hcalls rfl).1⟩

/-- Another call that gets no names. -/
theorem StopsAsking.concat {reply : Reply} (hs : StopsAsking calls) (hn : reply.names = none) :
    StopsAsking (calls ++ [(call, reply)]) := by
  obtain ⟨before, after, ⟨call', rfl⟩, hafter, hpending, hgoes⟩ := hs
  refine ⟨before, after ++ [(call, reply)], ⟨call', by simp⟩, ?_, hpending, hgoes⟩
  rw [asked_concat, hafter, hn]
  rfl

namespace Handler

/-- The handlers that ask for no more names, in a run whose calls succeed. -/
def isFinishing : Handler → Bool
  | storeSuccess _ | ended _ => true
  | _ => false

/-- A run finishes with the first empty list that it gets with nothing pending. -/
theorem Answered.finishing (ha : Answered sha256 now h a h') (hr : h.recovering = false)
    (hf : h'.isFinishing = true) : (h = getTask ∧ a = .task none) ∨
      (h.unprocessed = [] ∧ a = .names []) ∨ (h.isFinishing = true ∧ a = .done) := by
  cases ha with
  | absent => exact .inl ⟨rfl, rfl⟩
  | completed f hp => exact .inr (.inl ⟨hp, rfl⟩)
  | closed f h hh =>
    rcases hh with rfl | rfl | rfl
    · cases hr
    · exact .inr (.inr ⟨rfl, rfl⟩)
    · cases hr
  | rowsDeleted => cases hr
  | _ => cases hf

/-- It asks for no more names then. -/
theorem Answered.stays_finishing (ha : Answered sha256 now h a h') (hr : h.recovering = false)
    (hf : h.isFinishing = true) : h'.isFinishing = true := by
  cases ha with
  | closed f h hh => rfl
  | rowsDeleted => cases hr
  | _ => cases hf

/-- Nothing else follows such a list. -/
theorem Answered.goes_on (ha : Answered sha256 now h (.names []) h')
    (hf : h'.isFinishing = false) : h.unprocessed ≠ [] := by
  cases ha with
  | named f fileNames hn => exact absurd rfl hn
  | leftover f hp => exact hp
  | completed f hp => cases hf

theorem unprocessed_nextBatch (f : Frame) : (nextBatch f).unprocessed = f.pending :=
  List.take_append_drop 3 f.pending

/-- An answer opens a batch, or it closes one. -/
theorem Answered.opened (ha : Answered sha256 now h a h') (hc : h.call command = some call)
    (hr : h.recovering = false) :
    h.opened ++ call.transfer.toList = h.marking.flatMap Transfer.both ++ h'.opened := by
  cases ha with
  | closed f h hh =>
    rcases hh with rfl | rfl | rfl
    · cases hr
    · cases hc; rfl
    · cases hr
  | objectDeleted | rowsDeleted => cases hr
  | _ => cases hc; rfl

/-- The names of an answer become pending, and those of a batch are processed with its mark. -/
theorem Answered.unprocessed (ha : Answered sha256 now h a h') (hr : h.recovering = false) :
    h.unprocessed ++ a.fileNames = h.marking.flatten ++ h'.unprocessed := by
  cases ha with
  | leftover f hp => rw [unprocessed_nextBatch]; exact List.append_nil _
  | received f => rw [unprocessed_nextBatch]; exact List.append_nil _
  | again f hp => rw [unprocessed_nextBatch]; exact List.append_nil _
  | completed f hp => simp [Handler.unprocessed, Answer.fileNames, marking, hp]
  | closed f h hh =>
    rcases hh with rfl | rfl | rfl
    · cases hr
    · rfl
    · cases hr
  | objectDeleted | rowsDeleted => cases hr
  | _ => simp [Handler.unprocessed, Answer.fileNames, marking, Frame.start, countEntry]

/-- **The batches after an answer.** -/
theorem Answered.traced (ha : Answered sha256 now h a h') (hc : h.call command = some call)
    (hr : h.recovering = false) (hf : h.Fed) (ht : Traced calls h) :
    Traced (calls ++ [(call, .done a)]) h' := by
  obtain ⟨batches, hsize, htransfers, hnames⟩ := ht
  refine ⟨batches ++ h.marking, fun b hb => ?_, ?_, ?_⟩
  · rcases List.mem_append.mp hb with hb | hb
    · exact hsize b hb
    · cases h <;> simp only [marking, List.not_mem_nil, List.mem_singleton] at hb
      rw [hb]; exact hf
  · rw [transfers_concat, htransfers, List.append_assoc, ha.opened hc hr, List.flatMap_append,
      List.append_assoc]
  · rw [flatten_asked_concat, ← hnames, List.append_assoc, ha.unprocessed hr, List.flatten_append,
      List.append_assoc]

/-- The run ends where the task is not found, or after a success. -/
theorem Answered.ended (ha : Answered sha256 now h a h') (hr : h.recovering = false)
    (he : h'.isEnded = true) : (h = getTask ∧ a = .task none) ∨ ∃ f, h = storeSuccess f := by
  cases ha with
  | absent => exact .inl ⟨rfl, rfl⟩
  | closed f h hh =>
    rcases hh with rfl | rfl | rfl
    · cases hr
    · exact .inr ⟨f, rfl⟩
    · cases hr
  | rowsDeleted => cases hr
  | _ => cases he

/-- **The counters after an answer.** -/
theorem Answered.tally {s : DownloadTask} {total : Nat} (ha : Answered sha256 now h a h')
    (hr : h.recovering = false) (hrun : h.Running) (hh : h.Held (s.Tally total))
    (hread : ∀ t, a = .task (some t) → s.Tally total 0 t) :
    h'.Held (s.Tally (total + a.fileNames.length)) := by
  cases ha with
  | started t => exact ⟨.inr rfl, hread t rfl⟩
  | absent => trivial
  | named f fileNames hn =>
    obtain ⟨-, hreceived, hprocessed⟩ := hh
    refine ⟨hrun f rfl, ?_, ?_⟩
    · simp only [Answer.fileNames]
      omega
    · simp only [Answer.fileNames, List.length_append]
      omega
  | leftover f hp => exact held_nextBatch (hrun f rfl) hh.2
  | completed f hp => exact ⟨rfl, by have := hh.2; rwa [hp] at this⟩
  | received f => exact held_nextBatch hh.1 hh.2
  | marked f =>
    obtain ⟨hs, hreceived, hprocessed⟩ := hh
    refine ⟨hs, hreceived, ?_⟩
    simp only [Answer.fileNames, List.length_nil]
    omega
  | asking f hp => exact ⟨.inl hh.1, hh.2⟩
  | again f hp => exact held_nextBatch hh.1 hh.2
  | objectDeleted | rowsDeleted => cases hr
  | closed f h hh => trivial
  | _ => exact hh

end Handler

namespace Execution

variable {e e' : Execution} {ev : Event} {s : DownloadTask}

/-- The names of the run so far. -/
def got (e : Execution) : List String := (asked e.calls).flatten

theorem got_step (hst : (executions sha256).step e ev = some e') {a : Answer}
    (ha : ev.reply = .done a) : e'.got = e.got ++ a.fileNames := by
  obtain ⟨call, -, hcalls⟩ := calls_step hst
  rw [got, hcalls, ha, flatten_asked_concat, got]

/-- A run on the row `s` whose calls have succeeded. -/
structure Batched (s : DownloadTask) (e : Execution) : Prop where
  sound : Sound s.candidateId e
  fed : e.handler.Fed
  going : e.handler.recovering = false
  unread : e.handler = .getTask → e.stored = some s ∧ e.calls = []
  traced : Traced e.calls e.handler
  copy : e.handler.Held (s.Tally e.got.length)
  asking : if e.handler.isFinishing then StopsAsking e.calls else GoesOnAsking e.calls
  ended : e.handler.isEnded = true → e.handler = .ended none ∧
    ∃ t, e.stored = some t ∧ t.status = .success ∧ s.Tally e.got.length 0 t

theorem batched_start {command : ProcessFilesCommand} {now : Time} {store : Store}
    (hs : store.tasks.getById command.taskId = some s) (hr : s.status = .running) :
    Batched s (start command now store) where
  sound := sound_start hs hr
  fed := trivial
  going := rfl
  unread _ := ⟨hs, rfl⟩
  traced := ⟨[], nofun, rfl, rfl⟩
  copy := trivial
  asking := by
    rintro before after ⟨call, hcalls⟩
    simp [start] at hcalls
  ended he := by cases he

/-- A run that reads its task does not end with it. -/
theorem Batched.not_absent (h : Batched s e) (hst : (executions sha256).step e ev = some e')
    {a : Answer} (ha : ev.reply = .done a) (hk : e.handler = .getTask) : a ≠ .task none := by
  rintro rfl
  obtain ⟨-, hts, -⟩ := h.sound.reads hst ha
  rw [(h.unread hk).1] at hts; cases hts

/-- **Where a run stops asking.** -/
theorem Batched.asking_step (h : Batched s e) (hst : (executions sha256).step e ev = some e')
    {a : Answer} (ha : ev.reply = .done a) :
    if e'.handler.isFinishing then StopsAsking e'.calls else GoesOnAsking e'.calls := by
  have hans := h.sound.answered hst ha
  have hasking := h.asking
  obtain ⟨call, -, hcalls⟩ := calls_step hst
  rw [hcalls, ha]
  by_cases hf' : e'.handler.isFinishing = true
  · rw [if_pos hf']
    rcases hans.finishing h.going hf' with ⟨hk, rfl⟩ | ⟨hu, rfl⟩ | ⟨hf, rfl⟩
    · exact absurd rfl (h.not_absent hst ha hk)
    · -- the list that ends the run
      have hf : e.handler.isFinishing = false := by
        generalize e.handler = k at hans
        generalize e'.handler = k' at hans
        cases hans <;> rfl
      rw [hf] at hasking
      exact ⟨e.calls, [], ⟨call, rfl⟩, rfl, h.traced.nothingPending_iff.mpr hu, hasking⟩
    · rw [if_pos hf] at hasking
      exact hasking.concat rfl
  · rw [if_neg hf']
    have hf : e.handler.isFinishing = false := by
      refine Bool.eq_false_iff.mpr fun hf => hf' ?_
      exact hans.stays_finishing h.going hf
    rw [hf] at hasking
    intro before after he
    rcases he.of_concat with ⟨rfl, hreply⟩ | ⟨after', he⟩
    · cases hreply
      rw [h.traced.nothingPending_iff]
      exact hans.goes_on (Bool.eq_false_iff.mpr hf')
    · exact hasking before after' he

/-- **Every call that succeeds keeps it.** -/
theorem Batched.step (h : Batched s e) (hok : Succeeds e ev)
    (hst : (executions sha256).step e ev = some e') : Batched s e' := by
  obtain ⟨a, ha⟩ := Reply.of_not_failed hok
  have hans := h.sound.answered hst ha
  obtain ⟨call, hcall, hcalls⟩ := calls_step hst
  rw [ha] at hcalls
  have hgot := got_step hst ha
  have htally : e'.handler.Held (s.Tally e'.got.length) := by
    rw [hgot, List.length_append]
    refine hans.tally h.going h.sound.running h.copy fun t ht => ?_
    obtain ⟨hk, hts, -⟩ := h.sound.reads hst (ht ▸ ha)
    obtain ⟨hs, hnil⟩ := h.unread hk
    rw [hs] at hts; cases hts
    rw [got, hnil]
    exact ⟨by simp [asked], by simp [asked]⟩
  refine ⟨h.sound.step hst, hans.fed h.fed, ?_, fun hk => ?_, ?_, htally, h.asking_step hst ha,
    fun he => ?_⟩
  · refine Bool.eq_false_iff.mpr fun hr => ?_
    have := hans.recovering hr
    rw [h.going] at this; cases this
  · obtain ⟨c, store, handler, -, -, -, hr, rfl⟩ := step_eq hst
    exact absurd hk (Handler.resume_next hr).ne_getTask
  · rw [hcalls]
    exact hans.traced hcall h.going h.fed h.traced
  · obtain ⟨f, hk⟩ : ∃ f, e.handler = .storeSuccess f := by
      rcases hans.ended h.going he with ⟨hk, rfl⟩ | hk
      · exact absurd rfl (h.not_absent hst ha hk)
      · exact hk
    obtain ⟨-, hwrite, -⟩ := h.sound.ends hst (.inr (.inl hk))
    have hheld := h.copy
    rw [hk] at hheld hans
    obtain ⟨rfl, hend⟩ : a = .done ∧ e'.handler = .ended none := by
      generalize e'.handler = k at hans
      cases hans; exact ⟨rfl, rfl⟩
    refine ⟨hend, f.task, h.sound.written hst hwrite fun x hx => ?_, hheld.1, ?_⟩
    · rw [ha] at hx; cases hx
    · rw [hgot]
      exact (List.append_nil e.got).symm ▸ hheld.2

end Execution

end FileExtractor
