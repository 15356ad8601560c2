import FileExtractor.Infrastructure.DownloadStream

/-!
# What a download yields and leaves behind

`Wire` reads the bodies off the events: what the current response has sent, and the bodies of the
attempts that completed. `Matches` relates them to the generator, in every state of every run
(`matches_run`): a temporary file holds what the response of its attempt has sent, the bytes that
were yielded come from the one attempt that completed, and the file is gone when the generator is
over.
-/

namespace FileExtractor

open Lts

namespace DownloadStream

/-- What the events say of the responses. -/
structure Wire where
  /-- What the response of the last attempt has sent. -/
  body : Bytes
  /-- The bodies of the attempts that completed. -/
  bodies : List Bytes
  /-- The number of the attempts. -/
  attempts : Nat

def Wire.next (w : Wire) : Event → Wire
  | .create _ => { w with body := [], attempts := w.attempts + 1 }
  | .chunk bytes => { w with body := w.body ++ bytes }
  | .complete => { w with bodies := w.bodies ++ [w.body] }
  | _ => w

/-- The responses of a run. -/
def wire (evs : List Event) : Wire := evs.foldl Wire.next ⟨[], [], 0⟩

/-- Nothing is there yet, or any more, and nothing was yielded. -/
structure Idle (s : DownloadStream) (w : Wire) : Prop where
  dir : s.dir.IsEmpty
  yielded : s.yielded = []
  bodies : w.bodies = []

/-- The file holds the body of the attempt that completed, and the bytes before `pos` were
yielded. -/
structure Reading (s : DownloadStream) (w : Wire) (path : String) (pos : Nat) (body : Bytes) :
    Prop where
  dir : s.dir.Only path body
  bodies : w.bodies = [body]
  yielded : s.yielded.flatten = body.take pos

/-- The generator and the responses, by the point where the generator is. -/
def MatchesAt (s : DownloadStream) (w : Wire) : StreamPhase → Prop
  | .created | .wait | .backoff _ | .raised _ => Idle s w
  | .attempt name => s.dir.Only name w.body ∧ s.yielded = [] ∧ w.bodies = []
  | .read path pos | .yielded path pos => ∃ body, Reading s w path pos body
  | .finished => s.dir.IsEmpty ∧ w.bodies = [s.yielded.flatten]
  | .closed => s.dir.IsEmpty ∧
      ((s.yielded = [] ∧ w.bodies = []) ∨ ∃ body, w.bodies = [body] ∧ s.yielded.flatten <+: body)

def Matches (s : DownloadStream) (w : Wire) : Prop :=
  s.dir.created = w.attempts ∧ MatchesAt s w s.phase

variable {s s' : DownloadStream} {w : Wire} {ev : Event} {evs : List Event}
  {retry : AsyncRetryExecutor}

theorem matches_new (retry : AsyncRetryExecutor) : Matches (new retry) ⟨[], [], 0⟩ :=
  ⟨rfl, TempDir.isEmpty_empty, rfl, rfl⟩

/-- After an exception the executor raises or sleeps. -/
theorem handle_error (x : AsyncRetryExecutor) (a : Attempts) (u : ℚ) (e : AttemptError) :
    (∃ e', x.handle a u (e.outcome : Outcome String) = .stop (.error e')) ∨
      ∃ delay a', x.handle a u (e.outcome : Outcome String) = .sleep delay a' := by
  have hsleep : ∀ (a' : Attempts) (delay : Except Exn ℚ),
      (∃ e', (Decision.sleepFor a' delay : Decision String) = .stop (.error e')) ∨
        ∃ d a'', (Decision.sleepFor a' delay : Decision String) = .sleep d a'' := by
    rintro a' (e | d)
    · exact .inl ⟨e, rfl⟩
    · exact .inr ⟨d, a', rfl⟩
  cases e with
  | rateLimited retryAfter =>
    simp only [AttemptError.outcome, AsyncRetryExecutor.handle]
    split
    · exact .inl ⟨_, rfl⟩
    · exact hsleep _ _
  | retryable e =>
    simp only [AttemptError.outcome, AsyncRetryExecutor.handle]
    split
    · exact .inl ⟨_, rfl⟩
    · exact hsleep _ _
  | raised e => exact .inl ⟨e, rfl⟩

/-- An attempt that raised: the file is gone, whatever the executor decides. -/
theorem matches_failed (hcreated : s.dir.created = w.attempts) {name : String}
    (honly : s.dir.Only name w.body) (hyielded : s.yielded = []) (hbodies : w.bodies = [])
    (e : AttemptError) (u : ℚ) :
    Matches ({ s with dir := s.dir.unlink name }.decided
      (s.retry.handle s.attempts u e.outcome)) w := by
  rcases handle_error s.retry s.attempts u e with ⟨e', hd⟩ | ⟨delay, a, hd⟩
  · rw [hd]
    exact ⟨hcreated, honly.unlink, hyielded, hbodies⟩
  · rw [hd]
    exact ⟨hcreated, honly.unlink, hyielded, hbodies⟩

theorem Reading.chunkAt {path : String} {pos : Nat} {body : Bytes}
    (h : Reading s w path pos body) :
    s.chunkAt path pos = (body.drop pos).take chunkSize := by
  rw [DownloadStream.chunkAt, h.dir.content?, Option.getD_some]

/-- A read that finds nothing is at the end of the body. -/
theorem Reading.ended {path : String} {pos : Nat} {body : Bytes} (h : Reading s w path pos body)
    (he : s.chunkAt path pos = []) : s.yielded.flatten = body := by
  rw [h.chunkAt] at he
  have hdrop : body.drop pos = [] := by
    rcases List.take_eq_nil_iff.mp he with h0 | hdrop
    · cases h0
    · exact hdrop
  rw [h.yielded, List.take_of_length_le (List.drop_eq_nil_iff.mp hdrop)]

/-- A chunk that is read is what follows in the body. -/
theorem Reading.flatten {path : String} {pos : Nat} {body : Bytes}
    (h : Reading s w path pos body) : (s.yielded ++ [s.chunkAt path pos]).flatten =
      body.take (pos + (s.chunkAt path pos).length) := by
  have hlen : (s.chunkAt path pos) = (body.drop pos).take (s.chunkAt path pos).length := by
    rw [h.chunkAt, List.length_take, List.take_eq_take_min]
  rw [List.take_add, ← hlen]
  simp [h.yielded]

theorem matches_step (h : Matches s w) (hst : step s ev = some s') : Matches s' (w.next ev) := by
  obtain ⟨hcreated, hat⟩ := h
  unfold step at hst
  split at hst
  · next hp =>
    cases hst
    rw [hp] at hat
    exact ⟨hcreated, hat.dir, hat.yielded, hat.bodies⟩
  · next hp =>
    cases hst
    rw [hp] at hat
    exact ⟨hcreated, hat.dir, .inl ⟨hat.yielded, hat.bodies⟩⟩
  · next name hp =>
    obtain ⟨dir, hdir, rfl⟩ := Option.map_eq_some_iff.mp hst
    rw [hp] at hat
    refine ⟨?_, hat.dir.create hdir, hat.yielded, hat.bodies⟩
    exact (TempDir.create?_eq_some hdir).2.trans (congrArg (· + 1) hcreated)
  · next name bytes hp =>
    cases hst
    rw [hp] at hat
    obtain ⟨honly, hyielded, hbodies⟩ := hat
    refine ⟨hcreated, ?_⟩
    change MatchesAt _ _ s.phase
    rw [hp]
    exact ⟨honly.append bytes, hyielded, hbodies⟩
  · next name e u hp =>
    cases hst
    rw [hp] at hat
    exact matches_failed hcreated hat.1 hat.2.1 hat.2.2 e u
  · next name hp =>
    cases hst
    rw [hp] at hat
    obtain ⟨honly, hyielded, hbodies⟩ := hat
    refine ⟨hcreated, w.body, honly, ?_, ?_⟩
    · exact congrArg (· ++ [w.body]) hbodies
    · exact congrArg List.flatten hyielded
  · next hp =>
    cases hst
    rw [hp] at hat
    exact ⟨hcreated, hat.dir, hat.yielded, hat.bodies⟩
  · next path pos hp =>
    rw [hp] at hat
    obtain ⟨body, hr⟩ := hat
    dsimp only at hst
    split at hst
    · next he =>
      cases hst
      refine ⟨hcreated, hr.dir.unlink, ?_⟩
      exact hr.bodies.trans (congrArg (fun b => [b]) (hr.ended he).symm)
    · cases hst
      exact ⟨hcreated, body, hr.dir, hr.bodies, hr.flatten⟩
  · next path pos hp =>
    cases hst
    rw [hp] at hat
    obtain ⟨body, hr⟩ := hat
    exact ⟨hcreated, body, hr.dir, hr.bodies, hr.yielded⟩
  · next path pos hp =>
    cases hst
    rw [hp] at hat
    obtain ⟨body, hr⟩ := hat
    refine ⟨hcreated, hr.dir.unlink, .inr ⟨body, hr.bodies, ?_⟩⟩
    exact hr.yielded ▸ List.take_prefix pos body
  · cases hst

theorem matches_run (h : system.run (new retry) evs = some s) : Matches s (wire evs) :=
  System.run_foldl (S := system) (R := Matches) (fun _ _ _ _ hm hst => matches_step hm hst)
    (matches_new retry) h

/-! ## Reading to the end -/

/-- A consumer that reads `n` chunks, and then the end. -/
def readOn : Nat → List Event
  | 0 => [.read]
  | n + 1 => .read :: .next :: readOn n

/-- A chunk is read, and the consumer comes back for the next. -/
theorem run_read_next {path : String} {pos : Nat} (hp : s.phase = .read path pos)
    (he : s.chunkAt path pos ≠ []) (evs : List Event) :
    system.run s (.read :: .next :: evs) = system.run { s with
      yielded := s.yielded ++ [s.chunkAt path pos]
      phase := .read path (pos + (s.chunkAt path pos).length) } evs := by
  have hread : system.step s .read = some { s with
      yielded := s.yielded ++ [s.chunkAt path pos]
      phase := .yielded path (pos + (s.chunkAt path pos).length) } := by
    change step s .read = _
    unfold step
    rw [hp]
    exact if_neg he
  rw [System.run_cons, hread, Option.bind_some, System.run_cons]
  rfl

/-- **Reading on comes to the end**: every chunk before the end of the body has a byte. -/
theorem Reading.finishes {path : String} {pos : Nat} {body : Bytes}
    (h : Reading s w path pos body) (hp : s.phase = .read path pos) :
    ∃ n s', system.run s (readOn n) = some s' ∧ s'.phase = .finished := by
  induction hm : body.length - pos using Nat.strong_induction_on generalizing s pos with
  | _ m ih =>
    by_cases he : s.chunkAt path pos = []
    · have hread : system.step s .read =
          some { s with dir := s.dir.unlink path, phase := .finished } := by
        change step s .read = _
        unfold step
        rw [hp]
        exact if_pos he
      exact ⟨0, _, System.run_cons_eq_some.mpr ⟨_, hread, rfl⟩, rfl⟩
    · have hpos : 0 < (s.chunkAt path pos).length := List.length_pos_iff.mpr he
      have hlt : pos < body.length := by
        rw [h.chunkAt, List.length_take, List.length_drop] at hpos
        omega
      have hr : Reading { s with
          yielded := s.yielded ++ [s.chunkAt path pos]
          phase := .read path (pos + (s.chunkAt path pos).length) } w path
          (pos + (s.chunkAt path pos).length) body := ⟨h.dir, h.bodies, h.flatten⟩
      obtain ⟨n, s', hrun, hs'⟩ := ih _ (by omega) hr rfl rfl
      exact ⟨n + 1, s', by rw [readOn, run_read_next hp he, hrun], hs'⟩

/-! ## The stream -/

/-- What a download has yielded and left behind. -/
structure Clean (s : DownloadStream) (w : Wire) : Prop where
  /-- At most one temporary file exists. -/
  oneFile : s.dir.files.rows.length ≤ 1
  /-- What was read to the end is the body of the one attempt that completed. -/
  whole : s.phase = .finished → w.bodies = [s.yielded.flatten]
  /-- No byte is yielded of an attempt that failed. -/
  unmixed : s.yielded = [] ∨ ∃ body, w.bodies = [body] ∧ s.yielded.flatten <+: body
  /-- An exception comes before the first chunk. -/
  raises : ∀ e, s.phase = .raised e → s.yielded = [] ∧ w.bodies = []
  /-- Every attempt makes a file. -/
  created : s.dir.created = w.attempts
  /-- When the generator is over, each of them has been removed once. -/
  removed : s.phase.isOver = true → s.dir.files.rows = [] ∧
    ∀ i, s.dir.removed.count i = if i < s.dir.created then 1 else 0
  /-- An attempt gets its file under any name. -/
  makes : s.phase = .wait → ∀ name, ∃ s', system.step s (.create name) = some s'
  /-- A consumer that reads on comes to the end. -/
  finishes : ∀ path pos, s.phase = .read path pos →
    ∃ n s', system.run s (readOn n) = some s' ∧ s'.phase = .finished

theorem Matches.oneFile (h : Matches s w) : s.dir.files.rows.length ≤ 1 := by
  have hat := h.2
  unfold MatchesAt at hat
  split at hat
  -- before the first attempt, between two attempts, and after an exception
  iterate 4 exact hat.dir.length_le
  · exact hat.1.length_le
  iterate 2
    obtain ⟨body, hr⟩ := hat
    exact hr.dir.length_le
  · exact hat.1.length_le
  · exact hat.1.length_le

theorem Matches.unmixed (h : Matches s w) :
    s.yielded = [] ∨ ∃ body, w.bodies = [body] ∧ s.yielded.flatten <+: body := by
  have hat := h.2
  unfold MatchesAt at hat
  split at hat
  iterate 4 exact .inl hat.yielded
  · exact .inl hat.2.1
  iterate 2
    obtain ⟨body, hr⟩ := hat
    exact .inr ⟨body, hr.bodies, hr.yielded ▸ List.take_prefix ..⟩
  · exact .inr ⟨_, hat.2, List.prefix_refl _⟩
  · exact hat.2.imp_left And.left

/-- Nothing is left when the generator is over. -/
theorem Matches.isEmpty (h : Matches s w) (ho : s.phase.isOver = true) : s.dir.IsEmpty := by
  have hat := h.2
  cases hp : s.phase with
  | finished | closed =>
    rw [hp] at hat
    exact hat.1
  | raised e =>
    rw [hp] at hat
    exact hat.dir
  | _ => rw [hp] at ho; cases ho

theorem Matches.makes (h : Matches s w) (hp : s.phase = .wait) (name : String) :
    ∃ s', system.step s (.create name) = some s' := by
  have hat := h.2
  rw [hp] at hat
  obtain ⟨dir, hdir, -⟩ := hat.dir.exists_create name
  refine ⟨{ s with dir := dir, phase := .attempt name }, ?_⟩
  change step s (.create name) = _
  simp only [step, hp, hdir, Option.map_some]

/-- **Retried downloads never mix attempts or leak files**, in every run of the generator. -/
theorem clean_run (h : system.run (new retry) evs = some s) : Clean s (wire evs) := by
  have hm := matches_run h
  exact {
    oneFile := hm.oneFile
    whole := fun hp => by
      have hat := hm.2
      rw [hp] at hat
      exact hat.2
    unmixed := hm.unmixed
    raises := fun e hp => by
      have hat := hm.2
      rw [hp] at hat
      exact ⟨hat.yielded, hat.bodies⟩
    created := hm.1
    removed := fun ho => ⟨hm.isEmpty ho, (hm.isEmpty ho).count_removed⟩
    makes := hm.makes
    finishes := fun path pos hp => by
      have hat := hm.2
      rw [hp] at hat
      obtain ⟨body, hr⟩ := hat
      exact hr.finishes hp }

/-- The second attempt completes, under the name of the first. -/
theorem clean_retried :
    let evs : List Event := [.next, .create "tmp", .chunk [1, 2],
      .fail (.retryable (.other "timeout")) 0, .wake, .create "tmp", .chunk [3], .chunk [4],
      .complete, .read, .next, .read]
    ∃ s, system.run (new ⟨5, 50⟩) evs = some s ∧ Clean s (wire evs) ∧
      s.yielded = [[3, 4]] ∧ s.dir.removed = [0, 1] := by
  intro evs
  have hcheck : (system.run (new ⟨5, 50⟩) evs).any
      (fun s => s.yielded = [[3, 4]] && s.dir.removed = [0, 1]) = true := by decide +kernel
  obtain ⟨s, hrun, hs⟩ := (Option.any_eq_true ..).mp hcheck
  simp only [Bool.and_eq_true, decide_eq_true_eq] at hs
  exact ⟨s, hrun, clean_run hrun, hs⟩

end DownloadStream

end FileExtractor
