import FileExtractor.Domain.File

/-!
# The life of a `File`

A file is created, perhaps uploading, and then uploaded or failed. The three guarded methods follow
this order (`Accepts`) and the setter of `hash` has no guard. `lifecycle` takes any calls on a new
file: those that returned are one of five paths, the file is what its path says, and an uploaded or
failed file stays as it is exactly when no assignment gives it another hash.
-/

namespace FileExtractor

namespace File

open Objects

/-- The calls that return, and what they leave. -/
inductive Accepts (f : File) : Method → File → Prop where
  | start (h : f.status = .created) : Accepts f .startUpload { f with status := .uploading }
  | complete (h : f.status = .uploading) (storageKey : String) (fileHash : FileHash) (now : Time) :
    Accepts f (.completeUpload storageKey fileHash now) { f with
      storageKey := some storageKey, hash := some fileHash, status := .uploaded,
      uploadedAt := some now }
  | fail (h : f.status = .created ∨ f.status = .uploading) :
    Accepts f .failUpload { f with status := .failed }
  | hash (value : FileHash) : Accepts f (.setHash value) (f.setHash value)

def IsFinal (f : File) : Prop := f.status = .uploaded ∨ f.status = .failed

/-- What the setter needs: the hash that a final file has. -/
def Method.Keeps (f : File) : Method → Prop
  | .setHash value => f.IsFinal → f.hash = some value
  | _ => True

def Method.isTransition : Method → Bool
  | .setHash _ => false
  | _ => true

/-- The file after the transitions. -/
def Stage (f : File) : List Method → Prop
  | [] => f.status = .created ∧ f.storageKey = none ∧ f.uploadedAt = none
  | [.startUpload] => f.status = .uploading ∧ f.storageKey = none ∧ f.uploadedAt = none
  | [.startUpload, .completeUpload storageKey _ now] =>
    f.status = .uploaded ∧ f.storageKey = some storageKey ∧ f.uploadedAt = some now ∧
      f.hash.isSome = true
  | [.failUpload] | [.startUpload, .failUpload] =>
    f.status = .failed ∧ f.storageKey = none ∧ f.uploadedAt = none
  | _ => False

variable {f f' : File} {m : Method} {path : List Method}

/-! ## One call -/

theorem startUpload_cases :
    (∃ e, f.startUpload = .raised e f) ∨
      f.status = .created ∧ f.startUpload = .returned { f with status := .uploading } := by
  unfold startUpload
  by_cases hu : f.status = .uploaded
  · exact .inl ⟨_, if_pos hu⟩
  · by_cases hs : f.status = .created
    · exact .inr ⟨hs, by rw [if_neg hu, if_neg (not_not.mpr hs)]⟩
    · exact .inl ⟨_, by rw [if_neg hu, if_pos hs]⟩

/-- A call raises and changes nothing, or returns as the order of the life allows. -/
theorem call_cases (f : File) (m : Method) :
    (methods.raises f m = true ∧ methods.after f m = f) ∨
      (methods.raises f m = false ∧ f.Accepts m (methods.after f m)) := by
  have hraised : ∀ {e}, f.call m = .raised e f →
      methods.raises f m = true ∧ methods.after f m = f := fun h => by
    simp [methods, h, Called.isRaised, Called.object]
  have hreturned : ∀ {f'}, f.call m = .returned f' → f.Accepts m f' →
      methods.raises f m = false ∧ f.Accepts m (methods.after f m) := fun h hacc => by
    simpa [methods, h, Called.isRaised, Called.object] using hacc
  cases m with
  | startUpload =>
    rcases startUpload_cases (f := f) with ⟨e, h⟩ | ⟨hs, h⟩
    · exact .inl (hraised h)
    · exact .inr (hreturned h (.start hs))
  | completeUpload storageKey fileHash now =>
    by_cases hs : f.status = .uploading
    · exact .inr (hreturned (if_neg (not_not.mpr hs)) (.complete hs ..))
    · exact .inl (hraised (if_pos hs))
  | failUpload =>
    by_cases hs : f.status = .created ∨ f.status = .uploading
    · exact .inr (hreturned (if_pos hs) (.fail hs))
    · exact .inl (hraised (if_neg hs))
  | setHash value => exact .inr ⟨rfl, .hash value⟩

theorem after_of_raises (h : methods.raises f m = true) : methods.after f m = f := by
  rcases call_cases f m with ⟨-, hafter⟩ | ⟨hreturns, -⟩
  · exact hafter
  · rw [h] at hreturns
    cases hreturns

theorem setHash_eq_iff (value : FileHash) : f.setHash value = f ↔ f.hash = some value :=
  ⟨fun h => (congrArg File.hash h).symm, fun h => by rw [setHash, ← h]⟩

/-- Of a final file only the setter returns. -/
theorem Accepts.keeps_iff (h : f.Accepts m f') : m.Keeps f ↔ (f.IsFinal → f' = f) := by
  cases h with
  | start hs => simp [Method.Keeps, IsFinal, hs]
  | complete hs => simp [Method.Keeps, IsFinal, hs]
  | fail hs => rcases hs with hs | hs <;> simp [Method.Keeps, IsFinal, hs]
  | hash value => rw [Method.Keeps, setHash_eq_iff]

theorem Method.keeps_iff (f : File) (m : Method) : m.Keeps f ↔
    (methods.raises f m = true → methods.after f m = f) ∧
      (f.IsFinal → methods.after f m = f) := by
  rcases call_cases f m with ⟨hraises, hafter⟩ | ⟨hreturns, hacc⟩
  · refine iff_of_true ?_ ⟨fun _ => hafter, fun _ => hafter⟩
    cases m with
    | setHash value => cases hraises
    | _ => trivial
  · rw [hacc.keeps_iff, hreturns]
    simp

/-! ## The path -/

theorem Stage.of_created (h : f.Stage path) (hs : f.status = .created) :
    path = [] ∧ f.storageKey = none ∧ f.uploadedAt = none := by
  unfold Stage at h
  split at h <;> simp_all

theorem Stage.of_uploading (h : f.Stage path) (hs : f.status = .uploading) :
    path = [.startUpload] ∧ f.storageKey = none ∧ f.uploadedAt = none := by
  unfold Stage at h
  split at h <;> simp_all

theorem Stage.setHash (h : f.Stage path) (value : FileHash) : (f.setHash value).Stage path := by
  unfold Stage at h ⊢
  split <;> simp_all [File.setHash]

/-- A call that returns extends the path. -/
theorem Stage.accepts (h : f.Stage path) (ha : f.Accepts m f') :
    f'.Stage (path ++ [m].filter Method.isTransition) := by
  cases ha with
  | start hs =>
    obtain ⟨rfl, hkey, hat⟩ := h.of_created hs
    exact ⟨rfl, hkey, hat⟩
  | complete hs storageKey fileHash now =>
    obtain ⟨rfl, -, -⟩ := h.of_uploading hs
    exact ⟨rfl, rfl, rfl, rfl⟩
  | fail hs =>
    rcases hs with hs | hs
    · obtain ⟨rfl, hkey, hat⟩ := h.of_created hs
      exact ⟨rfl, hkey, hat⟩
    · obtain ⟨rfl, hkey, hat⟩ := h.of_uploading hs
      exact ⟨rfl, hkey, hat⟩
  | hash value => exact (List.append_nil path).symm ▸ h.setHash value

theorem Stage.run (h : f.Stage []) (ms : List Method) :
    (methods.run f ms).Stage ((methods.returned f ms).filter Method.isTransition) := by
  induction ms using List.reverseRecOn with
  | nil => exact h
  | append_singleton ms m ih =>
    rw [Methods.run_concat, Methods.returned_concat, List.filter_append]
    rcases call_cases (methods.run f ms) m with ⟨hraises, hafter⟩ | ⟨hreturns, hacc⟩
    · rw [if_pos hraises, hafter, List.filter_nil, List.append_nil]
      exact ih
    · rw [if_neg (by simp [hreturns])]
      exact ih.accepts hacc

/-! ## Any calls -/

/-- **The life of a file**: of any calls on a new file, those that raised could as well not have
been made, those that returned are a path of the life, and the file keeps the end that it has come
to unless its hash is assigned another value. -/
theorem lifecycle (fileId : FileId) (filename : String) (size : Nat) (hash : Option FileHash)
    (now : Time) (ms : List Method) :
    let f := init fileId filename size hash now
    methods.run f (methods.returned f ms) = methods.run f ms ∧
      (methods.run f ms).Stage ((methods.returned f ms).filter Method.isTransition) ∧
      (methods.Frozen IsFinal f ms ↔ methods.Each (fun f m => m.Keeps f) f ms) := by
  intro f
  have hatomic : methods.FailureAtomic f ms :=
    Methods.failureAtomic_iff.mpr fun _ _ _ => after_of_raises
  refine ⟨Methods.run_returned hatomic, Stage.run ⟨rfl, rfl, rfl⟩ ms, ?_⟩
  rw [← Methods.disciplined_iff Method.keeps_iff]
  exact ⟨fun h => ⟨hatomic, h⟩, And.right⟩

end File

end FileExtractor
