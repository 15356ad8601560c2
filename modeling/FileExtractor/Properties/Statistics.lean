import Mathlib.Algebra.Field.Rat
import FileExtractor.Application.Statistics

/-!
# The statistics and the table

The number of all files is counted with the empty filter, which has the uploaded and the failed ones
in it, and the sizes are never summed. The result agrees with the table exactly when no file is
uploaded or failed and all files are empty.
-/

namespace FileExtractor

/-- The result says what the table holds. -/
structure StatisticsResult.Agrees (files : FileTable) (r : StatisticsResult) : Prop where
  totalFiles : r.totalFiles = files.rows.length
  uploadedFiles : r.uploadedFiles = files.rows.countP (·.status = .uploaded)
  failedFiles : r.failedFiles = files.rows.countP (·.status = .failed)
  bounded : r.uploadedFiles + r.failedFiles ≤ r.totalFiles
  totalSize : r.totalSize = (files.rows.map FileModel.size).sum
  average : files.rows ≠ [] → r.averageFileSize * r.totalFiles = r.totalSize

namespace FileTable

theorem name_injective {s t : FileStatus} (h : s.name = t.name) : s = t := by
  cases s <;> cases t <;> first | rfl | exact absurd h (by decide)

theorem countByStatus_empty (files : FileTable) : files.countByStatus "" = files.rows.length := rfl

theorem countByStatus_name (files : FileTable) (s : FileStatus) :
    files.countByStatus s.name = files.rows.countP (·.status = s) := by
  have hs : s.name ≠ "" := by cases s <;> decide
  rw [countByStatus, if_neg hs]
  refine List.countP_congr fun m _ => ?_
  simp only [FileModel.hasStatus, decide_eq_true_eq]
  exact ⟨name_injective, fun h => by rw [h]⟩

end FileTable

namespace StatisticsHandler

variable (files : FileTable)

theorem execute_totalFiles : (execute files).totalFiles = files.rows.length +
    files.rows.countP (·.status = .uploaded) + files.rows.countP (·.status = .failed) := by
  rw [← files.countByStatus_name, ← files.countByStatus_name, ← files.countByStatus_empty]
  unfold execute
  dsimp only
  split <;> rfl

theorem execute_uploadedFiles :
    (execute files).uploadedFiles = files.rows.countP (·.status = .uploaded) := by
  rw [← files.countByStatus_name]
  unfold execute
  dsimp only
  split <;> rfl

theorem execute_failedFiles :
    (execute files).failedFiles = files.rows.countP (·.status = .failed) := by
  rw [← files.countByStatus_name]
  unfold execute
  dsimp only
  split <;> rfl

theorem execute_totalSize : (execute files).totalSize = 0 := by
  unfold execute
  dsimp only
  split <;> rfl

theorem execute_averageFileSize : (execute files).averageFileSize = 0 := by
  unfold execute
  dsimp only
  split
  · simp
  · rfl

/-- **The statistics agree with the table** exactly when it holds no uploaded, no failed and only
empty files. -/
theorem execute_agrees_iff : (execute files).Agrees files ↔
    ∀ m ∈ files.rows, m.status ≠ .uploaded ∧ m.status ≠ .failed ∧ m.size = 0 := by
  have hup : files.rows.countP (·.status = .uploaded) = 0 ↔
      ∀ m ∈ files.rows, m.status ≠ .uploaded := by simp
  have hfail : files.rows.countP (·.status = .failed) = 0 ↔
      ∀ m ∈ files.rows, m.status ≠ .failed := by simp
  have hsize : (files.rows.map FileModel.size).sum = 0 ↔ ∀ m ∈ files.rows, m.size = 0 := by
    rw [List.sum_eq_zero_iff_forall_eq_nat, List.forall_mem_map]
  constructor
  · intro h
    have htotal := h.totalFiles
    rw [execute_totalFiles] at htotal
    have hsum := h.totalSize
    rw [execute_totalSize] at hsum
    intro m hm
    exact ⟨hup.mp (by omega) m hm, hfail.mp (by omega) m hm, hsize.mp hsum.symm m hm⟩
  · intro h
    have h₁ := hup.mpr fun m hm => (h m hm).1
    have h₂ := hfail.mpr fun m hm => (h m hm).2.1
    have h₃ := hsize.mpr fun m hm => (h m hm).2.2
    refine ⟨?_, execute_uploadedFiles files, execute_failedFiles files, ?_, ?_, fun _ => ?_⟩
    · rw [execute_totalFiles, h₁, h₂, Nat.add_zero]
    · rw [execute_totalFiles, execute_uploadedFiles, execute_failedFiles]; omega
    · rw [execute_totalSize, h₃]
    · rw [execute_totalSize, execute_averageFileSize, zero_mul, Nat.cast_zero]

/-- One uploaded file of five bytes is counted as two files of no bytes. -/
theorem execute_uploaded :
    let files : FileTable := ⟨[⟨1, "a", 5, none, some "k", .uploaded, 0, some 1⟩], by decide⟩
    execute files = { totalFiles := 2, uploadedFiles := 1 } ∧ ¬ (execute files).Agrees files := by
  refine ⟨by decide +kernel, fun h => ?_⟩
  have := h.totalFiles
  revert this
  decide +kernel

end StatisticsHandler

end FileExtractor
