import FileExtractor.Infrastructure.Queries

/-!
# `StatisticsHandler`

`application/handlers/statistics_handler.py` and `application/queries/get_statistics.py`.
-/

namespace FileExtractor

/-- `StatisticsResult`, with its defaults. -/
structure StatisticsResult where
  totalFiles : Nat := 0
  totalSize : Nat := 0
  uploadedFiles : Nat := 0
  failedFiles : Nat := 0
  averageFileSize : ℚ := 0
  deriving DecidableEq

/-- `StatisticsHandler.execute`. The only dividend is the default `total_size`, which is 0, so the
float is the exact quotient. -/
def StatisticsHandler.execute (files : FileTable) : StatisticsResult :=
  let total := files.countByStatus ""
  let uploaded := files.countByStatus FileStatus.uploaded.name
  let failed := files.countByStatus FileStatus.failed.name
  let result : StatisticsResult :=
    { totalFiles := total + uploaded + failed
      uploadedFiles := uploaded
      failedFiles := failed }
  if result.totalFiles > 0 then
    { result with averageFileSize := (result.totalSize : ℚ) / result.totalFiles }
  else result

end FileExtractor
