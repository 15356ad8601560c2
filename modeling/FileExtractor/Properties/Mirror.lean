import FileExtractor.Properties.WellFormed
import Mathlib.Algebra.Order.Ring.Rat

/-!
# The entity and the repository

The transitions of a task are written twice: as methods of the entity and as SQL. `Mirrors` says
that the two agree on a row. The `UPDATE` of `claim` also clears `error`, `blocked_until` and
`block_reason`; the last two are empty in every `PENDING` row (`DownloadTask.Unblocked`), but the
error text of a block stays in the row that `reclaim_blocked` releases. And at `blocked_until`
itself a row is neither blocked for the entity nor released by the watchdog. A `workerId` fits into
its column, `String(100)`; for a longer one the SQL raises, and the entity takes it.
-/

namespace FileExtractor

open Rel Lts World

/-- The SQL of the repository does with the row `m` what the entity does. -/
structure DownloadTaskModel.Mirrors (tasks : TaskTable) (workerId : String) (now : Time)
    (m : DownloadTaskModel) : Prop where
  claims : (tasks.claim m.id workerId now).2.isSome ↔
    ∃ t, m.toDomain.claim workerId now = .returned t
  claimed : ((tasks.claim m.id workerId now).1.get? m.id).map toDomain =
    some (m.toDomain.claim workerId now).object
  beats : TaskTable.beating m.id m = true ↔ ∃ t, m.toDomain.heartbeat now = .returned t
  beaten : ((tasks.updateHeartbeat m.id now).get? m.id).map toDomain =
    some (m.toDomain.heartbeat now).object
  released : m.status = .blocked → (m.isReleasable now = true ↔ m.toDomain.isBlocked now = false)

namespace DownloadTaskModel

variable {tasks : TaskTable} {m : DownloadTaskModel} {workerId : String} {now : Time}

/-! ## `claim` -/

theorem claim_row (hm : m ∈ tasks) : (tasks.claim m.id workerId now).1.get? m.id =
    some (if m.status = .pending then m.claimed workerId now else m) := by
  rw [TaskTable.get?_claim, Table.get?_mem hm]
  by_cases hs : m.status = .pending <;> simp [TaskTable.claimable, hs]

/-- The `UPDATE` clears three columns that the method leaves. -/
theorem claimed_agrees (hs : m.status = .pending) :
    (m.claimed workerId now).toDomain = (m.toDomain.claim workerId now).object ↔
      m.error = none ∧ m.blockedUntil = none ∧ m.blockReason = none := by
  simp [DownloadTask.claim, toDomain, claimed, Called.object, hs, eq_comm]

theorem Mirrors.error (h : m.Mirrors tasks workerId now) (hm : m ∈ tasks)
    (hs : m.status = .pending) : m.error = none := by
  have hc := h.claimed
  rw [claim_row hm, if_pos hs, Option.map_some, Option.some.injEq] at hc
  exact ((claimed_agrees hs).mp hc).1

end DownloadTaskModel

open DownloadTaskModel

end FileExtractor
