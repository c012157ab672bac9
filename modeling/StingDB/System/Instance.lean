import StingDB.Catalog.CatalogManager
import StingDB.Storage.BufferPool
import StingDB.Transaction.TransactionManager

/-!
# The instance

`system/instance.h`: the managers of one database, which every executor works on through its
`ExecutorContext` (`execution/executor_context.h`).
-/

set_option autoImplicit false

namespace StingDB

/-- `StingInstance`.  The log manager is the one that `txn_manager_` points to. -/
structure StingInstance where
  /-- `bpm_`, and the disk manager behind it. -/
  bpm : Store
  /-- `txn_manager_` -/
  txnManager : TransactionManager := {}
  /-- `catalog_manager_` -/
  catalogManager : CatalogManager := {}

namespace StingInstance

/-- A new instance on a file. -/
def start (poolSize : ℕ) (file : PageId → Option PageData) : StingInstance :=
  { bpm := { pool := .create poolSize, disk := { file } } }

/-- `GetLogManager`. -/
def getLogManager (s : StingInstance) : LogManager := s.txnManager.logManager

/-- The frame a `Page*` points to becomes `page`. -/
def setPage (s : StingInstance) (frameId : ℕ) (page : Page) : StingInstance :=
  { s with bpm := { s.bpm with pool := s.bpm.pool.setPage frameId page } }

/-- `GetTransactionManager()->Begin(iso_level)`. -/
def begin (s : StingInstance) (isoLevel : IsolationLevel) : Transaction × StingInstance :=
  ((s.txnManager.begin isoLevel).1, { s with txnManager := (s.txnManager.begin isoLevel).2 })

/-- `GetTransactionManager()->Commit(txn)`.  `none` if there is no such transaction. -/
def commit (s : StingInstance) (txn : TxnId) : Option StingInstance :=
  (s.txnManager.txnMap txn).map fun t ↦ { s with txnManager := s.txnManager.commit t }

/-- `GetTransactionManager()->Abort(txn)`. -/
def abort (s : StingInstance) (txn : TxnId) : Option StingInstance :=
  (s.txnManager.txnMap txn).map fun t ↦ { s with txnManager := s.txnManager.abort t }

end StingInstance

end StingDB
