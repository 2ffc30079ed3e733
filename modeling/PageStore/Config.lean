-- The settings of a pool of pages.
import PageStore.Error

namespace PageStore

structure Config where
  /-- The most pages that are held in memory. -/
  capacity : Nat := 50
  /-- The bytes of a page. -/
  pageSize : Nat := 4096
  /-- How long a transaction waits for a lock, in milliseconds. -/
  lockTimeout : Nat := 1000
  deriving Repr, DecidableEq

namespace Config

def validate (c : Config) : Except Error Unit :=
  if c.capacity = 0 then .error (.catalog .noPages)
  else if c.pageSize < 64 then .error (.catalog (.pageTooSmall c.pageSize))
  else .ok ()

end Config

end PageStore
