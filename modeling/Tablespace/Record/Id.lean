import Tablespace.File.Error

/-!
# Record identifiers

A record is named by a page and a slot of that page. It keeps the name for
life, also when its bytes move to another page.
-/

namespace Tablespace

abbrev SlotNum := UInt16

structure RecordId where
  page : PageNum
  slot : SlotNum
deriving DecidableEq, Repr

def RecordId.display (id : RecordId) : String := s!"({id.page},{id.slot})"

end Tablespace
