import Tablespace.Bytes.LittleEndian
import Tablespace.Record.Id

/-!
# Slots

A slot is an entry of eight bytes in the directory of a page: a tag, a byte
without meaning, a short word and a long word. A body slot owns bytes of its
page, a forwarded slot names the place of a relocated record, and a deleted
slot names the next one of the free list.
-/

namespace Tablespace

inductive Slot where
  /-- A record that is addressed through this slot. -/
  | occupied (offset length : UInt16)
  | deleted (nextFree : SlotNum)
  /-- A record whose bytes lie at another slot. -/
  | forwarded (target : RecordId)
  /-- Bytes held for a forwarded slot of another page. -/
  | moved (offset length : UInt16)
deriving DecidableEq, Repr

/-- Damage of a page, or a demand that its slots cannot meet. -/
inductive PageFault where
  | slotLength (length : UInt32)
  | unknownSlotTag (tag : UInt8)
  | directoryOverlap (boundary slotCount : UInt16)
  | bodyCrossesBoundary (offset length boundary : UInt16)
  | freeListSlot (slot : SlotNum) (found : Slot)
  | noBody (slot : SlotNum)
  | cannotForward (slot : SlotNum) (found : Slot)
  | notForwarded (slot : SlotNum)
  | forwardsPastEnd (slot : SlotNum) (target : RecordId)
  | forwardsTo (slot : SlotNum) (target : RecordId) (found : Slot)
  | forwardsToMissing (slot : SlotNum) (target : RecordId)
deriving DecidableEq, Repr

/-! ## Text -/

def RecordId.inspect (id : RecordId) : String :=
  s!"RecordId \x7b page_num: {id.page}, slot_num: {id.slot} \x7d"

def Slot.inspect : Slot → String
  | .occupied offset length => s!"Occupied \x7b offset: {offset}, length: {length} \x7d"
  | .deleted nextFree => s!"Deleted \x7b next_free: {nextFree} \x7d"
  | .forwarded target => s!"Forwarded({target.inspect})"
  | .moved offset length => s!"Moved \x7b offset: {offset}, length: {length} \x7d"

def PageFault.message : PageFault → String
  | .slotLength length => s!"slot length {length}"
  | .unknownSlotTag tag => s!"unknown slot tag {tag}"
  | .directoryOverlap boundary slotCount =>
    s!"boundary {boundary} overlaps a directory of {slotCount} slots"
  | .bodyCrossesBoundary offset length boundary =>
    s!"body {offset}+{length} crosses boundary {boundary}"
  | .freeListSlot slot found => s!"free-list slot {slot} is {found.inspect}"
  | .noBody slot => s!"slot {slot} has no body to resize"
  | .cannotForward slot found => s!"cannot forward slot {slot} in state {found.inspect}"
  | .notForwarded slot => s!"slot {slot} is not forwarded"
  | .forwardsPastEnd slot target =>
    s!"slot {slot} forwards past the end of file to {target.display}"
  | .forwardsTo slot target found =>
    s!"slot {slot} forwards to {target.display} holding {found.inspect}"
  | .forwardsToMissing slot target => s!"slot {slot} forwards to missing slot {target.display}"

/-! ## Bytes -/

namespace Slot

def size : Nat := 8

def layout (tag : UInt8) (short : UInt16) (long : UInt32) : Bytes :=
  [tag, 0] ++ LittleEndian.ofUInt16 short ++ LittleEndian.ofUInt32 long

def encode : Slot → Bytes
  | .occupied offset length => layout 1 offset length.toUInt32
  | .deleted nextFree => layout 2 nextFree 0
  | .forwarded target => layout 3 target.slot target.page
  | .moved offset length => layout 4 offset length.toUInt32

/-- Reads the slot at the front of a byte string that is long enough. -/
def decode (b : Bytes) : Except PageFault Slot :=
  let tag := b.headD 0
  let short := LittleEndian.toUInt16 ((b.drop 2).take 2)
  let long := LittleEndian.toUInt32 ((b.drop 4).take 4)
  let length : Except PageFault UInt16 :=
    if long.toNat < UInt16.size then .ok long.toUInt16 else .error (.slotLength long)
  if tag = 1 then return .occupied short (← length)
  else if tag = 2 then return .deleted short
  else if tag = 3 then return .forwarded ⟨long, short⟩
  else if tag = 4 then return .moved short (← length)
  else throw (.unknownSlotTag tag)

/-- Offset and length of the bytes that a slot owns on its page. -/
def body? : Slot → Option (UInt16 × UInt16)
  | .occupied offset length => some (offset, length)
  | .moved offset length => some (offset, length)
  | _ => none

/-- A slot of the same kind that owns other bytes. -/
def withBody (offset length : UInt16) : Slot → Slot
  | .moved _ _ => .moved offset length
  | _ => .occupied offset length

/-! ## Laws -/

@[simp] theorem length_encode (s : Slot) : s.encode.length = size := by
  cases s <;> simp [encode, layout, size]

theorem take_append_ofUInt16 (w : UInt16) (b : Bytes) :
    (LittleEndian.ofUInt16 w ++ b).take 2 = LittleEndian.ofUInt16 w := by
  rw [List.take_append_of_le_length (by simp)]
  exact List.take_of_length_le (by simp)

@[simp] theorem decode_encode (s : Slot) : decode s.encode = .ok s := by
  have short (w : UInt16) (tag : UInt8) (v : UInt32) :
      LittleEndian.toUInt16 (((layout tag w v).drop 2).take 2) = w := by
    rw [layout, List.append_assoc, List.drop_append_of_le_length (by simp)]
    simp only [List.drop_succ_cons, List.drop_nil, List.nil_append]
    rw [take_append_ofUInt16, LittleEndian.toUInt16_ofUInt16]
  have long (w : UInt16) (tag : UInt8) (v : UInt32) :
      LittleEndian.toUInt32 (((layout tag w v).drop 4).take 4) = v := by
    have : (layout tag w v).drop 4 = LittleEndian.ofUInt32 v := by
      rw [layout, List.drop_append_of_le_length (by simp), List.drop_of_length_le (by simp),
        List.nil_append]
    rw [this, List.take_of_length_le (by simp), LittleEndian.toUInt32_ofUInt32]
  have narrow (w : UInt16) : w.toUInt32.toNat < UInt16.size := by
    rw [UInt16.toNat_toUInt32]
    exact w.toNat_lt
  have back (w : UInt16) : w.toUInt32.toUInt16 = w := by simp
  cases s <;> simp only [encode, decode, short, long, narrow, back, if_true]
  all_goals simp [layout, pure, Except.pure, bind, Except.bind]

end Slot

end Tablespace
