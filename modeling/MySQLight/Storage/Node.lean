import MySQLight.Data.Search
import MySQLight.Storage.Disk

/-!
The nodes of a B+ tree (`storage/btree_node.go`).

A node is a page read through a fixed layout. Both kinds start with the
type (one byte), the number of keys and the free-space pointer (two bytes
each). A leaf goes on with the page number of its right sibling and one
slot of four numbers per entry (offset and length of the key, offset and
length of the value); an internal node with its child page numbers and
one slot of two numbers per separator. Slots grow upwards, the bytes they
point to are stored downwards from the end of the page.

The functions compute with the machine integers of the source: offsets
are sixteen bits wide and wrap around, and a slice expression that leaves
the page is a run-time panic, here `none`. A method that changes the page
in place returns the changed node.
-/

namespace MySQLight.Storage

open MySQLight.Data

inductive NodeType
  | nodeLeaf
  | nodeInternal
deriving DecidableEq, Repr

/-- The byte that stands for a node type. -/
def NodeType.code : NodeType → UInt8
  | nodeLeaf => 1
  | nodeInternal => 2

/-- The largest value of sixteen bits, plus one. -/
def word : Nat := 2 ^ 16

/-- Where the slots of a leaf start. -/
def slotStart : Nat := 9

/-! ### Access to the bytes of a page -/

namespace PageData

/-- `binary.BigEndian.Uint16(data[off:])`. -/
def uint16 (p : PageData) (off : Nat) : Option Nat :=
  if off + 2 ≤ PageSize then some (beNat (slice p.bytes off (off + 2))) else none

/-- `binary.BigEndian.Uint32(data[off:])`. -/
def uint32 (p : PageData) (off : Nat) : Option Nat :=
  if off + 4 ≤ PageSize then some (beNat (slice p.bytes off (off + 4))) else none

/-- `data[a:b]`. -/
def range (p : PageData) (a b : Nat) : Option Bytes :=
  if a ≤ b ∧ b ≤ PageSize then some (slice p.bytes a b) else none

/-- `copy(data[off:], src)`; also the `Put` functions, whose bytes always
fit where the source uses them. -/
def copyTo (p : PageData) (off : Nat) (src : Bytes) : Option PageData :=
  if off ≤ PageSize then some (p.patch off src) else none

/-- `copy(data[a:b], src)`. -/
def copyRange (p : PageData) (a b : Nat) (src : Bytes) : Option PageData :=
  if a ≤ b ∧ b ≤ PageSize then some (p.patch a (src.take (b - a))) else none

end PageData

/-- A node: the page it lies on, its type when it was decoded, and its
bytes. -/
structure Node where
  pageID : Nat
  nodeType : NodeType
  data : PageData
deriving DecidableEq

/-- The page of a node without keys. -/
def newHeader (type : NodeType) : PageData :=
  ((PageData.zero.patch 0 [type.code]).patch 1 (be 2 0)).patch 3 (be 2 PageSize)

def makeNewLeafHeader : PageData := newHeader .nodeLeaf

def makeNewInternalHeader : PageData := newHeader .nodeInternal

def decodeNode (pageID : Nat) (data : PageData) : Except Err Node :=
  if data.bytes.head? = some NodeType.nodeLeaf.code then .ok ⟨pageID, .nodeLeaf, data⟩
  else if data.bytes.head? = some NodeType.nodeInternal.code then
    .ok ⟨pageID, .nodeInternal, data⟩
  else .error .dataIsNotANode

namespace Node

def isLeaf (n : Node) : Bool := n.nodeType = .nodeLeaf

/-! ### Header fields -/

def keyCount (n : Node) : Nat := beNat (slice n.data.bytes 1 3)

def setKeyCount (n : Node) (count : Nat) : Node :=
  { n with data := n.data.patch 1 (be 2 count) }

def incrementKeyCount (n : Node) : Node := n.setKeyCount (n.keyCount + 1)

def decrementKeyCount (n : Node) : Node := n.setKeyCount (n.keyCount + word - 1)

def findFreeSpace (n : Node) : Nat := beNat (slice n.data.bytes 3 5)

def newFreeSpace (n : Node) (newPtr : Nat) : Node :=
  { n with data := n.data.patch 3 (be 2 newPtr) }

def rightSibling (n : Node) : Nat := beNat (slice n.data.bytes 5 9)

def setRightSibling (n : Node) (pageID : Nat) : Node :=
  { n with data := n.data.patch 5 (be 4 pageID) }

/-- Change the bytes of a node. -/
def withData (n : Node) (f : PageData → Option PageData) : Option Node :=
  (f n.data).map fun data => { n with data := data }

/-! ### Leaves -/

/-- The bytes a pair of an offset and a length at `offset` points to. -/
def pointee (n : Node) (offset : Nat) : Option Bytes := do
  let start ← n.data.uint16 offset
  let len ← n.data.uint16 (offset + 2)
  n.data.range start ((start + len) % word)

def leafKey (n : Node) (i : Nat) : Option Bytes := n.pointee (slotStart + i * 8)

def leafValue (n : Node) (i : Nat) : Option Bytes := n.pointee (slotStart + i * 8 + 4)

/-- `insertLeafEntry`: value and key go below the free-space pointer, the
later slots move up by one. -/
def insertLeafEntry (n : Node) (key value : Bytes) (slotIndex : Nat) : Option Node := do
  let insertValue := (n.findFreeSpace + word - value.length % word) % word
  let n ← n.withData (·.copyTo insertValue value)
  let insertKey := (insertValue + word - key.length % word) % word
  let n ← n.withData (·.copyTo insertKey key)
  let n := n.newFreeSpace insertKey
  let slotInsert := be 2 insertKey ++ be 2 key.length ++ be 2 insertValue ++ be 2 value.length
  let slotByte := slotStart + slotIndex * 8
  let moved ← n.data.range slotByte (slotStart + n.keyCount * 8)
  let n ← n.withData (·.copyTo (slotByte + 8) moved)
  let n ← n.withData (·.copyTo slotByte slotInsert)
  return n.incrementKeyCount

/-- `deleteLeafEntry`: the later slots move down by one; the bytes of the
entry stay behind. -/
def deleteLeafEntry (n : Node) (slotIndex : Nat) : Option Node := do
  let slotByte := slotStart + slotIndex * 8
  let moved ← n.data.range (slotByte + 8) (slotStart + n.keyCount * 8 % word)
  let n ← n.withData (·.copyTo slotByte moved)
  return n.decrementKeyCount

/-- All keys and values of a leaf, in slot order. -/
def leafEntries (n : Node) : Option (List (Bytes × Bytes)) :=
  (List.range n.keyCount).mapM fun i => do return (← n.leafKey i, ← n.leafValue i)

/-- The loop that fills an empty leaf from slot `i` on. -/
def appendLeafEntries (n : Node) : Nat → List (Bytes × Bytes) → Option Node
  | _, [] => some n
  | i, (key, value) :: entries => do
      (← n.insertLeafEntry key value i).appendLeafEntries (i + 1) entries

def leafLiveBytes (n : Node) : Option Nat := do
  let entries ← n.leafEntries
  return slotStart + n.keyCount * 8 + (entries.map fun e => e.1.length + e.2.length).sum

/-- `rebuildLeaf`: the given entries packed into a fresh page, with the
old right sibling. -/
def rebuildLeaf (n : Node) (entries : List (Bytes × Bytes)) : Option Node := do
  let sibling := n.rightSibling
  let temp ← appendLeafEntries ⟨n.pageID, .nodeLeaf, makeNewLeafHeader⟩ 0 entries
  return { n with data := temp.data }.setRightSibling sibling

def compactLeaf (n : Node) : Option Node := do
  n.rebuildLeaf (← n.leafEntries)

/-! ### Internal nodes -/

def childPageID (n : Node) (i : Nat) : Option Nat := n.data.uint32 (5 + i * 4)

/-- Where the slots of an internal node start. -/
def slotsBase (n : Node) : Nat := (5 + (n.keyCount + 1) * 4) % word

/-- `internalKey`. The index is a Go `int`: the code asks a node without
keys for its last key, at index `-1`. -/
def internalKey (n : Node) (i : Int) : Option Bytes :=
  n.pointee (((n.slotsBase : Int) + i * 4) % word).toNat

/-- `insertInternalEntry`: the new child pointer pushes the slot array up
by four bytes, the new slot the later slots by four more. -/
def insertInternalEntry (n : Node) (key : Bytes) (slotIndex rightChildID : Nat) : Option Node := do
  let insertKeyIndex := (n.findFreeSpace + word - key.length % word) % word
  let slotsBase := n.slotsBase
  let later ← n.data.range ((slotsBase + slotIndex * 4) % word)
    ((slotsBase + n.keyCount * 4) % word)
  let n ← n.withData (·.copyTo (slotsBase + 4 + (slotIndex + 1) * 4) later)
  let earlier ← n.data.range slotsBase ((slotsBase + slotIndex * 4) % word)
  let n ← n.withData
    (·.copyRange ((slotsBase + 4) % word) ((slotsBase + 4 + slotIndex * 4) % word) earlier)
  let children ← n.data.range (5 + (slotIndex + 1) * 4) ((5 + (n.keyCount + 1) * 4) % word)
  let n ← n.withData (·.copyTo (5 + (slotIndex + 2) * 4) children)
  let n ← n.withData (·.copyTo (5 + (slotIndex + 1) * 4) (be 4 rightChildID))
  let keySlot := be 2 insertKeyIndex ++ be 2 key.length
  let n ← n.withData (·.copyTo ((slotsBase + 4 + slotIndex * 4) % word) keySlot)
  let n ← n.withData (·.copyTo insertKeyIndex key)
  return (n.newFreeSpace insertKeyIndex).incrementKeyCount

/-- All separators of an internal node. -/
def internalKeys (n : Node) : Option (List Bytes) :=
  (List.range n.keyCount).mapM fun i : Nat => n.internalKey i

/-- All children of an internal node, one more than separators. -/
def children (n : Node) : Option (List Nat) :=
  (List.range (n.keyCount + 1)).mapM n.childPageID

/-- The loop that fills an internal node from slot `i` on; a separator
without a child to its right is an index out of range. -/
def appendInternalEntries (n : Node) : Nat → List Bytes → List Nat → Option Node
  | _, [], _ => some n
  | _, _ :: _, [] => none
  | i, key :: keys, child :: children => do
      (← n.insertInternalEntry key i child).appendInternalEntries (i + 1) keys children

/-- The page with the given separators and children. -/
def buildInternal (pageID : Nat) (keys : List Bytes) : List Nat → Option Node
  | [] => none
  | child :: children =>
    appendInternalEntries
      ⟨pageID, .nodeInternal, makeNewInternalHeader.patch 5 (be 4 child)⟩ 0 keys children

def rebuildInternal (n : Node) (keys : List Bytes) (children : List Nat) : Option Node := do
  return { n with data := (← buildInternal n.pageID keys children).data }

/-- `deleteInternalEntry`. -/
def deleteInternalEntry (n : Node) (separatorKeyIndex : Int) (childIndex : Nat) : Option Node := do
  let oldCount := n.keyCount
  let keys ← ((List.range oldCount).filter fun i : Nat => (i : Int) ≠ separatorKeyIndex).mapM
    fun i : Nat => n.internalKey i
  let children ← ((List.range (oldCount + 1)).filter (· ≠ childIndex)).mapM n.childPageID
  n.rebuildInternal keys children

/-- `replaceInternalKey`. -/
def replaceInternalKey (n : Node) (i : Nat) (newKey : Bytes) : Option Node := do
  let keys ← (List.range n.keyCount).mapM fun j : Nat =>
    if j = i then some newKey else n.internalKey j
  n.rebuildInternal keys (← n.children)

def internalLiveBytes (n : Node) : Option Nat := do
  let keys ← n.internalKeys
  return 5 + (n.keyCount + 1) * 4 + n.keyCount * 4 + (keys.map List.length).sum

end Node

/-- `binarySearchKeys`: in a leaf the first key that is not below `key`,
in an internal node the child to descend into. -/
def binarySearchKeys (node : Node) (key : Bytes) (leaf : Bool) : Option Nat :=
  bisect
    (fun mid => do
      if leaf then return compareBytes (← node.leafKey mid) key == .lt
      else return compareBytes (← node.internalKey mid) key != .gt)
    node.keyCount 0 node.keyCount

end MySQLight.Storage
