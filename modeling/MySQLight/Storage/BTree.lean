import MySQLight.Effect.Proc
import MySQLight.Storage.BufferPool
import MySQLight.Storage.Node

/-!
The B+ tree (`storage/btree.go`).

The tree code is a set of procedures over the page operations of the
buffer pool. Their state is the tree object, which is the number of its
root page. A node is fetched, worked on as a value, and every change of
its bytes is assigned to the frame at once (`update`). Go keeps nodes as
pointers into the frames; the two agree because no procedure holds a page
twice. A run-time panic of the source is the error `panic`.

The path `findLeaf` returns lists the ancestors of the leaf, the nearest
first, so that the procedures that walk up recurse on the list. Unbounded
recursions and loops of the source are bounded by the number of page
numbers; a walk that is longer than that never ends.
-/

namespace MySQLight.Storage

open MySQLight.Data MySQLight.Effect

/-- `entryCap`. -/
def entryCap : Nat := (PageSize - slotStart) / 3

/-- The number of page numbers. -/
def pageNumbers : Nat := 2 ^ 32

/-- The tree object. -/
structure BTree where
  rootPageID : Nat
deriving DecidableEq

/-- A procedure of the tree. -/
abbrev TreeM (α : Type) : Type := Proc DataI BTree Err α

section Pages

variable {σ α : Type}

def fetchPage (id : Nat) : Proc DataI σ Err PageData := do
  Proc.ofExcept (← Proc.call (I := DataI) (.fetchPage id))

/-- `UnpinPage`, with the error ignored as all callers do. -/
def unpinPage (id : Nat) (dirty : Bool) : Proc DataI σ Err Unit := do
  let _ ← Proc.call (I := DataI) (.unpinPage id dirty)

def setData (id : Nat) (data : PageData) : Proc DataI σ Err Unit :=
  Proc.call (I := DataI) (.setData id data)

def allocatePage : Proc DataI σ Err Nat := do
  Proc.ofExcept (← Proc.call (I := DataI) .allocatePage)

/-- `FreePage`, with the error ignored as all callers do. -/
def freePage (id : Nat) : Proc DataI σ Err Unit := do
  let _ ← Proc.call (I := DataI) (.freePage id)

def fetchNode (id : Nat) : Proc DataI σ Err Node := do
  Proc.ofExcept (decodeNode id (← fetchPage id))

/-- A computation that panics when it leaves the page. -/
def orPanic (a : Option α) : Proc DataI σ Err α := Proc.orThrow .panic a

/-- Change a node in place. -/
def update (n : Node) (f : Node → Option Node) : Proc DataI σ Err Node := do
  let n' ← orPanic (f n)
  setData n'.pageID n'.data
  return n'

/-- Allocate a page and give it the contents `data`. -/
def formatPage (data : PageData) : Proc DataI σ Err Nat := do
  let id ← allocatePage
  let _ ← fetchPage id
  setData id data
  unpinPage id true
  return id

end Pages

/-- `NewBTree`. -/
def newBTree {σ : Type} (rootPageID : Nat) : Proc DataI σ Err BTree := do
  if rootPageID = 0 then return ⟨← formatPage makeNewLeafHeader⟩
  else return ⟨rootPageID⟩

namespace BTree

/-- `AllocateNewRoot`. -/
def allocateNewRoot : TreeM Nat := formatPage makeNewLeafHeader

/-! ### Search -/

/-- `findLeafRecursive`. -/
def findLeafRecursive (key : Bytes) : Nat → Nat → List Nat → TreeM (Nat × List Nat)
  | 0, _, _ => throw .panic
  | fuel + 1, pageNum, curr => do
      let node ← fetchNode pageNum
      if node.isLeaf then
        unpinPage pageNum false
        return (pageNum, curr)
      else
        let insert ← orPanic (binarySearchKeys node key false)
        let childID ← orPanic (node.childPageID insert)
        unpinPage pageNum false
        findLeafRecursive key fuel childID (pageNum :: curr)

def findLeaf (key : Bytes) : TreeM (Nat × List Nat) := do
  findLeafRecursive key pageNumbers (← get).rootPageID []

/-- The slot `binarySearchKeys` returns holds the key. -/
def keyAt (node : Node) (insert : Nat) (key : Bytes) : TreeM Bool := do
  if insert < node.keyCount then return (← orPanic (node.leafKey insert)) == key
  else return false

/-- `Get`. -/
def get (key : Bytes) : TreeM Bytes := do
  let (leafPageID, _) ← findLeaf key
  let node ← fetchNode leafPageID
  let insert ← orPanic (binarySearchKeys node key true)
  if ← keyAt node insert key then
    let value ← orPanic (node.leafValue insert)
    unpinPage leafPageID false
    return value
  unpinPage leafPageID false
  throw .notFound

/-! ### Insertion -/

/-- The loop that looks for the middle of a list of sizes: how many of
them stay `within` when added up from the front. -/
def midpointLoop (within : Nat → Bool) : Nat → List Nat → Nat
  | _, [] => 0
  | acc, size :: sizes =>
    if within (acc + size) then midpointLoop within (acc + size) sizes + 1 else 0

/-- Where `splitLeaf` cuts. -/
def leafMidpoint (sizes : List Nat) : Nat :=
  let midpoint := midpointLoop (· < sizes.sum / 2) 0 sizes
  let midpoint := if midpoint = 0 then 1 else midpoint
  if midpoint = sizes.length then sizes.length - 1 else midpoint

/-- Where `splitInternal` cuts. -/
def internalMidpoint (sizes : List Nat) : Nat :=
  let midpoint := midpointLoop (· ≤ sizes.sum / 2) 0 sizes
  let midpoint := if midpoint = 0 then 1 else midpoint
  if sizes.length ≤ midpoint + 1 then sizes.length - 2 else midpoint

/-- The page of a root with one separator. -/
def rootPage (medianKey : Bytes) (leftPageID rightPageID : Nat) : Option PageData := do
  let keyOffset := (PageSize + word - medianKey.length % word) % word
  let root := ((PageData.zero.patch 0 [NodeType.nodeInternal.code]).patch 1 (be 2 1)).patch 5
    (be 4 leftPageID)
  let root := ((root.patch 9 (be 4 rightPageID)).patch 13 (be 2 keyOffset)).patch 15
    (be 2 medianKey.length)
  let root ← root.copyTo keyOffset medianKey
  return root.patch 3 (be 2 keyOffset)

/-- The two halves of a leaf cut at `midpoint`, and the separator between
them. -/
def splitEntries (node : Node) (pageID : Nat) : Option (Node × Bytes × Node) := do
  let entries ← node.leafEntries
  let midpoint := leafMidpoint (entries.map fun e => e.1.length + e.2.length + 8)
  let left ← Node.appendLeafEntries { node with data := makeNewLeafHeader } 0
    (entries.take midpoint)
  let right := Node.setRightSibling ⟨pageID, .nodeLeaf, makeNewLeafHeader⟩ node.rightSibling
  let right ← right.appendLeafEntries 0 (entries.drop midpoint)
  let median ← entries[midpoint]?
  return (left.setRightSibling pageID, median.1, right)

/-- The two halves of an internal node with the separator `newKey` and the
child to its right added, and the separator between them. -/
def splitChildren (node : Node) (newKey : Bytes) (newChild pageID : Nat) :
    Option (Node × Bytes × Node) := do
  let oldKeys ← node.internalKeys
  let oldChildren ← node.children
  let index ← binarySearchKeys node newKey false
  let keys := oldKeys.take index ++ newKey :: oldKeys.drop index
  let children := oldChildren.take (index + 1) ++ newChild :: oldChildren.drop (index + 1)
  -- with a single key the source reads `keys[-1]`
  guard (2 ≤ keys.length)
  let midpoint := internalMidpoint (keys.map fun key => key.length + 4 + 4)
  let left ← Node.buildInternal node.pageID (keys.take midpoint) (children.take (midpoint + 1))
  let right ← Node.buildInternal pageID (keys.drop (midpoint + 1)) (children.drop (midpoint + 1))
  let median ← keys[midpoint]?
  return (left, median, right)

/-- `splitInternal`; `pushUp` is the call for the rest of the path. -/
def splitInternal (node : Node) (newKey : Bytes) (newChild : Nat)
    (pushUp : Bytes → Nat → TreeM Unit) : TreeM Unit := do
  let rightPageID ← allocatePage
  let (left, median, right) ← orPanic (splitChildren node newKey newChild rightPageID)
  setData node.pageID left.data
  let _ ← fetchPage rightPageID
  setData rightPageID right.data
  unpinPage rightPageID true
  pushUp median rightPageID

/-- `pushUp`. -/
def pushUp (medianKey : Bytes) (rightPageID : Nat) : List Nat → TreeM Unit
  | [] => do
      let rootID ← allocatePage
      let root ← orPanic (rootPage medianKey (← getThe BTree).rootPageID rightPageID)
      let _ ← fetchPage rootID
      setData rootID root
      unpinPage rootID true
      set (BTree.mk rootID)
  | parentID :: path => do
      let parentNode ← fetchNode parentID
      let needed := medianKey.length + 4 + 4
      if parentNode.findFreeSpace <
          needed + (5 + (parentNode.keyCount + 1) * 4 + parentNode.keyCount * 4) then
        Proc.onError
          (splitInternal parentNode medianKey rightPageID
            fun median rightID => pushUp median rightID path)
          (unpinPage parentID true)
      else
        let index ← orPanic (binarySearchKeys parentNode medianKey false)
        let _ ← update parentNode (·.insertInternalEntry medianKey index rightPageID)
      unpinPage parentID true

/-- `splitLeaf`. -/
def splitLeaf (node : Node) (path : List Nat) : TreeM (Bytes × Nat) := do
  let pageID ← allocatePage
  let (left, median, right) ← orPanic (splitEntries node pageID)
  setData node.pageID left.data
  let _ ← fetchPage pageID
  setData pageID right.data
  unpinPage pageID true
  pushUp median pageID path
  return (median, pageID)

/-- The bytes an entry takes in a leaf. -/
def entrySize (key value : Bytes) : Nat := key.length + value.length + 8

/-- The space between slots and free-space pointer does not hold `needed`
bytes. -/
def leafTooFull (node : Node) (needed : Nat) : Bool :=
  node.findFreeSpace < needed + (slotStart + node.keyCount * 8)

/-- The part of `Insert` that makes room in the leaf, by compaction or by a
split; the leaf to insert into comes back. -/
def makeRoom (node : Node) (path : List Nat) (key value : Bytes) : TreeM Node := do
  if leafTooFull node (entrySize key value) then
    if entrySize key value + (← orPanic node.leafLiveBytes) ≤ PageSize then
      update node Node.compactLeaf
    else
      let (median, rightPageID) ← splitLeaf node path
      unpinPage node.pageID true
      fetchNode (if compareBytes key median = .lt then node.pageID else rightPageID)
  else return node

/-- `Insert`. -/
def insert (key value : Bytes) : TreeM Unit := do
  if entryCap < entrySize key value then throw .entryTooLarge
  let (leafPageID, path) ← findLeaf key
  let node ← fetchNode leafPageID
  let insert ← orPanic (binarySearchKeys node key true)
  if ← keyAt node insert key then throw .duplicateKey
  let node ← makeRoom node path key value
  let insert ← orPanic (binarySearchKeys node key true)
  if ← keyAt node insert key then throw .duplicateKey
  if leafTooFull node (entrySize key value) then throw .entryTooLarge
  let _ ← update node (·.insertLeafEntry key value insert)
  unpinPage node.pageID true

/-! ### Deletion -/

inductive Side
  | left
  | right
deriving DecidableEq, Repr

/-- What rebalancing does with an underfull node: take an entry from a
sibling, or merge with it. -/
inductive Action
  | borrow (side : Side)
  | merge (side : Side)
deriving DecidableEq, Repr

/-- The sibling whose page an action changes. -/
def Action.side : Action → Side
  | borrow side => side
  | merge side => side

/-- What the choice of an action knows about a sibling: the bytes it uses,
the bytes it would give away, and the bytes of the merged page. -/
structure Sibling where
  live : Nat
  lend : Nat
  join : Option Nat

/-- The sibling stays half full when it gives an entry away. -/
def canLend (sibling : Option Sibling) : Bool :=
  sibling.any fun s => decide (PageSize / 2 ≤ s.live - s.lend)

/-- The merged page exists. -/
def mergeFits : Option Sibling → Option Bool
  | none => some false
  | some s => do return decide ((← s.join) ≤ PageSize)

def liveBytes (sibling : Option Sibling) : Nat := sibling.elim 0 Sibling.live

/-- The action the code chooses; `forced` says from whom to borrow when
nobody can lend and no merge fits. -/
def chooseAction (forced : Option Sibling → Option Sibling → Side)
    (left right : Option Sibling) : Option Action :=
  if canLend left || canLend right then
    if canLend right && (!canLend left || decide (liveBytes left < liveBytes right)) then
      some (.borrow .right)
    else some (.borrow .left)
  else do
    let mergeLeftFits ← mergeFits left
    let mergeRightFits ← mergeFits right
    if mergeLeftFits then return .merge .left
    else if mergeRightFits then return .merge .right
    else return .borrow (forced left right)

/-- The last case of the choice in `rebalanceLeaf`. -/
def forcedLeaf (left right : Option Sibling) : Side :=
  if left.isSome && (right.isNone || decide (liveBytes right ≤ liveBytes left)) then .left
  else .right

/-- The last case of the choice in `rebalanceInternal`. -/
def forcedInternal (left right : Option Sibling) : Side :=
  if right.isSome && (left.isNone || decide (liveBytes left ≤ liveBytes right)) then .right
  else .left

/-- The child at position `i`, if there is to be one. -/
def fetchSibling (present : Bool) (parent : Node) (i : Nat) : TreeM (Option Node) := do
  if present then return some (← fetchNode (← orPanic (parent.childPageID i)))
  else return none

def unpinSibling (sibling : Option Node) (dirty : Bool) : TreeM Unit :=
  match sibling with
  | none => pure ()
  | some n => unpinPage n.pageID dirty

/-- A node that must be there: the code follows the pointer without
looking. -/
def deref (sibling : Option Node) : TreeM Node := orPanic sibling

/-- What a sibling leaf has to offer; `i` is the entry it would lend. -/
def leafSibling (leaf : Node) (sibling : Option Node) (i : Node → Nat) : Option (Option Sibling) :=
  match sibling with
  | none => some none
  | some n => do
      let lend := (← n.leafKey (i n)).length + (← n.leafValue (i n)).length + 8
      let live ← n.leafLiveBytes
      return some ⟨live, lend, some ((← leaf.leafLiveBytes) + live - slotStart)⟩

/-- The index of the last entry, in the sixteen bits of the key count. -/
def lastSlot (n : Node) : Nat := (n.keyCount + word - 1) % word

/-- Reading the last entry. -/
def lastEntry (n : Node) : Option Unit := do
  let _ ← n.leafKey (lastSlot n)
  let _ ← n.leafValue (lastSlot n)

/-- The end of both rebalancing procedures, after a merge has taken a
separator out of the parent. -/
def afterMerge (parent : Node) (path : List Nat) (rebalance : TreeM Unit) : TreeM Unit := do
  if path.isEmpty then
    if parent.keyCount = 0 then
      set (BTree.mk (← orPanic (parent.childPageID 0)))
      freePage parent.pageID
  else if (← orPanic parent.internalLiveBytes) < PageSize / 2 then rebalance

/-- What `rebalanceLeaf` does once it has chosen. -/
def applyLeaf (leaf parent : Node) (childIndex : Nat) (left right : Option Node)
    (path : List Nat) (rebalance : Node → TreeM Unit) : Action → TreeM Unit
  | .borrow .right => do
      let right ← deref right
      let bufferKey ← orPanic (right.leafKey 0)
      let bufferValue ← orPanic (right.leafValue 0)
      let leaf ← update leaf Node.compactLeaf
      let right ← update right (·.deleteLeafEntry 0)
      let _ ← update leaf (·.insertLeafEntry bufferKey bufferValue leaf.keyCount)
      let separator ← orPanic (right.leafKey 0)
      let _ ← update parent (·.replaceInternalKey childIndex separator)
  | .borrow .left => do
      let left ← deref left
      let bufferKey ← orPanic (left.leafKey (lastSlot left))
      let bufferValue ← orPanic (left.leafValue (lastSlot left))
      let leaf ← update leaf Node.compactLeaf
      let _ ← update left (·.deleteLeafEntry (lastSlot left))
      let _ ← update leaf (·.insertLeafEntry bufferKey bufferValue 0)
      let _ ← update parent (·.replaceInternalKey (childIndex - 1) bufferKey)
  | .merge .left => do
      let left ← deref left
      let entries := (← orPanic left.leafEntries) ++ (← orPanic leaf.leafEntries)
      let left ← update left (·.rebuildLeaf entries)
      let _ ← update left fun n => some (n.setRightSibling leaf.rightSibling)
      let parent ← update parent (·.deleteInternalEntry (childIndex - 1 : Nat) childIndex)
      freePage leaf.pageID
      afterMerge parent path (rebalance parent)
  | .merge .right => do
      let right ← deref right
      let entries := (← orPanic leaf.leafEntries) ++ (← orPanic right.leafEntries)
      let leaf ← update leaf (·.rebuildLeaf entries)
      let _ ← update leaf fun n => some (n.setRightSibling right.rightSibling)
      let parent ← update parent (·.deleteInternalEntry childIndex (childIndex + 1))
      freePage right.pageID
      afterMerge parent path (rebalance parent)

/-- What a sibling of an internal node has to offer: `boundary` is the
index of the separator it would lend, `separator` the one between it and
the node. -/
def internalSibling (node parent : Node) (separator : Nat) (sibling : Option Node)
    (boundary : Node → Int) : Option (Option Sibling) :=
  match sibling with
  | none => some none
  | some n => do
      let lend := (← n.internalKey (boundary n)).length + 8
      let live ← n.internalLiveBytes
      return some ⟨live, lend, do
        return live + (← node.internalLiveBytes) + (← parent.internalKey separator).length - 1⟩

/-- The index of the last separator, `-1` if there is none. -/
def lastKey (n : Node) : Int := n.keyCount - 1

/-- What `rebalanceInternal` does once it has chosen. -/
def applyInternal (node parent : Node) (childIndex : Nat) (left right : Option Node)
    (path : List Nat) (rebalance : Node → TreeM Unit) : Action → TreeM Unit
  | .borrow .right => do
      let right ← deref right
      let separator ← orPanic (parent.internalKey childIndex)
      let ascending ← orPanic (right.internalKey 0)
      let movedChild ← orPanic (right.childPageID 0)
      let keys := (← orPanic node.internalKeys) ++ [separator]
      let children := (← orPanic node.children) ++ [movedChild]
      let _ ← update node (·.rebuildInternal keys children)
      let _ ← update parent (·.replaceInternalKey childIndex ascending)
      let _ ← update right (·.deleteInternalEntry 0 0)
  | .borrow .left => do
      let left ← deref left
      let separator ← orPanic (parent.internalKey (childIndex - 1 : Nat))
      let ascending ← orPanic (left.internalKey (lastKey left))
      let movedChild ← orPanic (left.childPageID left.keyCount)
      let keys := separator :: (← orPanic node.internalKeys)
      let children := movedChild :: (← orPanic node.children)
      let _ ← update node (·.rebuildInternal keys children)
      let _ ← update parent (·.replaceInternalKey (childIndex - 1) ascending)
      let _ ← update left (·.deleteInternalEntry (lastKey left) left.keyCount)
  | .merge .left => do
      let left ← deref left
      let separator ← orPanic (parent.internalKey (childIndex - 1 : Nat))
      let keys := (← orPanic left.internalKeys) ++ separator :: (← orPanic node.internalKeys)
      let children := (← orPanic left.children) ++ (← orPanic node.children)
      let _ ← update left (·.rebuildInternal keys children)
      let parent ← update parent (·.deleteInternalEntry (childIndex - 1 : Nat) childIndex)
      freePage node.pageID
      afterMerge parent path (rebalance parent)
  | .merge .right => do
      let right ← deref right
      let separator ← orPanic (parent.internalKey childIndex)
      let keys := (← orPanic node.internalKeys) ++ separator :: (← orPanic right.internalKeys)
      let children := (← orPanic node.children) ++ (← orPanic right.children)
      let _ ← update node (·.rebuildInternal keys children)
      let parent ← update parent (·.deleteInternalEntry childIndex (childIndex + 1))
      freePage right.pageID
      afterMerge parent path (rebalance parent)

/-- What both rebalancing procedures do around their choice and its
execution: fetch the parent and the siblings, and unpin all of them on the
way out. `probe` is what is read from the left sibling before the right
one is fetched. -/
def withSiblings (parentID : Nat) (key : Bytes) (probe : Node → Option Unit)
    (body : Node → Nat → Option Node → Option Node → TreeM (Except Err Unit × Option Side)) :
    TreeM Unit := do
  let parent ← fetchNode parentID
  Proc.defer (unpinPage parentID true) do
    let childIndex ← orPanic (binarySearchKeys parent key false)
    let left ← fetchSibling (0 < childIndex) parent (childIndex - 1)
    orPanic (left.elim (some ()) probe)
    let right ← Proc.onError (fetchSibling (childIndex < parent.keyCount) parent (childIndex + 1))
      (unpinSibling left false)
    let (result, dirty) ← body parent childIndex left right
    unpinSibling right (dirty == some .right)
    unpinSibling left (dirty == some .left)
    Proc.ofExcept result

/-- `rebalanceInternal`. -/
def rebalanceInternal (key : Bytes) : List Nat → Node → TreeM Unit
  | [], _ => throw .panic
  | parentID :: path, node =>
    withSiblings parentID key (fun _ => some ()) fun parent childIndex left right => do
      if left.isNone && right.isNone then return (.ok (), none)
      let leftSibling ← orPanic (internalSibling node parent (childIndex - 1) left lastKey)
      let rightSibling ← orPanic (internalSibling node parent childIndex right fun _ => 0)
      let action ← orPanic (chooseAction forcedInternal leftSibling rightSibling)
      let result ← Proc.attempt
        (applyInternal node parent childIndex left right path (rebalanceInternal key path) action)
      return (result, some action.side)

/-- `rebalanceLeaf`. -/
def rebalanceLeaf (leaf : Node) (key : Bytes) : List Nat → TreeM Unit
  | [] => throw .panic
  | parentID :: path =>
    withSiblings parentID key lastEntry fun parent childIndex left right => do
      let leftSibling ← orPanic (leafSibling leaf left lastSlot)
      let rightSibling ← orPanic (leafSibling leaf right fun _ => 0)
      let action ← orPanic (chooseAction forcedLeaf leftSibling rightSibling)
      let result ← Proc.attempt
        (applyLeaf leaf parent childIndex left right path (rebalanceInternal key path) action)
      return (result, some action.side)

/-- The leaf needs no rebalancing: it is the root, or at least half
full. -/
def filled (node : Node) (path : List Nat) : TreeM Bool := do
  if path.isEmpty then return true
  else return decide (PageSize / 2 ≤ (← orPanic node.leafLiveBytes))

/-- `Delete`. -/
def delete (key : Bytes) : TreeM Unit := do
  let (leafPageID, path) ← findLeaf key
  let node ← fetchNode leafPageID
  let insert ← orPanic (binarySearchKeys node key true)
  if !(← keyAt node insert key) then
    unpinPage leafPageID false
    throw .notFound
  let node ← update node (·.deleteLeafEntry insert)
  if ← filled node path then unpinPage node.pageID true
  else
    let result ← Proc.attempt (rebalanceLeaf node key path)
    unpinPage leafPageID true
    Proc.ofExcept result

end BTree

/-! ### Iteration -/

/-- `leafIterator`. -/
structure LeafIterator where
  pageID : Nat
  slot : Nat
  «end» : Option Bytes
  node : Node
  closed : Bool

/-- `Scan`. The start and end are missing where the source has `nil`. -/
def BTree.scan (start stop : Option Bytes) : TreeM LeafIterator := do
  let (startID, _) ← findLeaf (start.getD [])
  let startNode ← fetchNode startID
  let slot ←
    match start with
    | none => pure 0
    | some key => orPanic (binarySearchKeys startNode key true)
  return ⟨startID, slot, stop, startNode, false⟩

namespace LeafIterator

/-- A procedure of the iterator. -/
abbrev IterM (α : Type) : Type := Proc DataI LeafIterator Err α

/-- `Close`. -/
def close : IterM Unit := do
  let it ← get
  if it.closed then return
  unpinPage it.pageID false
  set { it with closed := true }

/-- The loop of `Next` that leaves exhausted leaves; `false` at the end of
the chain. -/
def skipExhausted : Nat → IterM Bool
  | 0 => throw .panic
  | fuel + 1 => do
      let it ← get
      if it.slot < it.node.keyCount then return true
      let next := it.node.rightSibling
      if next = 0 then return false
      let newNode ← fetchNode next
      unpinPage it.pageID false
      set { it with node := newNode, pageID := next, slot := 0 }
      skipExhausted fuel

/-- `Next`; `none` is `io.EOF`. -/
def next : IterM (Option (Bytes × Bytes)) := do
  if (← get).closed then return none
  if ← skipExhausted pageNumbers then
    let it ← get
    let keyCurr ← orPanic (it.node.leafKey it.slot)
    let valueCurr ← orPanic (it.node.leafValue it.slot)
    if it.end.any fun stop => compareBytes keyCurr stop != .lt then
      close
      return none
    set { it with slot := it.slot + 1 }
    return some (keyCurr, valueCurr)
  else
    close
    return none

end LeafIterator

end MySQLight.Storage
