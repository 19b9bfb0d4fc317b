import MockOS.Lib.DoublyLinked
import MockOS.Proc.ShellMemory

namespace MockOS.Proc

/-- The nodes below `nextNode` are those that `malloc` gave out; the fields of a new node hold what was there before. -/
structure NodeHeap (Data : Type) where
  nextNode : Nat
  data : Nat → Data
  next : Nat → Option Nat
  prev : Nat → Option Nat

/-- Memory does not run out: `malloc` never fails and `size` never outgrows an `int`. -/
structure LinkedList (Data : Type) where
  size : Int
  dummyHead : Nat
  dummyTail : Nat
  equal : Data → Data → Bool

variable {Data : Type}

namespace NodeHeap

def malloc (heap : NodeHeap Data) : Nat × NodeHeap Data := (heap.nextNode, { heap with nextNode := heap.nextNode + 1 })

/-- A null pointer and one that `malloc` did not give out cannot be followed. -/
def deref (heap : NodeHeap Data) (pointer : Option Nat) : Outcome Nat :=
  match pointer with
  | none => .error .undefined
  | some node => if node < heap.nextNode then .ok node else .error .undefined

/-- `pointer->data = value`. -/
def setData (pointer : Option Nat) (value : Data) (heap : NodeHeap Data) : Outcome (NodeHeap Data) := do
  let node ← heap.deref pointer
  .ok { heap with data := Function.update heap.data node value }

/-- `pointer->next = link`. -/
def setNext (pointer link : Option Nat) (heap : NodeHeap Data) : Outcome (NodeHeap Data) := do
  let node ← heap.deref pointer
  .ok { heap with next := Function.update heap.next node link }

/-- `pointer->prev = link`. -/
def setPrev (pointer link : Option Nat) (heap : NodeHeap Data) : Outcome (NodeHeap Data) := do
  let node ← heap.deref pointer
  .ok { heap with prev := Function.update heap.prev node link }

end NodeHeap

namespace LinkedList

def listInit (equal : Data → Data → Bool) (heap : NodeHeap Data) : Outcome (LinkedList Data × NodeHeap Data) := do
  let (dummyHead, heap) := heap.malloc
  let (dummyTail, heap) := heap.malloc
  let heap ← heap.setNext (some dummyTail) none
  let heap ← heap.setNext (some dummyHead) (some dummyTail)
  let heap ← heap.setPrev (some dummyTail) (some dummyHead)
  .ok (⟨0, dummyHead, dummyTail, equal⟩, heap)

def listClear (list : LinkedList Data) (heap : NodeHeap Data) : Outcome (LinkedList Data × NodeHeap Data) := do
  let heap ← heap.setNext (some list.dummyHead) (some list.dummyTail)
  let heap ← heap.setPrev (some list.dummyTail) (some list.dummyHead)
  .ok ({ list with size := 0 }, heap)

def addTail (data : Data) (list : LinkedList Data) (heap : NodeHeap Data) :
    Outcome (Int × LinkedList Data × NodeHeap Data) := do
  let (newNode, heap) := heap.malloc
  let oldTail := heap.prev (← heap.deref (some list.dummyTail))
  let heap ← heap.setData (some newNode) data
  let heap ← heap.setNext oldTail (some newNode)
  let heap ← heap.setPrev (some newNode) oldTail
  let heap ← heap.setNext (some newNode) (some list.dummyTail)
  let heap ← heap.setPrev (some list.dummyTail) (some newNode)
  .ok (0, { list with size := list.size + 1 }, heap)

def addHead (data : Data) (list : LinkedList Data) (heap : NodeHeap Data) :
    Outcome (Int × LinkedList Data × NodeHeap Data) := do
  let (newNode, heap) := heap.malloc
  let oldHead := heap.next (← heap.deref (some list.dummyHead))
  let heap ← heap.setData (some newNode) data
  let heap ← heap.setPrev oldHead (some newNode)
  let heap ← heap.setNext (some newNode) oldHead
  let heap ← heap.setPrev (some newNode) (some list.dummyHead)
  let heap ← heap.setNext (some list.dummyHead) (some newNode)
  .ok (0, { list with size := list.size + 1 }, heap)

/-- The end of `pop_head`, `pop_tail` and `remove_elem`; the node is not freed. -/
def unlink (toBeDeleted : Option Nat) (list : LinkedList Data) (heap : NodeHeap Data) :
    Outcome (Data × LinkedList Data × NodeHeap Data) := do
  let node ← heap.deref toBeDeleted
  let heap ← heap.setNext (heap.prev node) (heap.next node)
  let heap ← heap.setPrev (heap.next node) (heap.prev node)
  .ok (heap.data node, { list with size := list.size - 1 }, heap)

def popHead (list : LinkedList Data) (heap : NodeHeap Data) : Outcome (Data × LinkedList Data × NodeHeap Data) :=
  if list.size ≤ 0 then .error (.exit 99)
  else do
    let toBeDeleted := heap.next (← heap.deref (some list.dummyHead))
    list.unlink toBeDeleted heap

def popTail (list : LinkedList Data) (heap : NodeHeap Data) : Outcome (Data × LinkedList Data × NodeHeap Data) :=
  if list.size ≤ 0 then .error (.exit 99)
  else do
    let toBeDeleted := heap.prev (← heap.deref (some list.dummyTail))
    list.unlink toBeDeleted heap

/-- The search stops at a null pointer or at a node with the value. -/
def found (list : LinkedList Data) (targetData : Data) (heap : NodeHeap Data) (curr : Option Nat) : Bool :=
  curr.all fun node => decide (node < heap.nextNode) && list.equal targetData (heap.data node)

/-- After as many rounds as there are nodes the search goes round in a circle for ever. -/
def getNodeByValue (list : LinkedList Data) (targetData : Data) (heap : NodeHeap Data) : Outcome (Option Nat) := do
  let curr := heap.next (← heap.deref (some list.dummyHead))
  match ← Lib.loop (list.found targetData heap) (fun curr => do .ok (heap.next (← heap.deref curr))) heap.nextNode curr with
  | some curr => .ok curr
  | none => .error .undefined

def removeElem (dataToDel : Data) (list : LinkedList Data) (heap : NodeHeap Data) :
    Outcome (Data × LinkedList Data × NodeHeap Data) := do
  let toBeDeleted ← list.getNodeByValue dataToDel heap
  list.unlink toBeDeleted heap

end LinkedList

end MockOS.Proc
