import MockOS.Lib.NaturalMerge
import MockOS.Lib.Splicing

namespace MockOS.Fs

/-- The list elements by address, and how often `PANIC` printed; a panic returns. -/
structure ListElems where
  prev : Nat → Option Nat
  next : Nat → Option Nat
  panics : Nat

/-- The addresses of the two elements in a `struct list`. -/
structure KernelList where
  head : Nat
  tail : Nat

/-- A step follows pointers, or it is undefined or out of fuel. -/
abbrev ListAction := StateT ListElems (Except Lib.Halt)

abbrev ListLessFunc := Nat → Nat → Bool

namespace ListElems

/-- Returns true if ELEM is a head, false otherwise. -/
def isHead (elems : ListElems) (elem : Option Nat) : Bool :=
  elem.any fun node => (elems.prev node).isNone && (elems.next node).isSome

def isInterior (elems : ListElems) (elem : Option Nat) : Bool :=
  elem.any fun node => (elems.prev node).isSome && (elems.next node).isSome

def isTail (elems : ListElems) (elem : Option Nat) : Bool :=
  elem.any fun node => (elems.prev node).isSome && (elems.next node).isNone

end ListElems

namespace KernelList

/-- `ASSERT`: the program goes on after a panic. -/
def assert (holds : Bool) : ListAction Unit :=
  if holds then pure () else modify fun elems => { elems with panics := elems.panics + 1 }

/-- `elem->prev`. -/
def getPrev (elem : Option Nat) : ListAction (Option Nat) := do
  let node ← liftM (Lib.deref elem)
  pure ((← get).prev node)

/-- `elem->next`. -/
def getNext (elem : Option Nat) : ListAction (Option Nat) := do
  let node ← liftM (Lib.deref elem)
  pure ((← get).next node)

/-- `elem->prev = link`. -/
def setPrev (elem link : Option Nat) : ListAction Unit := do
  let node ← liftM (Lib.deref elem)
  modify fun elems => { elems with prev := Function.update elems.prev node link }

/-- `elem->next = link`. -/
def setNext (elem link : Option Nat) : ListAction Unit := do
  let node ← liftM (Lib.deref elem)
  modify fun elems => { elems with next := Function.update elems.next node link }

/-- `less(a, b, aux)` on elements whose data no list function changes. -/
def callLess (less : ListLessFunc) (a b : Option Nat) : ListAction Bool := do
  pure (less (← liftM (Lib.deref a)) (← liftM (Lib.deref b)))

def listInit (list : KernelList) : ListAction Unit := do
  setPrev (some list.head) none
  setNext (some list.head) (some list.tail)
  setPrev (some list.tail) (some list.head)
  setNext (some list.tail) none

def listBegin (list : KernelList) : ListAction (Option Nat) := getNext (some list.head)

def listNext (elem : Option Nat) : ListAction (Option Nat) := do
  assert ((← get).isHead elem || (← get).isInterior elem)
  getNext elem

def listEnd (list : KernelList) : Option Nat := some list.tail

def listRbegin (list : KernelList) : ListAction (Option Nat) := getPrev (some list.tail)

def listPrev (elem : Option Nat) : ListAction (Option Nat) := do
  assert ((← get).isInterior elem || (← get).isTail elem)
  getPrev elem

def listRend (list : KernelList) : Option Nat := some list.head

def listInsert (before elem : Option Nat) : ListAction Unit := do
  assert ((← get).isInterior before || (← get).isTail before)
  assert elem.isSome
  setPrev elem (← getPrev before)
  setNext elem before
  setNext (← getPrev before) elem
  setPrev before elem

def listSplice (before first last : Option Nat) : ListAction Unit := do
  assert ((← get).isInterior before || (← get).isTail before)
  if first = last then pure ()
  else do
    let last ← listPrev last
    assert ((← get).isInterior first)
    assert ((← get).isInterior last)
    -- the elements leave their list
    setNext (← getPrev first) (← getNext last)
    setPrev (← getNext last) (← getPrev first)
    -- and go into the new one
    setPrev first (← getPrev before)
    setNext last before
    setNext (← getPrev before) first
    setPrev before last

def listPushFront (list : KernelList) (elem : Option Nat) : ListAction Unit := do
  listInsert (← listBegin list) elem

def listPushBack (list : KernelList) (elem : Option Nat) : ListAction Unit := listInsert (listEnd list) elem

def listRemove (elem : Option Nat) : ListAction (Option Nat) := do
  assert ((← get).isInterior elem)
  setNext (← getPrev elem) (← getNext elem)
  setPrev (← getNext elem) (← getPrev elem)
  getNext elem

def listEmpty (list : KernelList) : ListAction Bool := do pure ((← listBegin list) == listEnd list)

def listFront (list : KernelList) : ListAction (Option Nat) := do
  assert (!(← listEmpty list))
  getNext (some list.head)

def listBack (list : KernelList) : ListAction (Option Nat) := do
  assert (!(← listEmpty list))
  getPrev (some list.tail)

def listPopFront (list : KernelList) : ListAction (Option Nat) := do
  let front ← listFront list
  let _ ← listRemove front
  pure front

def listPopBack (list : KernelList) : ListAction (Option Nat) := do
  let back ← listBack list
  let _ ← listRemove back
  pure back

/-- The loop of `list_size` from an element on. -/
def countFrom (list : KernelList) (cnt : Nat) : Nat → Option Nat → ListAction Nat
  | 0, _ => throw .running
  | fuel + 1, e =>
      if e = listEnd list then pure cnt
      else do countFrom list (cnt + 1) fuel (← listNext e)

def listSize (fuel : Nat) (list : KernelList) : ListAction Nat := do countFrom list 0 fuel (← listBegin list)

/-- The loop of `list_reverse`; the element behind is found in the link that was swapped. -/
def swapLinks (list : KernelList) : Nat → Option Nat → ListAction Unit
  | 0, _ => throw .running
  | fuel + 1, e =>
      if e = listEnd list then pure ()
      else do
        let prev ← getPrev e
        setPrev e (← getNext e)
        setNext e prev
        swapLinks list fuel (← getPrev e)

def listReverse (fuel : Nat) (list : KernelList) : ListAction Unit := do
  if ← listEmpty list then pure ()
  else do
    swapLinks list fuel (← listBegin list)
    -- swap(&list->head.next, &list->tail.prev)
    let front ← getNext (some list.head)
    setNext (some list.head) (← getPrev (some list.tail))
    setPrev (some list.tail) front
    -- swap(&list->head.next->prev, &list->tail.prev->next)
    let front ← getNext (some list.head)
    let back ← getPrev (some list.tail)
    let link ← getPrev front
    setPrev front (← getNext back)
    setNext back link

/-- The loop of `is_sorted`: `a` is the last element that was compared. -/
def sortedFrom (less : ListLessFunc) (b : Option Nat) : Nat → Option Nat → ListAction Bool
  | 0, _ => throw .running
  | fuel + 1, a => do
      let a ← listNext a
      if a = b then pure true
      else if ← callLess less a (← listPrev a) then pure false
      else sortedFrom less b fuel a

def isSorted (fuel : Nat) (less : ListLessFunc) (a b : Option Nat) : ListAction Bool :=
  if a = b then pure true else sortedFrom less b fuel a

/-- The loop of `find_end_of_run`. -/
def runFrom (less : ListLessFunc) (b : Option Nat) : Nat → Option Nat → ListAction (Option Nat)
  | 0, _ => throw .running
  | fuel + 1, a => do
      let a ← listNext a
      if a = b then pure a
      else if ← callLess less a (← listPrev a) then pure a
      else runFrom less b fuel a

def findEndOfRun (fuel : Nat) (less : ListLessFunc) (a b : Option Nat) : ListAction (Option Nat) := do
  assert a.isSome
  assert b.isSome
  assert (a ≠ b)
  runFrom less b fuel a

/-- The loop of `inplace_merge`. -/
def mergeFrom (less : ListLessFunc) (b1 : Option Nat) : Nat → Option Nat → Option Nat → ListAction Unit
  | 0, _, _ => throw .running
  | fuel + 1, a0, a1b0 =>
      if a0 = a1b0 ∨ a1b0 = b1 then pure ()
      else do
        if ← callLess less a1b0 a0 then do
          let a1b0 ← listNext a1b0
          listSplice a0 (← listPrev a1b0) a1b0
          mergeFrom less b1 fuel a0 a1b0
        else do mergeFrom less b1 fuel (← listNext a0) a1b0

def inplaceMerge (fuel : Nat) (less : ListLessFunc) (a0 a1b0 b1 : Option Nat) : ListAction Unit := do
  assert a0.isSome
  assert a1b0.isSome
  assert b1.isSome
  assert (← isSorted fuel less a0 a1b0)
  assert (← isSorted fuel less a1b0 b1)
  mergeFrom less b1 fuel a0 a1b0

/-- One pass of `list_sort` from `a0` on: the number of runs that it leaves. -/
def sortPass (inner : Nat) (less : ListLessFunc) (list : KernelList) (outputRunCnt : Nat) : Nat → Option Nat → ListAction Nat
  | 0, _ => throw .running
  | fuel + 1, a0 =>
      if a0 = listEnd list then pure outputRunCnt
      else do
        let a1b0 ← findEndOfRun inner less a0 (listEnd list)
        if a1b0 = listEnd list then pure (outputRunCnt + 1)
        else do
          let b1 ← findEndOfRun inner less a1b0 (listEnd list)
          inplaceMerge inner less a0 a1b0 b1
          sortPass inner less list (outputRunCnt + 1) fuel b1

/-- The passes of `list_sort`. -/
def sortPasses (inner : Nat) (less : ListLessFunc) (list : KernelList) : Nat → ListAction Unit
  | 0 => throw .running
  | fuel + 1 => do
      let outputRunCnt ← sortPass inner less list 0 inner (← listBegin list)
      if outputRunCnt > 1 then sortPasses inner less list fuel else pure ()

/-- Every loop is cut off after the same number of rounds. -/
def listSort (fuel : Nat) (less : ListLessFunc) (list : KernelList) : ListAction Unit := do
  sortPasses fuel less list fuel
  assert (← isSorted fuel less (← listBegin list) (listEnd list))

/-- The loop of `list_insert_ordered`. -/
def placeFrom (less : ListLessFunc) (list : KernelList) (elem : Option Nat) : Nat → Option Nat → ListAction (Option Nat)
  | 0, _ => throw .running
  | fuel + 1, e =>
      if e = listEnd list then pure e
      else do
        if ← callLess less elem e then pure e
        else placeFrom less list elem fuel (← listNext e)

def listInsertOrdered (fuel : Nat) (less : ListLessFunc) (list : KernelList) (elem : Option Nat) : ListAction Unit := do
  assert elem.isSome
  let e ← placeFrom less list elem fuel (← listBegin list)
  listInsert e elem

/-- A removed element is appended to the duplicates if there is a list for them. -/
def pushDuplicate (duplicates : Option KernelList) (next : Option Nat) : ListAction Unit :=
  match duplicates with
  | some duplicates => listPushBack duplicates next
  | none => pure ()

/-- The loop of `list_unique`. -/
def uniqueFrom (less : ListLessFunc) (list : KernelList) (duplicates : Option KernelList) :
    Nat → Option Nat → ListAction Unit
  | 0, _ => throw .running
  | fuel + 1, elem => do
      let next ← listNext elem
      if next = listEnd list then pure ()
      else if ← (do if ← callLess less elem next then pure false else pure (!(← callLess less next elem))) then do
        let _ ← listRemove next
        pushDuplicate duplicates next
        uniqueFrom less list duplicates fuel elem
      else uniqueFrom less list duplicates fuel next

def listUnique (fuel : Nat) (less : ListLessFunc) (list : KernelList) (duplicates : Option KernelList) :
    ListAction Unit := do
  if ← listEmpty list then pure ()
  else do uniqueFrom less list duplicates fuel (← listBegin list)

/-- The loop of `list_max`. -/
def maxFrom (less : ListLessFunc) (list : KernelList) : Nat → Option Nat → Option Nat → ListAction (Option Nat)
  | 0, _, _ => throw .running
  | fuel + 1, max, e =>
      if e = listEnd list then pure max
      else do
        let max := if ← callLess less max e then e else max
        maxFrom less list fuel max (← listNext e)

def listMax (fuel : Nat) (less : ListLessFunc) (list : KernelList) : ListAction (Option Nat) := do
  let max ← listBegin list
  if max = listEnd list then pure max
  else do maxFrom less list fuel max (← listNext max)

/-- The loop of `list_min`. -/
def minFrom (less : ListLessFunc) (list : KernelList) : Nat → Option Nat → Option Nat → ListAction (Option Nat)
  | 0, _, _ => throw .running
  | fuel + 1, min, e =>
      if e = listEnd list then pure min
      else do
        let min := if ← callLess less e min then e else min
        minFrom less list fuel min (← listNext e)

def listMin (fuel : Nat) (less : ListLessFunc) (list : KernelList) : ListAction (Option Nat) := do
  let min ← listBegin list
  if min = listEnd list then pure min
  else do minFrom less list fuel min (← listNext min)

end KernelList

end MockOS.Fs
