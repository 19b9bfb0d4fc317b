import MockOS.Lib.LinkedList
import Mathlib.Logic.Function.Basic

namespace MockOS.A2

open Lib (Halt deref advance whileLoop)

/-- What the queue reads and writes of a `PCB`. -/
structure Job where
  priority : Bool
  jobLengthScore : Int
  deriving DecidableEq

/-- `head` with the links of the nodes; every node has a `PCB` of its own. -/
structure ReadyQueue (Node : Type) where
  head : Option Node
  next : Node → Option Node
  pcb : Node → Job

/-- `MAX_INT`. -/
def maxInt : Int := 2147483646

namespace ReadyQueue

variable {Node World : Type} [DecidableEq Node]

def score (queue : ReadyQueue Node) (node : Node) : Int := (queue.pcb node).jobLengthScore

/-- `node->next = link`. -/
def setNext (queue : ReadyQueue Node) (node : Node) (link : Option Node) : ReadyQueue Node :=
  { queue with next := Function.update queue.next node link }

def addToTail (fuel : Nat) (node : Node) (queue : ReadyQueue Node) : Except Halt (ReadyQueue Node) :=
  match queue.head with
  | none => .ok ({ queue with head := some node }.setNext node none)
  | some first => do
      let cur ← whileLoop (fun cur => cur.any fun cur => (queue.next cur).isNone) (advance queue.next) fuel (some first)
      let cur ← deref cur
      .ok ((queue.setNext cur (some node)).setNext node none)

def addToHead (node : Node) (queue : ReadyQueue Node) : ReadyQueue Node :=
  match queue.head with
  | none => { queue with head := some node }.setNext node none
  | some first => { queue.setNext node (some first) with head := some node }

/-- The popped node keeps its link. -/
def popHead (queue : ReadyQueue Node) : Option Node × ReadyQueue Node :=
  (queue.head, { queue with head := queue.head.bind queue.next })

def decrement (cur : Node) (queue : ReadyQueue Node) : ReadyQueue Node :=
  if queue.score cur > 0 then
    { queue with pcb := Function.update queue.pcb cur { queue.pcb cur with jobLengthScore := queue.score cur - 1 } }
  else queue

/-- The loop body of `ready_queue_decrement_job_length_score`, with its cursor. -/
def decrementStep (state : Option Node × ReadyQueue Node) : Except Halt (Option Node × ReadyQueue Node) := do
  let cur ← deref state.1
  .ok (state.2.next cur, state.2.decrement cur)

def decrementJobLengthScore (fuel : Nat) (queue : ReadyQueue Node) : Except Halt (ReadyQueue Node) := do
  let state ← whileLoop (fun state => state.1.isNone) decrementStep fuel (queue.head, queue)
  .ok state.2

/-- The search of `ready_queue_swap_with_next` for the node before `toSwap`, and the swap behind it. -/
def swapBehind (fuel : Nat) (toSwap : Node) (cur : Option Node) (queue : ReadyQueue Node) :
    Except Halt (ReadyQueue Node) := do
  match ← whileLoop (fun cur => cur.all fun cur => queue.next cur = some toSwap) (advance queue.next) fuel cur with
  | none => .ok queue
  | some cur => do
      let found ← deref (queue.next cur)
      let next ← deref (queue.next found)
      let afterNext := queue.next next
      .ok (((queue.setNext cur (some next)).setNext next (some toSwap)).setNext toSwap afterNext)

/-- After a swap of the head the search still starts at the old head. -/
def swapWithNext (fuel : Nat) (toSwap : Node) (queue : ReadyQueue Node) : Except Halt (ReadyQueue Node) := do
  let cur := queue.head
  if queue.head = some toSwap then do
    let next ← deref (queue.next toSwap)
    swapBehind fuel toSwap cur
      { (queue.setNext toSwap (queue.next next)).setNext next (some toSwap) with head := some next }
  else swapBehind fuel toSwap cur queue

/-- The comparison of `swap_needed`. -/
def outOfOrder (cur next : Job) : Bool :=
  if cur.priority && next.priority then
    if cur.jobLengthScore > next.jobLengthScore then true else false
  else if cur.priority && !next.priority then false
  else if !cur.priority && next.priority then true
  else if cur.jobLengthScore > next.jobLengthScore then true else false

def swapNeeded (cur : Node) (queue : ReadyQueue Node) : Bool :=
  match queue.next cur with
  | none => false
  | some next => outOfOrder (queue.pcb cur) (queue.pcb next)

/-- The variables of `sort_ready_queue`. -/
structure Sorting (Node : Type) where
  sorted : Bool
  cur : Node
  queue : ReadyQueue Node

def Sorting.atEnd (sorting : Sorting Node) : Bool := (sorting.queue.next sorting.cur).isNone

/-- The body of the inner loop. -/
def sortStep (fuel : Nat) (sorting : Sorting Node) : Except Halt (Sorting Node) :=
  if sorting.queue.swapNeeded sorting.cur then do
    let queue ← sorting.queue.swapWithNext fuel sorting.cur
    .ok ⟨false, sorting.cur, queue⟩
  else do
    let cur ← deref (sorting.queue.next sorting.cur)
    .ok { sorting with cur := cur }

/-- The cursor is not set back between the passes. -/
def sortPass (fuel : Nat) (sorting : Sorting Node) : Except Halt (Sorting Node) :=
  whileLoop Sorting.atEnd (sortStep fuel) fuel { sorting with sorted := true }

def sortReadyQueue (fuel : Nat) (queue : ReadyQueue Node) : Except Halt (ReadyQueue Node) :=
  match queue.head with
  | none => .ok queue
  | some cur => do
      let sorting ← whileLoop Sorting.sorted (sortPass fuel) fuel ⟨false, cur, queue⟩
      .ok sorting.queue

def popShortestJob (fuel : Nat) (queue : ReadyQueue Node) : Except Halt (Option Node × ReadyQueue Node) := do
  let queue ← queue.sortReadyQueue fuel
  .ok queue.popHead

/-- The loop body of `ready_queue_get_shortest_job_score`, with its cursor. -/
def shortestStep (queue : ReadyQueue Node) (state : Option Node × Int) : Except Halt (Option Node × Int) := do
  let cur ← deref state.1
  .ok (queue.next cur, if queue.score cur < state.2 then queue.score cur else state.2)

def getShortestJobScore (fuel : Nat) (queue : ReadyQueue Node) : Except Halt Int := do
  let state ← whileLoop (fun state => state.1.isNone) (shortestStep queue) fuel (queue.head, maxInt)
  .ok state.2

def promote (fuel : Nat) (score : Int) (queue : ReadyQueue Node) : Except Halt (ReadyQueue Node) := do
  let first ← deref queue.head
  if queue.score first = score then .ok queue
  else do
    let cur ← whileLoop (fun cur => cur.any fun cur => (queue.next cur).all fun next => queue.score next = score)
      (advance queue.next) fuel (some first)
    let cur ← deref cur
    match queue.next cur with
    | none => .ok queue
    | some next =>
        if queue.score next ≠ score then .ok queue
        else .ok { (queue.setNext cur (queue.next next)).setNext next queue.head with head := some next }

/-- What `scheduler_AGING` does before it calls `execute_process`. -/
def agingChoice (fuel : Nat) (queue : ReadyQueue Node) : Except Halt (Node × ReadyQueue Node) := do
  let (cur, queue) := queue.popHead
  let shortest ← queue.getShortestJobScore fuel
  let cur ← deref cur
  let (cur, queue) ← if shortest < queue.score cur then do
      let queue ← queue.promote fuel shortest
      let queue ← queue.addToTail fuel cur
      let (cur, queue) := queue.popHead
      let cur ← deref cur
      .ok (cur, queue)
    else .ok (cur, queue)
  let queue ← queue.decrementJobLengthScore fuel
  .ok (cur, queue)

/-- One iteration of `scheduler_AGING` on a queue that is not empty. -/
def agingTurn (executeProcess : Node → ReadyQueue Node → World → Except Halt (Bool × ReadyQueue Node × World))
    (fuel : Nat) (queue : ReadyQueue Node) (world : World) : Except Halt (ReadyQueue Node × World) := do
  let (cur, queue) ← queue.agingChoice fuel
  let (finished, queue, world) ← executeProcess cur queue world
  if !finished then .ok (queue.addToHead cur, world) else .ok (queue, world)

/-- The queue is this null-terminated list of nodes. -/
def Holds (queue : ReadyQueue Node) (nodes : List Node) : Prop := Lib.Segment queue.next queue.head nodes none

end ReadyQueue
end MockOS.A2
