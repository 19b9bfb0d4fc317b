import MockOS.Lib.CString
import MockOS.Lib.LinkedList

namespace MockOS.A2

open Lib (Halt whileLoop)

/-- `a++`. -/
def advanceChar (a : Nat) : Except Halt Nat := .ok (a + 1)

/-- `while(ui[a]==' ') a++`. -/
def skipSpaces (fuel : Nat) (ui : CString) (a : Nat) : Except Halt Nat :=
  whileLoop (fun a => !(charAt ui a == 32)) advanceChar fuel a

/-- `for(; ui[a]==' ' && a<1000; a++)`. -/
def skipWhiteSpaces (fuel : Nat) (ui : CString) (a : Nat) : Except Halt Nat :=
  whileLoop (fun a => !(charAt ui a == 32 && decide (a < 1000))) advanceChar fuel a

/-- The characters that end a word. -/
def endsWord (char : UInt8) : Bool := char == 59 || char == 0 || char == 10 || char == 32

/-- `tmp[b] = ui[a]`, where `tmp` is an array of 200 bytes. -/
def copyChar (ui : CString) (state : Nat × CString) : Except Halt (Nat × CString) :=
  if state.2.length < 200 then .ok (state.1 + 1, state.2 ++ [charAt ui state.1]) else .error .undefined

def wordEnded (ui : CString) (state : Nat × CString) : Bool :=
  !(!endsWord (charAt ui state.1) && decide (state.1 < 1000))

/-- The loop that copies a word. -/
def copyWord (fuel : Nat) (ui : CString) (a : Nat) : Except Halt (Nat × CString) :=
  whileLoop (wordEnded ui) (copyChar ui) fuel (a, [])

/-- The variables of `parseInput`; `returned` is the error code it has returned. -/
structure Parsing (World : Type) where
  a : Nat
  words : List CString
  world : World
  returned : Option Int

variable {World : Type}

/-- The outer loop ends. -/
def Parsing.ended (ui : CString) (parsing : Parsing World) : Bool :=
  parsing.returned.isSome || !(decide (parsing.a < 1000) && decide (parsing.a < ui.length) && charAt ui parsing.a != 10 &&
    charAt ui parsing.a != 0)

/-- One round of the outer loop; at the terminator its `break` is left to the condition of the loop. -/
def parseRound (interpreter : List CString → World → Int × World) (fuel : Nat) (ui : CString) (parsing : Parsing World) :
    Except Halt (Parsing World) := do
  let a ← skipSpaces fuel ui parsing.a
  if charAt ui a = 0 then .ok { parsing with a := a }
  else do
    let (a, tmp) ← copyWord fuel ui a
    if 200 ≤ tmp.length then .error .undefined
    else if tmp.length = 0 then .ok { parsing with a := a }
    else if 100 ≤ parsing.words.length then .error .undefined
    else
      let words := parsing.words ++ [tmp]
      if charAt ui a = 59 then
        let (errorCode, world) := interpreter words parsing.world
        if errorCode = -1 then .ok ⟨a, words, world, some errorCode⟩
        else do
          let a ← skipWhiteSpaces fuel ui (a + 1)
          .ok ⟨a, [], world, none⟩
      else .ok ⟨a + 1, words, parsing.world, none⟩

def parseInput (interpreter : List CString → World → Int × World) (fuel : Nat) (ui : CString) (world : World) :
    Except Halt (Int × World) := do
  let a ← skipWhiteSpaces fuel ui 0
  let parsing ← whileLoop (Parsing.ended ui) (parseRound interpreter fuel ui) fuel ⟨a, [], world, none⟩
  match parsing.returned with
  | some errorCode => .ok (errorCode, parsing.world)
  | none => .ok (interpreter parsing.words parsing.world)

/-- The loops stop, without leaving an array, whatever the calls of `interpreter` return. -/
def Stops (ui : CString) : Prop :=
  ∀ (World : Type) (interpreter : List CString → World → Int × World) (world : World),
    ∃ rounds, ∀ fuel ≥ rounds, ∃ result, parseInput interpreter fuel ui world = .ok result

/-- The part of a text that is read: a newline is the end unless it directly ends a word. -/
def readPart : Bool → CString → CString
  | _, [] => []
  | opens, char :: rest =>
      if opens && char == 10 then [] else char :: readPart (char == 32 || char == 59 || char == 10) rest

def isBlank (char : UInt8) : Bool := char == 32 || char == 10

/-- The words between the blanks. -/
def segmentWords (segment : CString) : List CString := (segment.splitOnP isBlank).filter (· ≠ [])

/-- The last character belongs to a word. -/
def EndsInWord (segment : CString) : Prop := ∃ char, segment.getLast? = some char ∧ isBlank char = false

/-- Every semicolon follows a word directly, and the words fit their arrays. -/
def Parsable (ui : CString) : Prop :=
  (∀ segment ∈ ((readPart true ui).splitOn 59).dropLast, EndsInWord segment) ∧
    ∀ segment ∈ (readPart true ui).splitOn 59, (segmentWords segment).length ≤ 100 ∧
      ∀ word ∈ segmentWords segment, word.length < 200

end MockOS.A2
