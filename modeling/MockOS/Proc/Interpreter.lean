import MockOS.Proc.Scheduler

namespace MockOS.Proc

/-- `enum Error`. -/
inductive ErrorCode where
  | noError | fileDoesNotExist | noMemSpace | readyQueueFull | schedulingError | tooManyTokens | tooFewTokens
  | nonAlphanumericToken | badCommand | errorRm | fileCreationError | filesystemError | fileWriteError | fileReadError
  deriving DecidableEq

/-- `handle_error` prints a message and returns its argument. -/
def handleError (code : ErrorCode) : Int := code.ctorIdx

/-- The file commands of the shell, each with the value that its function under `fs` returns. -/
structure FileCommands (World : Type) where
  ls : World → Int × World
  cat : CString → World → Int × World
  rm : CString → World → Int × World
  create : CString → Int → World → Int × World
  write : CString → List UInt8 → World → Int × World
  read : CString → Int → World → Int × World
  size : CString → World → Int × World
  seek : CString → Int → World → Int × World
  copyIn : CString → World → Int × World
  copyOut : CString → World → Int × World
  findFile : CString → World → World
  freespace : World → World
  fragmentationDegree : World → World
  defragment : World → World
  recover : Int → World → World

def isAlphaNumByte (byte : UInt8) : Bool := (Char.ofNat byte.toNat).isAlphanum && byte < 128

def isAlphaNumStr (str : CString) : Bool := !str.isEmpty && str.all isAlphaNumByte

/-- The decimal number at the start of a string, zero if there is none. -/
def atoi (str : CString) : Int :=
  let digits := fun str : CString =>
    ((str.takeWhile fun byte => 48 ≤ byte && byte ≤ 57).foldl (fun total byte => 10 * total + (byte.toNat - 48)) 0 : Nat)
  match str.dropWhile fun byte => byte == 32 || (9 ≤ byte && byte ≤ 13) with
  | 45 :: rest => - (digits rest : Int)
  | 43 :: rest => digits rest
  | rest => digits rest

/-- The arguments joined with spaces, as `set`, `write` and `find_file` do it. -/
def joined (args : List CString) : CString := [32].intercalate args

/-- The bytes before the first carriage return or newline. -/
def stripped (arg : CString) : CString := arg.takeWhile fun byte => byte ≠ 13 && byte ≠ 10

def command (name : List Char) : CString := .ofChars name

variable {World : Type}

/-- `interpreter` on commands that run no script; `none` stands for `quit`, `run`, `exec` and a missing argument. -/
def interpreter (files : FileCommands World) (args : List CString) (world : World) : Option (ParseResult World) :=
  let done := fun ret : Int => some ⟨ret, [], world⟩
  let fail := fun code => done (handleError code)
  -- the status of a file command, with the value that means failure
  let check := fun (result : Int × World) (failure : Int) (code : ErrorCode) =>
    some (if result.1 = failure then ⟨handleError code, [], result.2⟩ else ⟨0, [], result.2⟩ : ParseResult World)
  match args.map stripped with
  | [] => fail .tooFewTokens
  | name :: rest =>
      if name = command ['h', 'e', 'l', 'p'] then
        if rest.length > 0 then fail .tooManyTokens else done 0
      else if name = command ['q', 'u', 'i', 't'] ∨ name = command ['e', 'x', 'i', 't'] then
        if rest.length > 0 then fail .tooManyTokens else none
      else if name = command ['s', 'e', 't'] then
        match rest with
        | var :: value :: values =>
            if !isAlphaNumStr var then fail .nonAlphanumericToken
            else if !(value :: values).all isAlphaNumStr then fail .nonAlphanumericToken
            else some ⟨0, [.set var (joined (value :: values))], world⟩
        | _ => fail .tooFewTokens
      else if name = command ['p', 'r', 'i', 'n', 't'] then
        match rest with
        | [] => fail .tooFewTokens
        | [_] => done 0
        | _ => fail .tooManyTokens
      else if name = command ['r', 'u', 'n'] then
        match rest with
        | [] => fail .tooFewTokens
        | [_] => none
        | _ => fail .tooManyTokens
      else if name = command ['e', 'c', 'h', 'o'] then
        match rest with
        | [] => none
        | [var] =>
            if var.head? = some 36 then
              if var.tail.all isAlphaNumByte then done 0 else fail .nonAlphanumericToken
            else if isAlphaNumStr var then done 0 else fail .nonAlphanumericToken
        | _ => fail .tooManyTokens
      else if name = command ['e', 'x', 'e', 'c'] then
        if rest.length < 1 then fail .tooFewTokens else if rest.length > 4 then fail .tooManyTokens else none
      else if name = command ['r', 'e', 's', 'e', 't', 'm', 'e', 'm'] then some ⟨0, [.resetmem], world⟩
      else if name = command ['l', 's'] then
        if rest.length > 0 then fail .tooManyTokens else check (files.ls world) 1 .filesystemError
      else if name = command ['c', 'a', 't'] then
        match rest with
        | [file] => check (files.cat file world) 1 .fileDoesNotExist
        | _ => fail .tooManyTokens
      else if name = command ['r', 'm'] then
        match rest with
        | [file] =>
            -- a status other than zero is returned as it is
            let (status, world) := files.rm file world
            some ⟨if status = 0 then handleError .errorRm else status, [], world⟩
        | _ => fail .tooManyTokens
      else if name = command ['c', 'r', 'e', 'a', 't', 'e'] then
        match rest with
        | [file, size] => check (files.create file (atoi size) world) 0 .fileCreationError
        | _ => fail .tooManyTokens
      else if name = command ['w', 'r', 'i', 't', 'e'] then
        match rest with
        | file :: text :: texts =>
            -- the buffer is one byte longer than the text and its terminator
            check (files.write file (joined (text :: texts) ++ [0, 0]) world) (-1) .fileWriteError
        | _ => fail .tooFewTokens
      else if name = command ['f', 'i', 'n', 'd', '_', 'f', 'i', 'l', 'e'] then
        if rest.length < 1 then fail .tooFewTokens else some ⟨0, [], files.findFile (joined rest) world⟩
      else if name = command ['r', 'e', 'a', 'd'] then
        match rest with
        | [file, size] =>
            let (bytesRead, world) := files.read file (atoi size) world
            some ⟨if bytesRead = -1 then handleError .fileReadError else if bytesRead = atoi size then 1 else 0, [], world⟩
        | _ => fail .tooManyTokens
      else if name = command ['c', 'o', 'p', 'y', '_', 'i', 'n'] then
        match rest with
        | [file] =>
            let (status, world) := files.copyIn file world
            some ⟨status, [], world⟩
        | _ => fail .tooManyTokens
      else if name = command ['c', 'o', 'p', 'y', '_', 'o', 'u', 't'] then
        match rest with
        | [file] =>
            let (status, world) := files.copyOut file world
            some ⟨status, [], world⟩
        | _ => fail .tooManyTokens
      else if name = command ['s', 'i', 'z', 'e'] then
        match rest with
        | [file] => check (files.size file world) (-1) .fileDoesNotExist
        | _ => fail .tooManyTokens
      else if name = command ['s', 'e', 'e', 'k'] then
        match rest with
        | [file, offset] => check (files.seek file (atoi offset) world) (-1) .fileDoesNotExist
        | _ => fail .tooManyTokens
      else if name = command ['f', 'r', 'e', 'e', 's', 'p', 'a', 'c', 'e'] then
        if rest.length ≠ 0 then fail .tooManyTokens else some ⟨0, [], files.freespace world⟩
      else if name = command ['f', 'r', 'a', 'g', 'm', 'e', 'n', 't', 'a', 't', 'i', 'o', 'n', '_', 'd', 'e', 'g', 'r', 'e', 'e'] then
        if rest.length ≠ 0 then fail .tooManyTokens else some ⟨0, [], files.fragmentationDegree world⟩
      else if name = command ['d', 'e', 'f', 'r', 'a', 'g', 'm', 'e', 'n', 't'] then
        if rest.length ≠ 0 then fail .tooManyTokens else some ⟨0, [], files.defragment world⟩
      else if name = command ['r', 'e', 'c', 'o', 'v', 'e', 'r'] then
        match rest with
        | [flag] => some ⟨0, [], files.recover (atoi flag) world⟩
        | _ => fail .tooManyTokens
      else fail .badCommand

/-- The words of a section: each space after a word ends it, so repeated spaces give empty words. -/
def splitWords : CString → CString → List CString
  | [], [] => []
  | word, [] => [word.reverse]
  | word, byte :: rest => if byte = 32 then word.reverse :: splitWords [] rest else splitWords (byte :: word) rest

def words (token : CString) : List CString := splitWords [] (token.dropWhile (· = 32))

/-- `strtok(ui, ";")`: the non-empty pieces between semicolons. -/
def tokens (ui : CString) : List CString := (ui.splitOn 59).filter (· ≠ [])

/-- The sections of a line are run from left to right until one returns -1. -/
def parseSections (interpret : List CString → World → Option (ParseResult World)) :
    List CString → ParseResult World → Option (ParseResult World)
  | [], result => some result
  | token :: rest, result => do
      let next ← interpret (words token) result.world
      let total : ParseResult World := ⟨next.ret, result.commands ++ next.commands, next.world⟩
      if next.ret = -1 then some total else parseSections interpret rest total

def parseInput (files : FileCommands World) (ui : CString) (world : World) : Option (ParseResult World) :=
  parseSections (interpreter files) (tokens ui) ⟨0, [], world⟩

end MockOS.Proc
