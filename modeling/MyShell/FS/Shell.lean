import MyShell.FS.Filesys

/-! fsutil.c and the file commands of interpreter.c, on open files that stay in the file
table. What is printed is left out, apart from the bytes that `fsutil_cat` dumps. -/
namespace MyShell.FS
open BlockProgram

/-- How the functions of fsutil.c start: they take the handle that the table has for the
name, or open the file and put it there. -/
def tableFile (fileName : CString) : FsM (Option Nat) := do
  let known ← getFileByFname fileName
  match known with
  | some file => pure (some file)
  | none => do
    let opened ← filesysOpen fileName
    match opened with
    | none => pure none
    | some file => do
      addToFileTable file fileName
      pure (some file)

/-- The passes of the loop of `fsutil_cat`: what it dumps, with the position it starts at. -/
def catLoop (file : Nat) (fileSize : Int) : Nat → FsM (List (Int × List Byte))
  | 0 => pure []
  | fuel+1 => do
    let pos ← fileTell file
    let bytes ← fileRead file fileSize
    if bytes.length = 0 then pure []
    else do
      let rest ← catLoop file fileSize fuel
      pure ((pos,bytes) :: rest)

/-- Every pass of the loop but the last one delivers a byte. -/
def catFile (file : Nat) : FsM (List (Int × List Byte)) := do
  let curOffset ← fileTell file
  fileSeek file 0
  let fileSize ← fileLength file
  let dumps ← catLoop file fileSize (fileSize.toNat + 1)
  fileSeek file curOffset
  pure dumps

def fsutilCat (fileName : CString) : FsM (Int × List (Int × List Byte)) := do
  let known ← getFileByFname fileName
  let found ← tableFile fileName
  match found with
  | none => pure (-1,[])
  | some file => do
    let dumps ← catFile file
    if known.isNone then do
      let _ ← removeFromFileTable fileName
      pure (0,dumps)
    else pure (0,dumps)

def fsutilRm (fileName : CString) : FsM Bool := do
  let _ ← removeFromFileTable fileName
  filesysRemove fileName

/-- The size goes from `unsigned` to `offset_t`. -/
def fsutilWrite (fileName : CString) (buffer : List Byte) (size : Nat) : FsM Int := do
  let found ← tableFile fileName
  match found with
  | none => pure (-1)
  | some file => fileWrite file buffer (i32 size)

/-- The bytes read; a null pointer stands for the result -1. -/
def fsutilRead (fileName : CString) (size : Int) : FsM (Option (List Byte)) := do
  let found ← tableFile fileName
  match found with
  | none => pure none
  | some file => do
    let bytes ← fileRead file size
    pure (some bytes)

def fsutilSize (fileName : CString) : FsM Int := do
  let found ← tableFile fileName
  match found with
  | none => pure (-1)
  | some file => do
    let curOffset ← fileTell file
    let length ← fileLength file
    fileSeek file curOffset
    pure length

def fsutilSeek (fileName : CString) (offset : Int) : FsM Int := do
  let found ← tableFile fileName
  match found with
  | none => pure (-1)
  | some file => do
    fileSeek file offset
    pure 0

def isSpace (b : Byte) : Bool := b == 32 || (9 ≤ b && b ≤ 13)

def digitsValue (bytes : List Byte) : Nat :=
  (bytes.takeWhile fun b => 48 ≤ b && b ≤ 57).foldl (fun n b => 10*n + (b.toNat - 48)) 0

/-- `strtol` for the `int` that `atoi` makes of it: it clips to a `long`. -/
def clipLong (x : Int) : Int := i32 (max (-9223372036854775808) (min x 9223372036854775807))

def atoi (s : CString) : Int :=
  match s.chars.dropWhile isSpace with
  | 45 :: rest => clipLong (-digitsValue rest)
  | 43 :: rest => clipLong (digitsValue rest)
  | rest => clipLong (digitsValue rest)

/-- The buffer that the command `write` fills: each word and a blank after it, the last
blank replaced by a null byte, and one null byte more. -/
def writeBuffer (words : List CString) : List Byte :=
  let text := words.flatMap fun word => word.chars ++ [32]
  text.set (text.length - 1) 0 ++ [0]

/-- `size` of the command `write`, for a line of `words.length + 2` words. -/
def writeSize (words : List CString) : Nat := (words.map strlen).sum + (words.length + 1)

def writeWords (fileName : CString) (words : List CString) : FsM Int :=
  fsutilWrite fileName (writeBuffer words) (writeSize words)

/-- Codes of `enum Error` that the file commands return. -/
def fileDoesNotExist : Int := 0
def tooFewTokens : Int := 5
def fileWriteError : Int := 11
def fileReadError : Int := 12

/-- MAX_USER_INPUT of shell.c. -/
abbrev maxUserInput : Nat := 1000

/-- The commands on a file, with the words after the name of the file. The words come from
one line of input, which the bytes to write are no longer than. -/
inductive FileCommand where
  | write (fileName : CString) (words : List CString) (line : writeSize words ≤ maxUserInput)
  | read (fileName size : CString)
  | seek (fileName offset : CString)
  | size (fileName : CString)
  | cat (fileName : CString)

/-- What `interpreter` returns for the command. -/
def FileCommand.task : FileCommand → FsM Int
  | .write fileName words _ =>
    if words.length = 0 then pure tooFewTokens
    else do
      let bytesWritten ← writeWords fileName words
      if bytesWritten = -1 then pure fileWriteError else pure 0
  | .read fileName count => do
    let bytes ← fsutilRead fileName (atoi count)
    match bytes with
    | none => pure fileReadError
    | some bytes => pure (if bytes.length = atoi count then 1 else 0)
  | .seek fileName offset => do
    let status ← fsutilSeek fileName (atoi offset)
    if status = -1 then pure fileDoesNotExist else pure 0
  | .size fileName => do
    let length ← fsutilSize fileName
    if length = -1 then pure fileDoesNotExist else pure 0
  | .cat fileName => do
    let _ ← fsutilCat fileName
    pure 0

def FileCommand.fileName : FileCommand → CString
  | .write fileName _ _ => fileName
  | .read fileName _ => fileName
  | .seek fileName _ => fileName
  | .size fileName => fileName
  | .cat fileName => fileName

end MyShell.FS
