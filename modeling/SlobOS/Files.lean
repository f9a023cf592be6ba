import SlobOS.Kernel

/-!
# Files

`fs/pparser.c`, `fs/file.c` and the part of `fs/fat/fat16.c` that opens, reads and closes files, with
the memory that each step takes from the kernel heap and gives back. A string is the list of its
characters before the terminating zero. How the driver finds its way on the disk is left to the
volume.
-/

namespace SlobOS

namespace Kernel

open Faulting

/-! ### `pparser.c` -/

def pathRootSize : Nat := 8
def pathPartSize : Nat := 8

/-- `struct path_part`, with the text that `part` points to. -/
structure PathPart where
  address : Nat
  part : Nat
  text : List UInt8

/-- `struct path_root`, with the parts in its list. -/
structure PathRoot where
  address : Nat
  driveNo : Nat
  parts : List PathPart

def isdigit (c : UInt8) : Bool := 48 ≤ c && c ≤ 57

def tonumericdigit (c : UInt8) : Nat := c.toNat - 48

def slash : UInt8 := 0x2f

def pathparserPathValidFormat (filename : List UInt8) : Bool :=
  match filename with
  | drive :: 0x3a :: 0x2f :: _ => isdigit drive
  | _ => false

/-- The buffer of the next part, or a null pointer if the part is empty or there is no memory, with the
part and the rest of the path. -/
def pathparserGetPathPart (path : List UInt8) : KernelM (Nat × List UInt8 × List UInt8) := do
  let resultPathPart ← kzalloc slobosMaxPath
  let part := path.takeWhile (· != slash)
  let rest := (path.dropWhile (· != slash)).drop 1
  if part = [] then do
    kfree resultPathPart
    pure (0, part, rest)
  else do
    storeTo resultPathPart
    modify (writeBytes resultPathPart part.length fun i => part.getD i 0)
    pure (resultPathPart, part, rest)

def pathparserParsePathPart (path : List UInt8) : KernelM (Option PathPart × List UInt8) := do
  let (pathPartStr, text, rest) ← pathparserGetPathPart path
  if pathPartStr = 0 then pure (none, rest)
  else do
    let part ← kzalloc pathPartSize
    storeTo part
    if part = 0 then pure (none, rest)
    else pure (some { address := part, part := pathPartStr, text := text }, rest)

/-- The parts up to the first one that is empty or finds no memory. Each of them shortens the path, so
`left` does not run out when it exceeds the length. -/
def pathparserParseParts : Nat → List UInt8 → KernelM (List PathPart)
  | 0, _ => pure []
  | left + 1, path => do
      let (part, rest) ← pathparserParsePathPart path
      match part with
      | none => pure []
      | some part => do
          let parts ← pathparserParseParts left rest
          pure (part :: parts)

def pathparserCreateRoot : KernelM Nat := do
  let pathRoot ← kzalloc pathRootSize
  storeTo pathRoot
  pure pathRoot

def pathparserParse (path : List UInt8) : KernelM (Option PathRoot) := do
  if path.length > slobosMaxPath then pure none
  else if !pathparserPathValidFormat path then pure none
  else do
    let pathRoot ← pathparserCreateRoot
    if pathRoot = 0 then pure none
    else do
      let parts ← pathparserParseParts (path.length + 1) (path.drop 3)
      pure (some
        { address := pathRoot, driveNo := tonumericdigit (path.headD 0), parts := parts })

/-! ### `fat16.c` -/

inductive FileMode where
  | read
  | write
  | append
  | invalid
  deriving DecidableEq

def fatFileSubdirectory : UInt8 := 0x10
def fatItemSize : Nat := 8
def fatDirectorySize : Nat := 16
def fatDirectoryItemSize : Nat := 32
def fatFileDescriptorSize : Nat := 8

def tolower (c : UInt8) : UInt8 := if 65 ≤ c && c ≤ 90 then c + 32 else c

/-- `istrncmp(left, right, n) == 0` for strings shorter than `n`. -/
def istrncmpEqual (left right : List UInt8) : Bool := left.map tolower == right.map tolower

/-- What is read is stored at `out`. -/
def fat16ReadInternal (startingCluster offset total : Int) (out : Nat) : KernelM Int := do
  let kernel ← get
  match kernel.volume.readInternal startingCluster offset total with
  | none => throw .divideError
  | some (res, bytes) =>
      if out = 0 ∧ bytes ≠ [] then throw .nullPointer
      else do
        modify (writeBytes out bytes.length fun i => bytes.getD i 0)
        pure res

def fat16FreeDirectory (directory item : Nat) : KernelM Unit := do
  if directory = 0 then pure ()
  else if item = 0 then kfree directory
  else do
    kfree item
    kfree directory

def fat16FatItemFree (item : FatItem) : KernelM Unit := do
  match item.data with
  | .directory directory item _ => fat16FreeDirectory directory item
  | .file item _ => kfree item
  kfree item.address

/-- The directory that is returned may have been freed. -/
def fat16LoadFatDirectory (item : FatDirectoryItem) : KernelM FatItemData := do
  let kernel ← get
  let items := kernel.volume.subdirectory item.firstCluster
  if item.attributes &&& fatFileSubdirectory = 0 then pure (.directory 0 0 [])
  else do
    let directory ← kzalloc fatDirectorySize
    if directory = 0 then pure (.directory 0 0 [])
    else do
      let total := kernel.volume.totalItems item.firstCluster
      let directorySize := (total * fatDirectoryItemSize % addressSpace).toNat
      let directoryItem ← kzalloc directorySize
      if directoryItem = 0 then do
        fat16FreeDirectory directory directoryItem
        pure (.directory directory directoryItem items)
      else do
        let res ← fat16ReadInternal item.firstCluster 0 (toInt32 directorySize) directoryItem
        if res ≠ slobosAllOk then do
          fat16FreeDirectory directory directoryItem
          pure (.directory directory directoryItem items)
        else pure (.directory directory directoryItem items)

/-- A directory is loaded too, but then the union and the type are overwritten. -/
def fat16NewFatItemForDirectoryItem (item : FatDirectoryItem) : KernelM (Option FatItem) := do
  let fatItem ← kzalloc fatItemSize
  if fatItem = 0 then pure none
  else do
    if item.attributes &&& fatFileSubdirectory ≠ 0 then do
      let _ ← fat16LoadFatDirectory item
      let clone ← kzalloc fatDirectoryItemSize
      pure (some { address := fatItem, data := .file clone item })
    else do
      let clone ← kzalloc fatDirectoryItemSize
      pure (some { address := fatItem, data := .file clone item })

/-- Every item with the name is turned into a new `struct fat_item`; the last one is returned. -/
def fat16FindItemInDirectory (name : List UInt8) :
    List FatDirectoryItem → Option FatItem → KernelM (Option FatItem)
  | [], found => pure found
  | item :: items, found => do
      if istrncmpEqual item.fullRelativeFilename name then do
        let fatItem ← fat16NewFatItemForDirectoryItem item
        fat16FindItemInDirectory name items fatItem
      else fat16FindItemInDirectory name items found

def fat16GetDirectoryEntryLoop : List (List UInt8) → FatItem → KernelM (Option FatItem)
  | [], currentItem => pure (some currentItem)
  | name :: path, currentItem =>
      match currentItem.data with
      | .file _ _ => pure none
      | .directory _ _ items => do
          let tmpItem ← fat16FindItemInDirectory name items none
          fat16FatItemFree currentItem
          match tmpItem with
          | none => if path = [] then pure none else throw .nullPointer
          | some tmpItem => fat16GetDirectoryEntryLoop path tmpItem

def fat16GetDirectoryEntry (path : List (List UInt8)) : KernelM (Option FatItem) := do
  let kernel ← get
  let rootItem ← fat16FindItemInDirectory (path.headD []) kernel.volume.rootDirectory none
  match rootItem with
  | none => pure none
  | some rootItem => fat16GetDirectoryEntryLoop path.tail rootItem

def fat16Open (path : List (List UInt8)) (mode : FileMode) :
    KernelM (Option (Nat × FatItem)) := do
  if mode ≠ .read then pure none
  else do
    let descriptor ← kzalloc fatFileDescriptorSize
    if descriptor = 0 then pure none
    else do
      let item ← fat16GetDirectoryEntry path
      match item with
      | none => pure none
      | some item => pure (some (descriptor, item))

def fat16ReadMembers (cluster : Int) (size : Nat) : Nat → Int → Nat → KernelM Int
  | 0, _, _ => pure 0
  | left + 1, offset, outPtr => do
      let res ← fat16ReadInternal cluster offset (toInt32 size) outPtr
      if res < 0 then pure res
      else fat16ReadMembers cluster size left (toInt32 (offset + size)) (outPtr + size)

/-- The position is not moved. -/
def fat16Read (contents : FatDirectoryItem) (pos size nmemb outPtr : Nat) : KernelM Int := do
  let res ← fat16ReadMembers contents.firstCluster size nmemb (toInt32 pos) outPtr
  if res < 0 then pure res else pure (toInt32 nmemb)

def seekSet : Nat := 0
def seekCur : Nat := 1
def seekEnd : Nat := 2

/-- The code, and the position that is left. The offset is compared with the size of the file before
the mode is looked at. -/
def fat16Seek (contents : FatDirectoryItem) (pos offset seekMode : Nat) : Int × Nat :=
  if offset ≥ contents.filesize then (-eio, pos)
  else if seekMode = seekSet then (0, offset)
  else if seekMode = seekEnd then (-eunimp, pos)
  else if seekMode = seekCur then (0, toUint32 (pos + offset))
  else (-einvarg, pos)

/-! ### `file.c` -/

def fileDescriptorSize : Nat := 16

def setFile (desc : Nat) (file : FileDescriptor) (kernel : Kernel) : Kernel :=
  { kernel with files := fun address => if address = desc then file else kernel.files address }

def setFileDescriptor (slot desc : Nat) (kernel : Kernel) : Kernel :=
  { kernel with fileDescriptors := fun i =>
      if i = slot then desc else kernel.fileDescriptors i }

def fileFreeSlot (kernel : Kernel) : Option Nat :=
  (List.range slobosMaxFileDescriptors).find? fun i => kernel.fileDescriptors i = 0

/-- The slot, and the descriptor that it is set to, which is a null pointer without memory. -/
def fileNewDescriptor : KernelM (Option (Nat × Nat)) := do
  let kernel ← get
  match kernel.fileFreeSlot with
  | none => pure none
  | some i => do
      let desc ← kzalloc fileDescriptorSize
      storeTo desc
      modify (setFileDescriptor i desc)
      pure (some (i, desc))

def fileGetDescriptor (kernel : Kernel) (fd : Int) : Nat :=
  if fd ≤ 0 ∨ fd ≥ slobosMaxFileDescriptors then 0 else kernel.fileDescriptors (fd - 1).toNat

/-- Only the first character is compared. -/
def fileGetModeByString (str : List UInt8) : FileMode :=
  if str.headD 0 = 0x72 then .read
  else if str.headD 0 = 0x77 then .write
  else if str.headD 0 = 0x61 then .append
  else .invalid

def fopenParsed (rootPath : PathRoot) (modeStr : List UInt8) : KernelM Int := do
  if rootPath.parts = [] then pure 0
  else if rootPath.driveNo ≠ 0 then pure 0
  else do
    let kernel ← get
    if !kernel.volume.mounted then pure 0
    else if fileGetModeByString modeStr = .invalid then pure 0
    else do
      let opened ← fat16Open (rootPath.parts.map PathPart.text) (fileGetModeByString modeStr)
      match opened with
      | none => pure 0
      | some (fatDescriptor, item) => do
          let created ← fileNewDescriptor
          match created with
          | none => pure 0
          | some (i, desc) => do
              modify (setFile desc
                { index := i + 1, fatDescriptor := fatDescriptor, item := item, pos := 0 })
              pure (i + 1)

/-- A failure is reported as `0`. -/
def fopen (filename modeStr : List UInt8) : KernelM Int := do
  let rootPath ← pathparserParse filename
  match rootPath with
  | none => pure 0
  | some rootPath => fopenParsed rootPath modeStr

def modeRead : List UInt8 := [0x72]

def fstat (fd : Int) : KernelM (Int × Nat) := do
  let kernel ← get
  let desc := kernel.fileGetDescriptor fd
  if desc = 0 then pure (-eio, 0)
  else
    match (kernel.files desc).item.data with
    | .directory _ _ _ => pure (-einvarg, 0)
    | .file item contents => do
        deref item
        pure (0, contents.filesize)

def fclose (fd : Int) : KernelM Unit := do
  let kernel ← get
  let desc := kernel.fileGetDescriptor fd
  if desc = 0 then pure ()
  else do
    fat16FatItemFree (kernel.files desc).item
    kfree (kernel.files desc).fatDescriptor
    modify (setFileDescriptor ((kernel.files desc).index - 1) 0)
    kfree desc

/-- The offset is an `int`, and is handed on as an unsigned number. -/
def fseek (fd offset : Int) (whence : Nat) : KernelM Int := do
  let kernel ← get
  let desc := kernel.fileGetDescriptor fd
  if desc = 0 then pure (-eio)
  else
    match (kernel.files desc).item.data with
    | .directory _ _ _ => pure (-einvarg)
    | .file item contents => do
        deref item
        let (res, pos) :=
          fat16Seek contents (kernel.files desc).pos (offset % addressSpace).toNat whence
        modify (setFile desc { kernel.files desc with pos := pos })
        pure res

def fread (ptr size nmemb : Nat) (fd : Int) : KernelM Int := do
  if size = 0 ∨ nmemb = 0 ∨ fd < 1 then pure (-einvarg)
  else do
    let kernel ← get
    let desc := kernel.fileGetDescriptor fd
    if desc = 0 then pure (-einvarg)
    else
      match (kernel.files desc).item.data with
      | .directory _ _ _ => throw .wildPointer
      | .file item contents => do
          deref item
          fat16Read contents (kernel.files desc).pos size nmemb ptr

end Kernel

end SlobOS
