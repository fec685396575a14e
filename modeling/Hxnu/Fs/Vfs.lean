import Hxnu.Fs.Initrd

/-!
# The virtual file system

`lookup` and `read` of `kernel/src/vfs.rs`: a path is normalised and given to the file system that is
mounted there, and every path that belongs to no mount is looked up in the initial ramdisk. The
device, boot, process and `hfs` file systems are parameters.

## Main definitions

* `Vfs`: the mounted file systems.
* `normalizePath`, `resolveNode`, `Vfs.lookup`, `Vfs.read`.
-/

namespace Hxnu.Fs

open Text

inductive VfsMountKind
  | root
  | devfs
  | fat
  | initrd
  | procfs
  | hfs
  deriving DecidableEq, Repr

inductive VfsNodeKind
  | directory
  | file
  | device
  deriving DecidableEq, Repr

structure VfsNode where
  path : List UInt8
  mount : VfsMountKind
  kind : VfsNodeKind
  size : ℕ
  executable : Bool
  deriving DecidableEq, Repr

/-- A file system that the vfs asks by path. -/
structure Backend where
  nodeKind : List UInt8 → Option VfsNodeKind
  size : List UInt8 → ℕ
  read : List UInt8 → Option (List UInt8)

/-- The mounted file systems. `fat` and `initrd` may not be there; the text of an `hfs` node is
always produced. -/
structure Vfs where
  initialized : Bool
  devfs : Backend
  fat : Option Backend
  initrd : Option (List InitrdEntry)
  procfs : Backend
  hfs : List UInt8 → List UInt8

def rootPath : List UInt8 := [slash]

/-! ### Normal paths -/

/-- The body of the loop of `normalize_path`. -/
def pushSegment (segments : List (List UInt8)) (segment : List UInt8) :
    Option (List (List UInt8)) :=
  if segment = [] ∨ segment = ascii "." then some segments
  else if segment = ascii ".." then
    if segments = [] then none else some segments.dropLast
  else some (segments ++ [segment])

/-- The segments, each after a slash, or the root. -/
def joinSegments (segments : List (List UInt8)) : List UInt8 :=
  if segments = [] then rootPath else segments.flatMap fun segment => slash :: segment

def normalizePath (path : List UInt8) : Option (List UInt8) :=
  if path.head? = some slash then
    ((split slash path).foldlM pushSegment []).map joinSegments
  else none

/-! ### Nodes -/

/-- Is this the root of a mount or a path below it? -/
def isUnder (root path : List UInt8) : Bool := path == root || (root ++ [slash]).isPrefixOf path

def renderRoot (vfs : Vfs) : List UInt8 :=
  ascii "dev\n" ++ (if vfs.fat.isSome then ascii "fat\n" else []) ++ ascii "hfs\n"
    ++ (if vfs.initrd.isSome then ascii "initrd\n" else []) ++ ascii "proc\n"

/-- `resolve_devfs_node`, `resolve_procfs_node` and `resolve_fat_node`. -/
def resolveBackendNode (backend : Backend) (mount : VfsMountKind) (path : List UInt8) :
    Option VfsNode :=
  (backend.nodeKind path).map fun kind => ⟨path, mount, kind, backend.size path, false⟩

def resolveInitrdNode (vfs : Vfs) (path : List UInt8) : Option VfsNode :=
  match vfs.initrd with
  | none => none
  | some entries =>
    (nodeInfo entries path).map fun info =>
      let kind := match info.kind with
        | .directory => VfsNodeKind.directory
        | .file => VfsNodeKind.file
      ⟨path, .initrd, kind, info.size, info.executable⟩

def hfsRootPath : List UInt8 := ascii "/hfs"

def resolveHfsNode (vfs : Vfs) (path : List UInt8) : Option VfsNode :=
  let kind := if path = hfsRootPath then VfsNodeKind.directory else VfsNodeKind.file
  some ⟨path, .hfs, kind, (vfs.hfs path).length, false⟩

def resolveNode (vfs : Vfs) (path : List UInt8) : Option VfsNode :=
  if path = rootPath then
    some ⟨rootPath, .root, .directory, (renderRoot vfs).length, false⟩
  else if isUnder (ascii "/dev") path then resolveBackendNode vfs.devfs .devfs path
  else if isUnder (ascii "/boot") path then
    match vfs.fat with
    | none => none
    | some fat => resolveBackendNode fat .fat path
  else if isUnder initrdRoot path then resolveInitrdNode vfs path
  else if isUnder (ascii "/proc") path then resolveBackendNode vfs.procfs .procfs path
  else if isUnder hfsRootPath path then resolveHfsNode vfs path
  else
    resolveInitrdNode vfs (initrdRoot ++ (if path.head? = some slash then [] else [slash]) ++ path)

namespace Vfs

def lookup (vfs : Vfs) (path : List UInt8) : Option VfsNode :=
  if vfs.initialized then (normalizePath path).bind (resolveNode vfs) else none

def read (vfs : Vfs) (path : List UInt8) : Option (List UInt8) :=
  match vfs.lookup path with
  | none => none
  | some node =>
    match node.mount with
    | .root => some (renderRoot vfs)
    | .devfs => vfs.devfs.read node.path
    | .fat => vfs.fat.bind fun fat => fat.read node.path
    | .initrd => vfs.initrd.bind fun entries => readEntry entries node.path
    | .procfs => vfs.procfs.read node.path
    | .hfs => some (vfs.hfs node.path)

end Vfs

end Hxnu.Fs
