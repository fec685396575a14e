import Hxnu.Lib.Buffer
import Hxnu.Lib.Fallible
import Hxnu.Lib.Text
import Hxnu.Lib.Utf8

/-!
# The initial ramdisk

The archive of `kernel/src/initrd.rs`: a `newc` archive is read into a list of entries, and files and
directories are found in it by their paths under `/initrd`. Texts are lists of UTF-8 bytes. The
console output of the source is left out.

A file is read as text: bytes that are not UTF-8 are replaced.

## Main definitions

* `InitrdEntry`, `parseNewcArchive`.
* `findEntry`, `readEntry`, `nodeInfo`, `readBytes`: look up a path.
* `files`, `directoryPaths`, `parents`: what a list of entries holds, and the directories a path is in.

## Main results

* `parseRecords_invariant`: what every record keeps, the whole archive keeps.
* `files_ensureParentDirectories`, `mem_directoryPaths_ensureParentDirectories`: what the parents of a
  path add.
-/

namespace Hxnu.Fs

open Buffer Fallible Text List

def slash : UInt8 := 0x2f

/-- `INITRD_ROOT`. -/
def initrdRoot : List UInt8 := ascii "/initrd"

def newcMagic : List UInt8 := ascii "070701"

def crcMagic : List UInt8 := ascii "070702"

def cpioHeaderLen : ℕ := 110

def fileTypeMask : ℕ := 0o170000

def fileTypeDirectory : ℕ := 0o040000

def modeExecutableMask : ℕ := 0o111

def defaultDirectoryMode : ℕ := fileTypeDirectory ||| 0o755

inductive InitrdEntryKind
  | directory
  | file
  deriving DecidableEq, Repr

structure InitrdEntry where
  path : List UInt8
  kind : InitrdEntryKind
  mode : ℕ
  data : List UInt8
  deriving DecidableEq, Repr

inductive InitrdError
  | invalidArchive
  | invalidEntryName
  | unsupportedPath
  deriving DecidableEq, Repr

/-! ### Reading the archive -/

/-- The value of a hexadecimal digit. -/
def hexDigit (byte : UInt8) : Option ℕ :=
  if 0x30 ≤ byte ∧ byte ≤ 0x39 then some (byte.toNat - 0x30)
  else if 0x61 ≤ byte ∧ byte ≤ 0x66 then some (byte.toNat - 0x61 + 10)
  else if 0x41 ≤ byte ∧ byte ≤ 0x46 then some (byte.toNat - 0x41 + 10)
  else none

/-- The body of the loop of `parse_hex_u32`. -/
def hexStep (value : ℕ) (byte : UInt8) : Except InitrdError ℕ := do
  ensure (value * 16 < 2 ^ 32) .invalidArchive
  let digit ← okOr (hexDigit byte) .invalidArchive
  return (value * 16 + digit) % 2 ^ 32

def parseHexU32 (bytes : List UInt8) : Except InitrdError ℕ := bytes.foldlM hexStep 0

def align4 (value : ℕ) : ℕ := (value + 3) / 4 * 4

def normalizeArchivePath (path : List UInt8) : Except InitrdError (List UInt8) :=
  let trimmed := stripPrefixOr (ascii "./") (trimMatches slash path)
  if trimmed = [] ∨ trimmed = ascii "." then .ok initrdRoot
  else if containsPair 0x2e 0x2e trimmed = true then .error .invalidEntryName
  else .ok (initrdRoot ++ [slash] ++ trimmed)

/-- Is this the directory with the given path? -/
def isDirectoryAt (path : List UInt8) (entry : InitrdEntry) : Bool :=
  entry.kind == .directory && entry.path == path

/-- `push_directory`: the first directory with the path gets the mode, or a new one is added. -/
def pushDirectory (entries : List InitrdEntry) (path : List UInt8) (mode : ℕ) : List InitrdEntry :=
  match entries.findIdx? (isDirectoryAt path) with
  | some i => entries.modify i fun entry => { entry with mode }
  | none => entries ++ [⟨path, .directory, mode, []⟩]

/-- `ensure_parent_directories`: the directories that end at a slash of the path after the root. -/
def ensureParentDirectories (entries : List InitrdEntry) (path : List UInt8) : List InitrdEntry :=
  ((List.range path.length).filter fun i => initrdRoot.length < i && path[i]? == some slash).foldl
    (fun entries i => pushDirectory entries (path.take i) defaultDirectoryMode) entries

/-- What a record of the archive says. -/
structure Record where
  mode : ℕ
  fileSize : ℕ
  name : List UInt8
  /-- Where the data starts. -/
  dataStart : ℕ

/-- The header and the name of the record at `cursor`. -/
def parseRecord (archive : List UInt8) (cursor : ℕ) : Except InitrdError Record := do
  let header := slice archive cursor cpioHeaderLen
  let cursor := cursor + cpioHeaderLen
  ensure (header.take 6 = newcMagic ∨ header.take 6 = crcMagic) .invalidArchive
  let mode ← parseHexU32 (slice header 14 8)
  let fileSize ← parseHexU32 (slice header 54 8)
  let nameSize ← parseHexU32 (slice header 94 8)
  ensure (nameSize ≠ 0 ∧ cursor + nameSize ≤ archive.length) .invalidArchive
  let nameBytes := slice archive cursor nameSize
  let cursor := align4 (cursor + nameSize)
  ensure (cursor ≤ archive.length) .invalidArchive
  ensure (nameBytes.getLast? = some 0) .invalidArchive
  let rawName := nameBytes.dropLast
  ensure (Utf8.valid rawName = true) .invalidEntryName
  return ⟨mode, fileSize, rawName, cursor⟩

/-- The entries after a record, and where the next record starts. -/
def addRecord (archive : List UInt8) (entries : List InitrdEntry) (r : Record) :
    Except InitrdError (List InitrdEntry × ℕ) := do
  let normalized ← normalizeArchivePath r.name
  let entries := ensureParentDirectories entries normalized
  ensure (r.dataStart + r.fileSize ≤ archive.length) .invalidArchive
  let cursor := align4 (r.dataStart + r.fileSize)
  ensure (cursor ≤ archive.length) .invalidArchive
  if r.mode &&& fileTypeMask = fileTypeDirectory then
    return (pushDirectory entries normalized r.mode, cursor)
  else
    return (entries ++ [⟨normalized, .file, r.mode, slice archive r.dataStart r.fileSize⟩], cursor)

theorem dataStart_gt (h : parseRecord archive cursor = .ok r) : cursor < r.dataStart := by
  simp only [parseRecord, bind_eq_ok, pure_eq_ok, ensure_eq_ok] at h
  obtain ⟨-, -, mode, -, fileSize, -, nameSize, -, -, -, -, -, -, -, -, -, rfl⟩ := h
  simp only [align4, cpioHeaderLen]
  omega

theorem cursor_ge (h : addRecord archive entries r = .ok (entries', cursor)) :
    r.dataStart ≤ cursor := by
  simp only [addRecord, bind_eq_ok, ensure_eq_ok] at h
  obtain ⟨normalized, -, -, -, -, -, h⟩ := h
  split_ifs at h
  all_goals
    cases h
    rw [align4]
    omega

/-- The loop of `parse_newc_archive` from `cursor` on. -/
def parseRecords (archive : List UInt8) (entries : List InitrdEntry) (cursor : ℕ) :
    Except InitrdError (List InitrdEntry) :=
  if _hend : archive.length < cursor + cpioHeaderLen then .error .invalidArchive
  else
    match _hrecord : parseRecord archive cursor with
    | .error e => .error e
    | .ok r =>
      if r.name = ascii "TRAILER!!!" then .ok entries
      else
        match _hadd : addRecord archive entries r with
        | .error e => .error e
        | .ok (entries, cursor) => parseRecords archive entries cursor
termination_by archive.length - cursor
decreasing_by
  have hstart := dataStart_gt _hrecord
  have hcursor := cursor_ge _hadd
  rw [cpioHeaderLen] at _hend
  omega

def parseNewcArchive (archive : List UInt8) : Except InitrdError (List InitrdEntry) :=
  parseRecords archive (pushDirectory [] initrdRoot defaultDirectoryMode) 0

/-! ### Looking up paths -/

def normalizeVfsPath (path : List UInt8) : Except InitrdError (List UInt8) :=
  if path = initrdRoot ∨ path = initrdRoot ++ [slash] then .ok initrdRoot
  else if (initrdRoot ++ [slash]).isPrefixOf path = false then .error .unsupportedPath
  else .ok (trimEndMatches slash path)

def findEntry (entries : List InitrdEntry) (path : List UInt8) : Option InitrdEntry :=
  entries.find? fun entry => entry.path == path

/-- The name of an entry directly below a directory. -/
def childName (path : List UInt8) (entry : InitrdEntry) : Option (List UInt8) :=
  if entry.path = path ∨ (path ++ [slash]).isPrefixOf entry.path = false then none
  else
    let remainder := entry.path.drop (path.length + 1)
    if remainder = [] ∨ slash ∈ remainder then none else some remainder

section

variable (entries : List InitrdEntry)

/-- `render_directory`: the names in a directory, one per line. -/
def renderDirectory (path : List UInt8) : List UInt8 :=
  (entries.filterMap (childName path)).flatMap fun name => name ++ [0x0a]

/-- `initrd::read`. -/
def readEntry (path : List UInt8) : Option (List UInt8) :=
  match normalizeVfsPath path with
  | .error _ => none
  | .ok normalized =>
    (findEntry entries normalized).map fun entry =>
      match entry.kind with
      | .directory => renderDirectory entries normalized
      | .file => Utf8.lossy entry.data

structure InitrdNodeInfo where
  kind : InitrdEntryKind
  size : ℕ
  executable : Bool

def nodeInfo (path : List UInt8) : Option InitrdNodeInfo :=
  match normalizeVfsPath path with
  | .error _ => none
  | .ok normalized =>
    (findEntry entries normalized).map fun entry =>
      ⟨entry.kind, entry.data.length, decide (entry.mode &&& modeExecutableMask ≠ 0)⟩

def readBytes (path : List UInt8) : Option (List UInt8) :=
  match normalizeVfsPath path with
  | .error _ => none
  | .ok normalized =>
    match findEntry entries normalized with
    | none => none
    | some entry => if entry.kind = .file then some entry.data else none

/-- `get_module_paths`: the files that end as kernel modules do. -/
def getModulePaths : List (List UInt8) :=
  (entries.filter fun entry => entry.kind == .file &&
    ((ascii ".hxext").isSuffixOf entry.path || (ascii ".hxmd").isSuffixOf entry.path)).map (·.path)

/-! ### Files and directories of a list of entries -/

def files : List InitrdEntry := entries.filter (·.kind == .file)

def directoryPaths : List (List UInt8) :=
  (entries.filter (·.kind == .directory)).map (·.path)

end

/-- The directories below `/initrd` that a path is in. -/
def parents (path : List UInt8) : List (List UInt8) :=
  ((List.range path.length).filter fun i =>
    initrdRoot.length < i && path[i]? == some slash).map path.take

section Directories

variable {entries : List InitrdEntry} {path q : List UInt8}

theorem mem_files : e ∈ files entries ↔ e ∈ entries ∧ e.kind = .file := by
  rw [files, mem_filter, beq_iff_eq]

theorem mem_directoryPaths :
    q ∈ directoryPaths entries ↔ ∃ e ∈ entries, e.kind = .directory ∧ e.path = q := by
  simp only [directoryPaths, mem_map, mem_filter, beq_iff_eq, and_assoc]

theorem mem_parents :
    q ∈ parents path ↔ initrdRoot.length < q.length ∧ ∃ t, path = q ++ slash :: t := by
  simp only [parents, mem_map, mem_filter, mem_range, Bool.and_eq_true,
    decide_eq_true_eq, beq_iff_eq]
  constructor
  · rintro ⟨i, ⟨hi, hroot, hslash⟩, rfl⟩
    have hget : path[i] = slash := by rwa [List.getElem?_eq_getElem hi, Option.some.injEq] at hslash
    refine ⟨by rw [length_take]; omega, path.drop (i + 1), ?_⟩
    rw [← hget, ← drop_eq_getElem_cons hi, take_append_drop]
  · rintro ⟨hroot, t, rfl⟩
    exact ⟨q.length, ⟨by simp, hroot, by simp⟩, by simp⟩

section

variable (entries path)

theorem ensureParentDirectories_eq : ensureParentDirectories entries path =
      (parents path).foldl (pushDirectory · · defaultDirectoryMode) entries := by
  rw [parents, foldl_map]
  rfl

/-- The two ways in which a directory is added. -/
theorem pushDirectory_cases (mode : ℕ) : (path ∉ directoryPaths entries ∧
        pushDirectory entries path mode = entries ++ [⟨path, .directory, mode, []⟩]) ∨
      ∃ front e back, entries = front ++ e :: back ∧ e.kind = .directory ∧ e.path = path ∧
        pushDirectory entries path mode = front ++ { e with mode } :: back := by
  cases hfind : entries.findIdx? (isDirectoryAt path) with
  | none =>
    refine .inl ⟨fun hmem => ?_, by rw [pushDirectory, hfind]⟩
    obtain ⟨e, he, hkind, hpath⟩ := mem_directoryPaths.mp hmem
    have hnot := findIdx?_eq_none_iff.mp hfind e he
    rw [isDirectoryAt, hkind, hpath] at hnot
    simp at hnot
  | some i =>
    obtain ⟨hi, hat, -⟩ := findIdx?_eq_some_iff_getElem.mp hfind
    rw [isDirectoryAt, Bool.and_eq_true, beq_iff_eq, beq_iff_eq] at hat
    refine .inr ⟨entries.take i, entries[i], entries.drop (i + 1), ?_, hat.1, hat.2, ?_⟩
    · rw [← drop_eq_getElem_cons hi, take_append_drop]
    · rw [pushDirectory, hfind]
      exact modify_eq_take_cons_drop hi

theorem files_pushDirectory (mode : ℕ) :
    files (pushDirectory entries path mode) = files entries := by
  rcases pushDirectory_cases entries path mode with ⟨-, heq⟩ | ⟨front, e, back, rfl, hkind, -, heq⟩
  · rw [heq]
    simp [files]
  · rw [heq]
    simp [files, hkind]

theorem directoryPaths_pushDirectory (mode : ℕ) : directoryPaths (pushDirectory entries path mode) =
      if path ∈ directoryPaths entries then directoryPaths entries
      else directoryPaths entries ++ [path] := by
  rcases pushDirectory_cases entries path mode with
    ⟨hnot, heq⟩ | ⟨front, e, back, rfl, hkind, rfl, heq⟩
  · rw [if_neg hnot, heq]
    simp [directoryPaths]
  · rw [if_pos (mem_directoryPaths.mpr ⟨e, by simp, hkind, rfl⟩), heq]
    simp [directoryPaths, hkind]

end

theorem mem_directoryPaths_pushDirectory :
    q ∈ directoryPaths (pushDirectory entries path mode) ↔
      q ∈ directoryPaths entries ∨ q = path := by
  rw [directoryPaths_pushDirectory]
  split_ifs with hmem
  · exact ⟨.inl, fun h => h.elim id fun heq => heq ▸ hmem⟩
  · rw [mem_append, mem_singleton]

theorem nodup_directoryPaths_pushDirectory (h : (directoryPaths entries).Nodup) :
    (directoryPaths (pushDirectory entries path mode)).Nodup := by
  rw [directoryPaths_pushDirectory]
  split_ifs with hmem
  · exact h
  · refine nodup_append.mpr ⟨h, nodup_singleton path, fun a ha b hb => ?_⟩
    rintro rfl
    exact hmem (mem_singleton.mp hb ▸ ha)

theorem files_ensureParentDirectories (entries : List InitrdEntry) (path : List UInt8) :
    files (ensureParentDirectories entries path) = files entries := by
  rw [ensureParentDirectories_eq]
  induction parents path generalizing entries with
  | nil => rfl
  | cons q qs ih => rw [foldl_cons, ih, files_pushDirectory]

theorem mem_directoryPaths_ensureParentDirectories :
    q ∈ directoryPaths (ensureParentDirectories entries path) ↔
      q ∈ directoryPaths entries ∨ q ∈ parents path := by
  rw [ensureParentDirectories_eq]
  induction parents path generalizing entries with
  | nil => simp
  | cons p ps ih =>
    rw [foldl_cons, ih, mem_directoryPaths_pushDirectory, mem_cons, or_assoc]

theorem nodup_directoryPaths_ensureParentDirectories (h : (directoryPaths entries).Nodup) :
    (directoryPaths (ensureParentDirectories entries path)).Nodup := by
  rw [ensureParentDirectories_eq]
  induction parents path generalizing entries with
  | nil => exact h
  | cons p ps ih => exact ih (nodup_directoryPaths_pushDirectory h)

end Directories

/-! ### Whole archives -/

section Archives

variable {archive : List UInt8} {entries entries' : List InitrdEntry} {cursor : ℕ} {r : Record}

theorem valid_name (h : parseRecord archive cursor = .ok r) : Utf8.valid r.name = true := by
  simp only [parseRecord, bind_eq_ok, pure_eq_ok, ensure_eq_ok] at h
  obtain ⟨-, -, mode, -, fileSize, -, nameSize, -, -, -, -, -, -, -, -, hvalid, rfl⟩ := h
  exact hvalid

/-- What a record adds. -/
theorem addRecord_eq_ok (h : addRecord archive entries r = .ok (entries', cursor)) :
    ∃ path, normalizeArchivePath r.name = .ok path ∧
      entries' = if r.mode &&& fileTypeMask = fileTypeDirectory then
        pushDirectory (ensureParentDirectories entries path) path r.mode
      else ensureParentDirectories entries path ++
        [⟨path, .file, r.mode, slice archive r.dataStart r.fileSize⟩] := by
  simp only [addRecord, bind_eq_ok, ensure_eq_ok] at h
  obtain ⟨path, hpath, -, -, -, -, h⟩ := h
  refine ⟨path, hpath, ?_⟩
  split_ifs at h ⊢
  all_goals
    cases h
    rfl

/-- One round of the loop. -/
theorem parseRecords_eq (archive : List UInt8) (entries : List InitrdEntry) (cursor : ℕ) :
    parseRecords archive entries cursor =
      if archive.length < cursor + cpioHeaderLen then .error .invalidArchive
      else parseRecord archive cursor >>= fun r =>
        if r.name = ascii "TRAILER!!!" then .ok entries
        else addRecord archive entries r >>= fun next => parseRecords archive next.1 next.2 := by
  conv_lhs => unfold parseRecords
  split_ifs with hend
  · rfl
  · split
    · rename_i e hrecord
      rw [hrecord]
      rfl
    · rename_i r hrecord
      rw [hrecord]
      change _ = if _ then _ else _
      split_ifs with htrailer
      · rfl
      · split
        · rename_i e hadd
          rw [hadd]
          rfl
        · rename_i entries₁ cursor₁ hadd
          rw [hadd]
          rfl

/-- **What every record keeps, the whole archive keeps.** -/
theorem parseRecords_invariant {I : List InitrdEntry → Prop}
    (hstep : ∀ {entries entries' : List InitrdEntry} {r : Record} {cursor : ℕ},
      Utf8.valid r.name = true → addRecord archive entries r = .ok (entries', cursor) →
        I entries → I entries')
    (h : parseRecords archive entries cursor = .ok entries') (hI : I entries) : I entries' := by
  -- The records that are left are fewer after each round.
  induction hn : archive.length - cursor using Nat.strong_induction_on generalizing entries cursor
  rename_i n ih
  rw [parseRecords_eq] at h
  split_ifs at h with hend
  obtain ⟨r, hrecord, h⟩ := bind_eq_ok.mp h
  split_ifs at h with htrailer
  · cases h
    exact hI
  · obtain ⟨⟨entries₁, cursor₁⟩, hadd, h⟩ := bind_eq_ok.mp h
    refine ih (archive.length - cursor₁) ?_ h (hstep (valid_name hrecord) hadd hI) rfl
    have hstart := dataStart_gt hrecord
    have hcursor := cursor_ge hadd
    rw [cpioHeaderLen] at hend
    omega

end Archives

end Hxnu.Fs
