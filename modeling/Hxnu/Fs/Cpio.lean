import Hxnu.Fs.Initrd

/-!
# Packing a directory tree into an archive

The script `scripts/make_cpio.py` packs a directory into the archive that becomes the initial
ramdisk. The kernel's reader gets back the files and directories of the tree, for every tree whose
paths are short enough for the size field of a record.

The script sorts the items by their paths, which are different, so the order in which it walks the
directory does not matter. Python sorts texts by code points, which is the order of their UTF-8 bytes.

## Main definitions

* `Forest`, `Stage`: the contents of a directory.
* `writeHead`, `writeItem`, `packCpio`: the script.
* `Unpacked`: the entries that belong to the tree.

## Main results

* `parseRecord_writeHead`, `parseRecords_packItems`: reading back what was written.
* `parse_packCpio`: the round trip.
-/

namespace Hxnu.Fs

open Buffer Fallible Text List

/-! ### Directory trees -/

/-- The contents of a directory: named files and directories. -/
inductive Forest
  | nil
  | file (name : List UInt8) (mode : ℕ) (mtime : ℤ) (data : List UInt8) (rest : Forest)
  | directory (name : List UInt8) (mode : ℕ) (mtime : ℤ) (children rest : Forest)

/-- A file or directory somewhere in a tree. -/
structure Item where
  /-- The path from the top of the tree. -/
  relPath : List UInt8
  isDir : Bool
  mode : ℕ
  mtime : ℤ
  data : List UInt8

/-- The same thing, in a tree where it is below the directory `name`. -/
def Item.under (name : List UInt8) (item : Item) : Item :=
  { item with relPath := name ++ slash :: item.relPath }

namespace Forest

def names : Forest → List (List UInt8)
  | nil => []
  | file name _ _ _ rest => name :: rest.names
  | directory name _ _ _ rest => name :: rest.names

/-- All files and directories, as `os.walk` finds them. -/
def items : Forest → List Item
  | nil => []
  | file name mode mtime data rest => ⟨name, false, mode, mtime, data⟩ :: rest.items
  | directory name mode mtime children rest =>
    ⟨name, true, mode, mtime, []⟩ :: (children.items.map (Item.under name) ++ rest.items)

end Forest

/-- A name of a file: UTF-8 without a separator, a backslash or NUL, and without `..`. -/
structure ValidName (name : List UInt8) : Prop where
  ne_nil : name ≠ []
  ne_dot : name ≠ ascii "."
  valid : Utf8.valid name = true
  slash : slash ∉ name
  backslash : 0x5c ∉ name
  nul : 0 ∉ name
  dots : containsPair 0x2e 0x2e name = false

def fileTypeRegular : ℕ := 0o100000

/-- The names are valid and different in each directory, the modes are those of regular files and
directories, and the sizes fit into 32 bits. -/
def Forest.WellFormed : Forest → Prop
  | .nil => True
  | .file name mode _ data rest =>
    ValidName name ∧ name ∉ rest.names ∧ (mode < 2 ^ 32 ∧ mode &&& fileTypeMask = fileTypeRegular) ∧
      data.length < 2 ^ 32 ∧ rest.WellFormed
  | .directory name mode _ children rest =>
    ValidName name ∧ name ∉ rest.names ∧
      (mode < 2 ^ 32 ∧ mode &&& fileTypeMask = fileTypeDirectory) ∧
      children.WellFormed ∧ rest.WellFormed

/-- The contents of the directory that is packed. -/
structure Stage where
  contents : Forest
  wellFormed : contents.WellFormed

/-! ### The script -/

def hexByte (digit : ℕ) : UInt8 := UInt8.ofNat (if digit < 10 then 0x30 + digit else 0x57 + digit)

/-- The last `n` hexadecimal digits of a number. -/
def hexDigits : ℕ → ℕ → List UInt8
  | 0, _ => []
  | n + 1, value => hexDigits n (value / 16) ++ [hexByte (value % 16)]

/-- The zeros after `n` bytes, up to a multiple of four. -/
def padding (n : ℕ) : List UInt8 := List.replicate ((4 - n % 4) % 4) 0

/-- The header of a record: the magic number and thirteen fields of eight digits. -/
def writeHeader (ino mode nlink mtime fileSize nameSize : ℕ) : List UInt8 :=
  newcMagic ++ [ino % 2 ^ 32, mode % 2 ^ 32, 0, 0, nlink, mtime, fileSize % 2 ^ 32, 0, 0, 0, 0,
    nameSize % 2 ^ 32, 0].flatMap (hexDigits 8)

/-- The header and the name of a record. -/
def writeHead (ino mode nlink mtime fileSize : ℕ) (name : List UInt8) : List UInt8 :=
  writeHeader ino mode nlink mtime fileSize (name.length + 1) ++ (name ++ [0]) ++
    padding (cpioHeaderLen + (name.length + 1))

/-- The record of an item. The data of a directory is not written. -/
def writeItem (ino : ℕ) (item : Item) : List UInt8 :=
  let mtime := (item.mtime % 2 ^ 32).toNat
  if item.isDir then writeHead ino item.mode 2 mtime 0 item.relPath
  else writeHead ino item.mode 1 mtime item.data.length item.relPath ++
    (item.data ++ padding item.data.length)

def writeTrailer (ino : ℕ) : List UInt8 := writeHead ino 0 1 0 0 (ascii "TRAILER!!!")

/-- The records of some items, numbered from `ino` on, and the trailer. -/
def packItems : ℕ → List Item → List UInt8
  | ino, [] => writeTrailer ino
  | ino, item :: rest => writeItem ino item ++ packItems (ino + 1) rest

/-- The path that the script gives to an item. The top directory itself has none. -/
def stagedPath (item : Item) : Option Item :=
  let relPath := item.relPath.map fun b => if b = 0x5c then slash else b
  if relPath = ascii "." then none else some { item with relPath := ascii "./" ++ relPath }

/-- The items in the order in which they are written. -/
def stagedItems (contents : Forest) : List Item :=
  (contents.items.filterMap stagedPath).mergeSort fun a b => decide (a.relPath ≤ b.relPath)

def packCpio (stage : Stage) : List UInt8 := packItems 1 (stagedItems stage.contents)

/-! ### Reading one record back -/

theorem hexDigit_hexByte (h : digit < 16) : hexDigit (hexByte digit) = some digit := by
  have hall : ∀ d < 16, hexDigit (hexByte d) = some d := by decide
  exact hall digit h

@[simp] theorem length_hexDigits (n value : ℕ) : (hexDigits n value).length = n := by
  induction n generalizing value with
  | zero => rfl
  | succ n ih => rw [hexDigits, length_append, ih, length_singleton]

theorem parseHexU32_hexDigits (hn : n ≤ 8) (h : value < 16 ^ n) :
    parseHexU32 (hexDigits n value) = .ok value := by
  induction n generalizing value with
  | zero =>
    obtain rfl : value = 0 := by omega
    rfl
  | succ n ih =>
    have hpow : 16 ^ (n + 1) ≤ 16 ^ 8 := Nat.pow_le_pow_right (by decide) hn
    have hdiv : value / 16 < 16 ^ n := Nat.div_lt_of_lt_mul (by rwa [← pow_succ'])
    have hfront := ih (Nat.le_of_succ_le hn) hdiv
    rw [parseHexU32] at hfront
    rw [parseHexU32, hexDigits, foldlM_append, hfront]
    have hlt : value < 2 ^ 32 := by omega
    simp only [foldlM_cons, foldlM_nil, bind_eq_ok, hexStep, pure_eq_ok, ensure_eq_ok,
      okOr_eq_ok]
    refine ⟨_, rfl, value, ⟨(), by omega, _, hexDigit_hexByte (Nat.mod_lt _ (by decide)), ?_⟩, rfl⟩
    omega

theorem length_newcMagic : newcMagic.length = 6 := by decide

section Head

variable {mode fileSize : ℕ} {name pre : List UInt8} (ino nlink mtime : ℕ)

theorem length_writeHeader (mode fileSize nameSize : ℕ) :
    (writeHeader ino mode nlink mtime fileSize nameSize).length = cpioHeaderLen := by
  simp [writeHeader, length_newcMagic, cpioHeaderLen]

theorem length_writeHead (mode fileSize : ℕ) (name : List UInt8) :
    (writeHead ino mode nlink mtime fileSize name).length =
      align4 (cpioHeaderLen + (name.length + 1)) := by
  simp only [writeHead, length_append, length_writeHeader, length_singleton, padding,
    length_replicate, align4]
  omega

/-- The fields of a header that the kernel reads. -/
theorem parse_writeHeader (mode fileSize nameSize : ℕ) :
    let header := writeHeader ino mode nlink mtime fileSize nameSize
    header.take 6 = newcMagic ∧ parseHexU32 (slice header 14 8) = .ok (mode % 2 ^ 32) ∧
      parseHexU32 (slice header 54 8) = .ok (fileSize % 2 ^ 32) ∧
      parseHexU32 (slice header 94 8) = .ok (nameSize % 2 ^ 32) := by
  intro header
  set fields := [ino % 2 ^ 32, mode % 2 ^ 32, 0, 0, nlink, mtime, fileSize % 2 ^ 32, 0, 0, 0, 0,
    nameSize % 2 ^ 32, 0]
  have hheader : header = newcMagic ++ fields.flatMap (hexDigits 8) := rfl
  have hfield {k v : ℕ} (hk : fields[k]? = some (v % 2 ^ 32)) :
      parseHexU32 (slice header (6 + 8 * k) 8) = .ok (v % 2 ^ 32) := by
    have hslice := slice_flatMap (length_hexDigits 8) newcMagic hk
    rw [length_newcMagic] at hslice
    rw [hheader, hslice]
    exact parseHexU32_hexDigits le_rfl (Nat.mod_lt _ (by decide))
  refine ⟨?_, hfield (k := 1) rfl, hfield (k := 6) rfl, hfield (k := 11) rfl⟩
  rw [hheader, ← length_newcMagic, take_left]

theorem slice_writeHead (pre name post : List UInt8) (mode fileSize : ℕ) :
    slice (pre ++ (writeHead ino mode nlink mtime fileSize name ++ post)) pre.length cpioHeaderLen =
      writeHeader ino mode nlink mtime fileSize (name.length + 1) := by
  rw [← length_writeHeader ino nlink mtime mode fileSize (name.length + 1), writeHead,
    append_assoc, append_assoc]
  exact slice_append _ _ _

/-- **The head of a record is read back.** -/
theorem parseRecord_writeHead (hpre : pre.length % 4 = 0) (hmode : mode < 2 ^ 32)
    (hsize : fileSize < 2 ^ 32) (hname : name.length + 1 < 2 ^ 32) (hvalid : Utf8.valid name = true)
    (post : List UInt8) :
    parseRecord (pre ++ (writeHead ino mode nlink mtime fileSize name ++ post)) pre.length =
      .ok ⟨mode, fileSize, name,
        (pre ++ writeHead ino mode nlink mtime fileSize name).length⟩ := by
  set head := writeHead ino mode nlink mtime fileSize name with hhead
  set header := writeHeader ino mode nlink mtime fileSize (name.length + 1)
  obtain ⟨hmagic, hreadMode, hreadSize, hreadName⟩ :=
    parse_writeHeader ino nlink mtime mode fileSize (name.length + 1)
  rw [Nat.mod_eq_of_lt hmode] at hreadMode
  rw [Nat.mod_eq_of_lt hsize] at hreadSize
  rw [Nat.mod_eq_of_lt hname] at hreadName
  have hlength : header.length = cpioHeaderLen := length_writeHeader ..
  have hbytes : slice (pre ++ (head ++ post)) (pre.length + cpioHeaderLen) (name.length + 1) =
      name ++ [0] := by
    have h := slice_append (pre ++ header) (name ++ [0])
      (padding (cpioHeaderLen + (name.length + 1)) ++ post)
    rw [length_append, hlength, length_append, length_singleton] at h
    simpa only [hhead, writeHead, append_assoc] using h
  have hheadLength : head.length = align4 (cpioHeaderLen + (name.length + 1)) :=
    length_writeHead ino nlink mtime mode fileSize name
  have hcursor : align4 (pre.length + cpioHeaderLen + (name.length + 1)) = (pre ++ head).length := by
    rw [length_append, hheadLength, align4, align4]
    omega
  simp only [parseRecord, bind_eq_ok, pure_eq_ok, ensure_eq_ok, hhead, slice_writeHead]
  refine ⟨(), .inl hmagic, mode, hreadMode, fileSize, hreadSize, name.length + 1, hreadName, (),
    ⟨nofun, ?_⟩, (), ?_, (), ?_, (), ?_, ?_⟩
  · rw [← hhead, length_append, length_append, hheadLength, align4]
    omega
  · rw [← hhead, hcursor, length_append, length_append, length_append]
    omega
  · rw [← hhead, hbytes, getLast?_concat]
  · rw [← hhead, hbytes, dropLast_concat]
    exact hvalid
  · rw [← hhead, hbytes, dropLast_concat, hcursor]

/-- A name whose length does not fit into its field may look empty. -/
theorem parseRecord_writeHead_ne_ok (hname : (name.length + 1) % 2 ^ 32 = 0) (post : List UInt8)
    (r : Record) : parseRecord (writeHead ino mode nlink mtime fileSize name ++ post) 0 ≠ .ok r := by
  intro h
  obtain ⟨-, -, -, hreadName⟩ := parse_writeHeader ino nlink mtime mode fileSize (name.length + 1)
  have hslice := slice_writeHead ino nlink mtime [] name post mode fileSize
  simp only [nil_append, length_nil] at hslice
  simp only [parseRecord, hslice, bind_eq_ok, pure_eq_ok, ensure_eq_ok, hreadName, hname,
    Except.ok.injEq] at h
  obtain ⟨-, -, -, -, -, -, _, rfl, -, hsize, -⟩ := h
  exact hsize.1 rfl

end Head

/-! ### Reading all records back -/

/-- The path of the entry for a staged item, which starts with a dot. -/
def Item.entryPath (item : Item) : List UInt8 := initrdRoot ++ item.relPath.drop 1

/-- An item whose record can be read back. -/
structure Readable (item : Item) : Prop where
  mode : item.mode < 2 ^ 32
  isDir : item.mode &&& fileTypeMask = fileTypeDirectory ↔ item.isDir = true
  size : item.data.length < 2 ^ 32
  length : item.relPath.length + 1 < 2 ^ 32
  valid : Utf8.valid item.relPath = true
  notTrailer : item.relPath ≠ ascii "TRAILER!!!"
  path : normalizeArchivePath item.relPath = .ok item.entryPath

/-- The entry of a file. -/
def Item.fileEntry (item : Item) : InitrdEntry := ⟨item.entryPath, .file, item.mode, item.data⟩

/-- The entries after the record of an item. -/
def addItem (entries : List InitrdEntry) (item : Item) : List InitrdEntry :=
  if item.isDir then
    pushDirectory (ensureParentDirectories entries item.entryPath) item.entryPath item.mode
  else ensureParentDirectories entries item.entryPath ++ [item.fileEntry]

section Items

variable {item : Item} {pre : List UInt8} (ino : ℕ)

theorem length_writeItem (item : Item) : (writeItem ino item).length % 4 = 0 := by
  have hdata : (item.data ++ padding item.data.length).length = align4 item.data.length := by
    rw [length_append, padding, length_replicate, align4]
    omega
  rw [writeItem]
  split_ifs
  · rw [length_writeHead, align4]
    omega
  · rw [length_append, length_writeHead, hdata, align4, align4]
    omega

/-- The record of an item is read back. -/
theorem parse_writeItem (hpre : pre.length % 4 = 0) (hitem : Readable item)
    (entries : List InitrdEntry) (post : List UInt8) :
    ∃ r, parseRecord (pre ++ (writeItem ino item ++ post)) pre.length = .ok r ∧
      r.name = item.relPath ∧
      addRecord (pre ++ (writeItem ino item ++ post)) entries r =
        .ok (addItem entries item, (pre ++ writeItem ino item).length) := by
  set mtime := (item.mtime % 2 ^ 32).toNat with hmtime
  by_cases hdir : item.isDir = true
  · have hwrite : writeItem ino item = writeHead ino item.mode 2 mtime 0 item.relPath := by
      rw [writeItem, if_pos hdir]
    rw [hwrite]
    refine ⟨_, parseRecord_writeHead ino 2 mtime hpre hitem.mode (by decide) hitem.length
      hitem.valid post, rfl, ?_⟩
    have halign : align4 (pre ++ writeHead ino item.mode 2 mtime 0 item.relPath).length =
        (pre ++ writeHead ino item.mode 2 mtime 0 item.relPath).length := by
      rw [length_append, length_writeHead, align4, align4]
      omega
    simp only [addRecord, bind_eq_ok, ensure_eq_ok, Nat.add_zero]
    refine ⟨_, hitem.path, (), ?_, (), ?_, ?_⟩
    · simp only [length_append]
      omega
    · rw [halign]
      simp only [length_append]
      omega
    · rw [if_pos (hitem.isDir.mpr hdir), halign, addItem, if_pos hdir]
      rfl
  · set head := writeHead ino item.mode 1 mtime item.data.length item.relPath with hhead
    have hwrite : writeItem ino item = head ++ (item.data ++ padding item.data.length) := by
      rw [writeItem, if_neg hdir]
    have hslice : slice (pre ++ (head ++ (item.data ++ padding item.data.length) ++ post))
        (pre ++ head).length item.data.length = item.data := by
      have h := slice_append (pre ++ head) item.data (padding item.data.length ++ post)
      simpa only [append_assoc] using h
    have halign : align4 ((pre ++ head).length + item.data.length) =
        (pre ++ (head ++ (item.data ++ padding item.data.length))).length := by
      simp only [length_append, hhead, length_writeHead, padding, length_replicate, align4]
      omega
    have hrecord := parseRecord_writeHead ino 1 mtime hpre hitem.mode hitem.size hitem.length
      hitem.valid (item.data ++ padding item.data.length ++ post)
    rw [hwrite]
    rw [← append_assoc (writeHead _ _ _ _ _ _)] at hrecord
    refine ⟨_, hrecord, rfl, ?_⟩
    simp only [addRecord, bind_eq_ok, ensure_eq_ok]
    refine ⟨_, hitem.path, (), ?_, (), ?_, ?_⟩
    · simp only [length_append, hhead]
      omega
    · rw [← hhead, halign]
      simp only [length_append]
      omega
    · rw [if_neg (mt hitem.isDir.mp hdir), ← hhead, halign, hslice, addItem, if_neg hdir]
      rfl

/-- The trailer ends the archive. -/
theorem parse_writeTrailer (hpre : pre.length % 4 = 0) (entries : List InitrdEntry) :
    parseRecords (pre ++ writeTrailer ino) entries pre.length = .ok entries := by
  have hrecord : parseRecord (pre ++ (writeTrailer ino ++ [])) pre.length =
      .ok ⟨0, 0, ascii "TRAILER!!!", (pre ++ writeTrailer ino).length⟩ :=
    parseRecord_writeHead ino 1 0 hpre (by decide) (by decide) (by decide) (by decide +kernel) []
  rw [append_nil] at hrecord
  have hlength : (writeTrailer ino).length = 124 := by
    rw [writeTrailer, length_writeHead]
    decide
  rw [parseRecords_eq, if_neg (by rw [length_append, hlength, cpioHeaderLen]; omega), hrecord]
  rfl

/-- **The records of a list of items are read back.** -/
theorem parseRecords_packItems (hpre : pre.length % 4 = 0) (hitems : ∀ item ∈ items, Readable item)
    (entries : List InitrdEntry) :
    parseRecords (pre ++ packItems ino items) entries pre.length =
      .ok (items.foldl addItem entries) := by
  induction items generalizing ino pre entries with
  | nil => exact parse_writeTrailer ino hpre entries
  | cons item items ih =>
    rw [packItems, foldl_cons]
    obtain ⟨r, hrecord, hname, hadd⟩ := parse_writeItem ino hpre (hitems item mem_cons_self)
      entries (packItems (ino + 1) items)
    have hpre' : (pre ++ writeItem ino item).length % 4 = 0 := by
      have hitem := length_writeItem ino item
      rw [length_append]
      omega
    have hrest : parseRecords (pre ++ writeItem ino item ++ packItems (ino + 1) items)
        (addItem entries item) (pre ++ writeItem ino item).length =
        .ok (items.foldl addItem (addItem entries item)) :=
      ih _ hpre' (fun item' hmem => hitems item' (mem_cons_of_mem _ hmem)) _
    have hlong : cpioHeaderLen ≤ (writeItem ino item).length := by
      rw [writeItem]
      split_ifs
      all_goals
        simp only [length_append, length_writeHead, align4]
        omega
    rw [parseRecords_eq, if_neg (by simp only [length_append]; omega), hrecord]
    change (if r.name = _ then _ else _) = _
    rw [if_neg (by rw [hname]; exact (hitems item mem_cons_self).notTrailer), hadd]
    rw [append_assoc] at hrest
    exact hrest

end Items

/-! ### The entries of a list of items -/

/-- The entries that a list of items gives: its files, and every directory once. -/
structure Unpacked (items : List Item) (entries : List InitrdEntry) : Prop where
  files : files entries = (items.filter (!·.isDir)).map Item.fileEntry
  nodup : (directoryPaths entries).Nodup
  directories : ∀ q, q ∈ directoryPaths entries ↔ q = initrdRoot ∨
    ∃ item ∈ items, q ∈ parents item.entryPath ∨ item.isDir = true ∧ q = item.entryPath

theorem Unpacked.addItem (h : Unpacked items entries) (item : Item) :
    Unpacked (items ++ [item]) (addItem entries item) := by
  have hparents (q : List UInt8) :
      q ∈ directoryPaths (ensureParentDirectories entries item.entryPath) ↔
        q = initrdRoot ∨ (∃ item ∈ items, q ∈ parents item.entryPath ∨
          item.isDir = true ∧ q = item.entryPath) ∨ q ∈ parents item.entryPath := by
    rw [mem_directoryPaths_ensureParentDirectories, h.directories, or_assoc]
  have hsplit (q : List UInt8) : (∃ item' ∈ items ++ [item], q ∈ parents item'.entryPath ∨
      item'.isDir = true ∧ q = item'.entryPath) ↔
      (∃ item ∈ items, q ∈ parents item.entryPath ∨ item.isDir = true ∧ q = item.entryPath) ∨
        (q ∈ parents item.entryPath ∨ item.isDir = true ∧ q = item.entryPath) := by
    simp only [mem_append, mem_singleton, or_and_right, exists_or, exists_eq_left]
  by_cases hdir : item.isDir = true
  · rw [Fs.addItem, if_pos hdir]
    refine ⟨?_, ?_, fun q => ?_⟩
    · rw [files_pushDirectory, files_ensureParentDirectories, h.files]
      simp [hdir]
    · exact nodup_directoryPaths_pushDirectory (nodup_directoryPaths_ensureParentDirectories h.nodup)
    · rw [mem_directoryPaths_pushDirectory, hparents, hsplit]
      simp only [hdir, true_and, or_assoc]
  · have hpaths : directoryPaths (ensureParentDirectories entries item.entryPath ++
        [item.fileEntry]) = directoryPaths (ensureParentDirectories entries item.entryPath) := by
      simp [directoryPaths, Item.fileEntry]
    have hfiles : Fs.files (ensureParentDirectories entries item.entryPath ++ [item.fileEntry]) =
        Fs.files (ensureParentDirectories entries item.entryPath) ++ [item.fileEntry] := by
      simp [Fs.files, Item.fileEntry]
    rw [Fs.addItem, if_neg hdir]
    refine ⟨?_, ?_, fun q => ?_⟩
    · rw [hfiles, files_ensureParentDirectories, h.files]
      simp [hdir]
    · rw [hpaths]
      exact nodup_directoryPaths_ensureParentDirectories h.nodup
    · rw [hpaths, hparents, hsplit]
      simp only [hdir, Bool.false_eq_true, false_and, or_false]

theorem Unpacked.foldl (h : Unpacked items entries) (more : List Item) :
    Unpacked (items ++ more) (more.foldl Fs.addItem entries) := by
  induction more generalizing items entries with
  | nil => rwa [append_nil]
  | cons item more ih =>
    rw [foldl_cons, append_cons]
    exact ih (h.addItem item)

theorem unpacked_root : Unpacked [] (pushDirectory [] initrdRoot defaultDirectoryMode) := by
  refine ⟨rfl, by decide, fun q => ?_⟩
  rw [mem_directoryPaths_pushDirectory]
  simp [directoryPaths]

/-! ### The paths of a tree -/

/-- What holds of the items of a tree. -/
structure InTree (item : Item) : Prop where
  ne_nil : item.relPath ≠ []
  ne_dot : item.relPath ≠ ascii "."
  valid : Utf8.valid item.relPath = true
  last : item.relPath.getLast? ≠ some slash
  backslash : 0x5c ∉ item.relPath
  dots : containsPair 0x2e 0x2e item.relPath = false
  mode : item.mode < 2 ^ 32
  isDir : item.mode &&& fileTypeMask = fileTypeDirectory ↔ item.isDir = true
  size : item.data.length < 2 ^ 32

theorem ValidName.ne_append (h : ValidName name) (q t : List UInt8) :
    name ≠ q ++ Fs.slash :: t := by
  rintro rfl
  exact h.slash (by simp)

theorem ValidName.inTree (h : ValidName name) (hmode : mode < 2 ^ 32)
    (hdir : mode &&& fileTypeMask = fileTypeDirectory ↔ isDir = true) (mtime : ℤ)
    (hdata : data.length < 2 ^ 32) :
    InTree ⟨name, isDir, mode, mtime, data⟩ where
  ne_nil := h.ne_nil
  ne_dot := h.ne_dot
  valid := h.valid
  last hlast := h.slash (mem_of_getLast? hlast)
  backslash := h.backslash
  dots := h.dots
  mode := hmode
  isDir := hdir
  size := hdata

theorem InTree.under (hname : ValidName name) (h : InTree item) :
    InTree (item.under name) where
  ne_nil := by simp [Item.under]
  ne_dot hdot := by
    have hmem : slash ∈ ascii "." := by
      rw [← hdot]
      simp [Item.under]
    exact absurd hmem (by decide)
  valid := by
    rw [Item.under, Utf8.valid_append hname.valid, Utf8.valid_cons_of_lt (by decide)]
    exact h.valid
  last := by
    rw [Item.under, getLast?_append_of_ne_nil _ (by simp), getLast?_cons]
    cases hlast : item.relPath.getLast? with
    | none => exact absurd (getLast?_eq_none_iff.mp hlast) h.ne_nil
    | some b => exact hlast ▸ h.last
  backslash := by
    have hslash : (0x5c : UInt8) ≠ slash := by decide
    simp [Item.under, hname.backslash, h.backslash, hslash]
  dots := by
    rw [Item.under, containsPair_append_cons (by decide) (by decide), hname.dots, h.dots, Bool.or_self]
  mode := h.mode
  isDir := h.isDir
  size := h.size

namespace Forest

variable {f : Forest} {item : Item}

theorem WellFormed.inTree (hf : f.WellFormed) (hitem : item ∈ f.items) : InTree item := by
  induction f generalizing item with
  | nil => exact absurd hitem not_mem_nil
  | file name mode mtime data rest ih =>
    obtain ⟨hname, -, ⟨hmode, htype⟩, hdata, hrest⟩ := hf
    obtain rfl | hitem := mem_cons.mp hitem
    · refine hname.inTree hmode ?_ mtime hdata
      rw [htype]
      decide
    · exact ih hrest hitem
  | directory name mode mtime children rest ihchildren ihrest =>
    obtain ⟨hname, -, ⟨hmode, htype⟩, hchildren, hrest⟩ := hf
    obtain rfl | hitem := mem_cons.mp hitem
    · exact hname.inTree hmode (iff_of_true htype rfl) mtime (by decide)
    obtain hitem | hitem := mem_append.mp hitem
    · obtain ⟨child, hchild, rfl⟩ := mem_map.mp hitem
      exact (ihchildren hchildren hchild).under hname
    · exact ihrest hrest hitem

/-- The first part of the path of an item is a name at the top. -/
theorem WellFormed.head_mem (hf : f.WellFormed) (hitem : item ∈ f.items) :
    ∃ name ∈ f.names, (split slash item.relPath).head? = some name := by
  induction f generalizing item with
  | nil => exact absurd hitem not_mem_nil
  | file name mode mtime data rest ih =>
    obtain ⟨hname, -, -, -, hrest⟩ := hf
    obtain rfl | hitem := mem_cons.mp hitem
    · exact ⟨name, mem_cons_self, by rw [split_of_notMem hname.slash]; rfl⟩
    · obtain ⟨name', hmem, hhead⟩ := ih hrest hitem
      exact ⟨name', mem_cons_of_mem _ hmem, hhead⟩
  | directory name mode mtime children rest _ ihrest =>
    obtain ⟨hname, -, -, -, hrest⟩ := hf
    obtain rfl | hitem := mem_cons.mp hitem
    · exact ⟨name, mem_cons_self, by rw [split_of_notMem hname.slash]; rfl⟩
    obtain hitem | hitem := mem_append.mp hitem
    · obtain ⟨child, -, rfl⟩ := mem_map.mp hitem
      refine ⟨name, mem_cons_self, ?_⟩
      rw [Item.under, split_append_cons hname.slash]
      rfl
    · obtain ⟨name', hmem, hhead⟩ := ihrest hrest hitem
      exact ⟨name', mem_cons_of_mem _ hmem, hhead⟩

/-- A path that starts with another name is not the path of an item. -/
theorem WellFormed.ne_relPath (hf : f.WellFormed) (hname : name ∉ f.names)
    (hpath : (split slash path).head? = some name) : path ∉ f.items.map (·.relPath) := by
  intro hmem
  obtain ⟨item, hitem, rfl⟩ := mem_map.mp hmem
  obtain ⟨name', hmem, hhead⟩ := hf.head_mem hitem
  rw [hhead, Option.some.injEq] at hpath
  exact hname (hpath ▸ hmem)

theorem map_relPath_under (name : List UInt8) (items : List Item) :
    (items.map (Item.under name)).map (·.relPath) =
      (items.map (·.relPath)).map fun path => name ++ slash :: path := by
  rw [map_map, map_map]
  rfl

/-- The items of a tree have different paths. -/
theorem WellFormed.nodup (hf : f.WellFormed) : (f.items.map (·.relPath)).Nodup := by
  induction f with
  | nil => exact nodup_nil
  | file name mode mtime data rest ih =>
    obtain ⟨hname, hfresh, -, -, hrest⟩ := hf
    refine nodup_cons.mpr ⟨hrest.ne_relPath hfresh ?_, ih hrest⟩
    rw [split_of_notMem hname.slash]
    rfl
  | directory name mode mtime children rest ihchildren ihrest =>
    obtain ⟨hname, hfresh, -, hchildren, hrest⟩ := hf
    rw [items, map_cons, map_append, map_relPath_under]
    refine nodup_cons.mpr ⟨?_, nodup_append.mpr ⟨?_, ihrest hrest, ?_⟩⟩
    · rw [mem_append, not_or]
      refine ⟨fun hmem => ?_, hrest.ne_relPath hfresh (by rw [split_of_notMem hname.slash]; rfl)⟩
      obtain ⟨path, -, hpath⟩ := mem_map.mp hmem
      exact absurd (congrArg List.length hpath) (by simp)
    · refine (ihchildren hchildren).map fun path path' heq => ?_
      exact List.cons.inj (append_cancel_left heq) |>.2
    · rintro path hmem path' hmem' rfl
      obtain ⟨path, -, rfl⟩ := mem_map.mp hmem
      exact hrest.ne_relPath hfresh (by rw [split_append_cons hname.slash]; rfl) hmem'

/-- What a path is below is a directory of the tree. -/
theorem WellFormed.parent_mem (hf : f.WellFormed) (hitem : item ∈ f.items)
    (hpath : item.relPath = q ++ slash :: t) :
    ∃ parent ∈ f.items, parent.isDir = true ∧ parent.relPath = q := by
  induction f generalizing item q with
  | nil => exact absurd hitem not_mem_nil
  | file name mode mtime data rest ih =>
    obtain ⟨hname, -, -, -, hrest⟩ := hf
    obtain rfl | hitem := mem_cons.mp hitem
    · exact absurd hpath (hname.ne_append q t)
    · obtain ⟨parent, hmem, hparent⟩ := ih hrest hitem hpath
      exact ⟨parent, mem_cons_of_mem _ hmem, hparent⟩
  | directory name mode mtime children rest ihchildren ihrest =>
    obtain ⟨hname, -, -, hchildren, hrest⟩ := hf
    obtain rfl | hitem := mem_cons.mp hitem
    · exact absurd hpath (hname.ne_append q t)
    obtain hitem | hitem := mem_append.mp hitem
    · obtain ⟨child, hchild, rfl⟩ := mem_map.mp hitem
      -- The parent is the directory itself, or is below it.
      rcases append_eq_append_iff.mp hpath with ⟨back, rfl, hback⟩ | ⟨back, rfl, hback⟩
      · cases back with
        | nil => exact ⟨_, mem_cons_self, rfl, (append_nil name).symm⟩
        | cons b back =>
          obtain ⟨rfl, hchildPath⟩ := List.cons.inj hback
          obtain ⟨parent, hmem, hdir, rfl⟩ := ihchildren hchildren hchild hchildPath
          refine ⟨parent.under name, ?_, hdir, rfl⟩
          exact mem_cons_of_mem _ (mem_append_left _ (mem_map_of_mem hmem))
      · cases back with
        | nil => exact ⟨_, mem_cons_self, rfl, append_nil q⟩
        | cons b back =>
          obtain ⟨rfl, -⟩ := List.cons.inj hback
          exact absurd rfl (hname.ne_append q back)
    · obtain ⟨parent, hmem, hparent⟩ := ihrest hrest hitem hpath
      exact ⟨parent, mem_cons_of_mem _ (mem_append_right _ hmem), hparent⟩

end Forest

/-! ### The round trip -/

/-- An item with the path that the script gives to it. -/
def Item.staged (item : Item) : Item := { item with relPath := ascii "./" ++ item.relPath }

section Staged

variable {item : Item}

theorem entryPath_staged (item : Item) :
    item.staged.entryPath = initrdRoot ++ slash :: item.relPath := rfl

theorem InTree.stagedPath (h : InTree item) : stagedPath item = some item.staged := by
  have hmap : (item.relPath.map fun b => if b = 0x5c then slash else b) = item.relPath := by
    refine (map_congr_left fun b hb => ?_).trans (map_id _)
    have hne : b ≠ 0x5c := fun heq => h.backslash (heq ▸ hb)
    rw [if_neg hne]
    rfl
  rw [Fs.stagedPath, hmap, if_neg h.ne_dot]
  rfl

theorem InTree.readable (h : InTree item) (hlength : item.relPath.length + 3 < 2 ^ 32) :
    Readable item.staged where
  mode := h.mode
  isDir := h.isDir
  size := h.size
  length := by
    have hdot : (ascii "./").length = 2 := by decide
    rw [Item.staged, length_append, hdot]
    omega
  valid := by
    rw [Item.staged, Utf8.valid_append (by decide +kernel)]
    exact h.valid
  notTrailer heq := by
    have hhead : some 0x2e = (ascii "TRAILER!!!").head? := congrArg List.head? heq
    exact absurd hhead (by decide)
  path := by
    -- The script's path starts with a dot and does not end with a slash, so nothing is trimmed.
    have hlast : (ascii "./" ++ item.relPath).getLast? ≠ some slash := by
      rw [getLast?_append_of_ne_nil _ h.ne_nil]
      exact h.last
    have hdrop : (ascii "./" ++ item.relPath).dropWhile (· == slash) =
        ascii "./" ++ item.relPath := rfl
    have hstrip : stripPrefixOr (ascii "./") (trimMatches slash (ascii "./" ++ item.relPath)) =
        item.relPath := by
      rw [trimMatches, hdrop, trimEndMatches_of_getLast? hlast, stripPrefixOr,
        if_pos (List.isPrefixOf_iff_prefix.mpr (prefix_append _ _)), drop_left]
    rw [normalizeArchivePath, Item.staged, hstrip, if_neg (not_or.mpr ⟨h.ne_nil, h.ne_dot⟩), h.dots,
      if_neg nofun, append_assoc]
    rfl

end Staged

section RoundTrip

variable {f : Forest}

theorem Forest.WellFormed.stagedItems_perm (hf : f.WellFormed) :
    (stagedItems f).Perm (f.items.map Item.staged) := by
  have hmap : f.items.filterMap stagedPath = f.items.map Item.staged := by
    rw [← filterMap_eq_map]
    exact filterMap_congr fun item hitem => (hf.inTree hitem).stagedPath
  rw [stagedItems, hmap]
  exact mergeSort_perm _ _

theorem Forest.WellFormed.mem_stagedItems (hf : f.WellFormed) :
    item ∈ stagedItems f ↔ ∃ item' ∈ f.items, item'.staged = item := by
  rw [hf.stagedItems_perm.mem_iff, mem_map]

variable {entries : List InitrdEntry}

/-- The directories of the tree and the root, and no others. -/
theorem Unpacked.mem_directoryPaths (hf : f.WellFormed) (h : Unpacked (stagedItems f) entries) :
    q ∈ directoryPaths entries ↔ q = initrdRoot ∨
      ∃ item ∈ f.items, item.isDir = true ∧ q = initrdRoot ++ slash :: item.relPath := by
  rw [h.directories]
  refine or_congr_right ⟨?_, ?_⟩
  · rintro ⟨staged, hstaged, hq⟩
    obtain ⟨item, hitem, rfl⟩ := hf.mem_stagedItems.mp hstaged
    rw [entryPath_staged] at hq
    obtain hq | ⟨hdir, rfl⟩ := hq
    · obtain ⟨hlength, t, hpath⟩ := mem_parents.mp hq
      rcases append_eq_append_iff.mp hpath with ⟨back, rfl, hback⟩ | ⟨back, hroot, -⟩
      · cases back with
        | nil => simp at hlength
        | cons b back =>
          obtain ⟨rfl, hchild⟩ := List.cons.inj hback
          obtain ⟨parent, hmem, hdir, rfl⟩ := hf.parent_mem hitem hchild
          exact ⟨parent, hmem, hdir, rfl⟩
      · rw [hroot, length_append] at hlength
        omega
    · exact ⟨item, hitem, hdir, rfl⟩
  · rintro ⟨item, hitem, hdir, rfl⟩
    exact ⟨item.staged, hf.mem_stagedItems.mpr ⟨item, hitem, rfl⟩, .inr ⟨hdir, rfl⟩⟩

theorem Unpacked.mem_files (hf : f.WellFormed) (h : Unpacked (stagedItems f) entries) :
    e ∈ Fs.files entries ↔ ∃ item ∈ f.items, item.isDir = false ∧
      e = ⟨initrdRoot ++ slash :: item.relPath, .file, item.mode, item.data⟩ := by
  rw [h.files]
  simp only [mem_map, mem_filter, hf.mem_stagedItems, Bool.not_eq_true']
  constructor
  · rintro ⟨-, ⟨⟨item, hitem, rfl⟩, hdir⟩, rfl⟩
    exact ⟨item, hitem, hdir, rfl⟩
  · rintro ⟨item, hitem, hdir, rfl⟩
    exact ⟨item.staged, ⟨⟨item, hitem, rfl⟩, hdir⟩, rfl⟩

/-- Every path is there once. -/
theorem Unpacked.nodup_paths (hf : f.WellFormed) (h : Unpacked (stagedItems f) entries) :
    (entries.map (·.path)).Nodup := by
  have hinj {a b : Item} (ha : a ∈ f.items) (hb : b ∈ f.items) (heq : a.relPath = b.relPath) : a = b :=
    inj_on_of_nodup_map hf.nodup ha hb heq
  have hfiles : ((Fs.files entries).map (·.path)).Nodup := by
    rw [h.files, map_map]
    have hperm := (hf.stagedItems_perm.filter (!·.isDir)).map (InitrdEntry.path ∘ Item.fileEntry)
    refine hperm.nodup_iff.mpr ?_
    refine List.Nodup.map_on (fun a hmemA b hmemB heq => ?_) ?_
    · obtain ⟨a, ha, rfl⟩ := mem_map.mp (mem_of_mem_filter hmemA)
      obtain ⟨b, hb, rfl⟩ := mem_map.mp (mem_of_mem_filter hmemB)
      rw [hinj ha hb (List.cons.inj (append_cancel_left heq)).2]
    · refine List.Nodup.filter _ (List.Nodup.of_map (·.relPath) ?_)
      rw [map_map]
      have hcomp : (f.items.map ((·.relPath) ∘ Item.staged)) =
          (f.items.map (·.relPath)).map (ascii "./" ++ ·) := by
        rw [map_map]
        rfl
      rw [hcomp]
      exact hf.nodup.map fun a b heq => append_cancel_left heq
  have hperm : (Fs.files entries ++ entries.filter (·.kind == .directory)).Perm entries := by
    have hkind : (fun e : InitrdEntry => e.kind == .directory) = fun e => !(e.kind == .file) := by
      funext e
      cases e.kind <;> rfl
    rw [hkind]
    exact filter_append_perm _ _
  refine (hperm.map (·.path)).nodup_iff.mp ?_
  rw [map_append]
  refine nodup_append.mpr ⟨hfiles, h.nodup, ?_⟩
  rintro path hfile path' hdir rfl
  obtain ⟨e, he, rfl⟩ := mem_map.mp hfile
  obtain ⟨item, hitem, hnotDir, rfl⟩ := (h.mem_files hf).mp he
  rcases (h.mem_directoryPaths hf).mp hdir with heq | ⟨item', hitem', hisDir, heq⟩
  · exact absurd (congrArg List.length heq) (by simp)
  · rw [hinj hitem hitem' (List.cons.inj (append_cancel_left heq)).2, hisDir] at hnotDir
    cases hnotDir

end RoundTrip

/-- **The kernel reads back the tree that the script packs**, if the paths are short enough for the
size field of a record. -/
theorem parse_packCpio (stage : Stage)
    (hshort : ∀ item ∈ stage.contents.items, item.relPath.length + 3 < 2 ^ 32) :
    ∃ entries, parseNewcArchive (packCpio stage) = .ok entries ∧
      (entries.map (·.path)).Nodup ∧
      (∀ path, (∃ e ∈ entries, e.kind = .directory ∧ e.path = path) ↔ path = initrdRoot ∨
        ∃ item ∈ stage.contents.items, item.isDir = true ∧
          path = initrdRoot ++ slash :: item.relPath) ∧
      ∀ e, e ∈ entries ∧ e.kind = .file ↔ ∃ item ∈ stage.contents.items, item.isDir = false ∧
        e = ⟨initrdRoot ++ slash :: item.relPath, .file, item.mode, item.data⟩ := by
  have hf := stage.wellFormed
  have hreadable : ∀ item ∈ stagedItems stage.contents, Readable item := by
    intro staged hstaged
    obtain ⟨item, hitem, rfl⟩ := hf.mem_stagedItems.mp hstaged
    exact (hf.inTree hitem).readable (hshort item hitem)
  have hparse : parseNewcArchive ([] ++ packCpio stage) = .ok ((stagedItems stage.contents).foldl
      addItem (pushDirectory [] initrdRoot defaultDirectoryMode)) :=
    parseRecords_packItems 1 rfl hreadable _
  have hunpacked := unpacked_root.foldl (stagedItems stage.contents)
  refine ⟨_, hparse, hunpacked.nodup_paths hf, fun path => ?_, fun e => ?_⟩
  · rw [← mem_directoryPaths]
    exact hunpacked.mem_directoryPaths hf
  · rw [← mem_files]
    exact hunpacked.mem_files hf

/-- A directory with one file in it, a program. -/
def smallStage : Stage where
  contents := .directory (ascii "bin") 0o040755 0
    (.file (ascii "init") 0o100755 0 [0x7f, 0x45, 0x4c, 0x46, 0xff] .nil) .nil
  wellFormed := by
    have hname {name : List UInt8} (h : name = ascii "bin" ∨ name = ascii "init") :
        ValidName name := by
      rcases h with rfl | rfl <;> constructor <;> decide +kernel
    exact ⟨hname (.inl rfl), not_mem_nil, by decide,
      ⟨hname (.inr rfl), not_mem_nil, by decide, by decide, trivial⟩, trivial⟩

theorem parse_packCpio_small :
    (∀ item ∈ smallStage.contents.items, item.relPath.length + 3 < 2 ^ 32) ∧
      ∃ entries, parseNewcArchive (packCpio smallStage) = .ok entries ∧
        ∃ e ∈ entries, e.kind = .file ∧ e.data = [0x7f, 0x45, 0x4c, 0x46, 0xff] := by
  have hshort : ∀ item ∈ smallStage.contents.items, item.relPath.length + 3 < 2 ^ 32 := by
    simp only [smallStage, Forest.items, forall_mem_cons, forall_mem_append,
      forall_mem_map, not_mem_nil, false_imp_iff, implies_true, and_true]
    decide
  obtain ⟨entries, hparse, -, -, hfiles⟩ := parse_packCpio smallStage hshort
  have hitem : ⟨ascii "bin/init", false, 0o100755, 0, [0x7f, 0x45, 0x4c, 0x46, 0xff]⟩ ∈
      smallStage.contents.items := mem_cons_of_mem _ mem_cons_self
  obtain ⟨hmem, hkind⟩ := (hfiles _).mpr ⟨_, hitem, rfl, rfl⟩
  exact ⟨hshort, entries, hparse, _, hmem, hkind, rfl⟩

theorem validName_replicate (hn : 1 < n) : ValidName (List.replicate n 0x61) where
  ne_nil h := by
    have hlength := congrArg List.length h
    rw [length_replicate, length_nil] at hlength
    omega
  ne_dot h := by
    have hlength := congrArg List.length h
    rw [length_replicate] at hlength
    exact absurd hn (hlength ▸ by decide)
  valid := by
    clear hn
    induction n with
    | zero => rw [replicate_zero, Utf8.valid]
    | succ n ih => rw [replicate_succ, Utf8.valid_cons_of_lt (by decide), ih]
  slash hmem := absurd (eq_of_mem_replicate hmem) (by decide)
  backslash hmem := absurd (eq_of_mem_replicate hmem) (by decide)
  nul hmem := absurd (eq_of_mem_replicate hmem) (by decide)
  dots := containsPair_of_notMem fun hmem => absurd (eq_of_mem_replicate hmem) (by decide)

/-- The size field of a record has 32 bits: a tree with a very long path is packed into an archive
that the kernel does not accept. -/
theorem longName_unreadable : ∃ stage : Stage, ∀ entries,
    parseNewcArchive (packCpio stage) ≠ .ok entries := by
  obtain ⟨n, hn, hzero⟩ : ∃ n, 1 < n ∧ (2 + n + 1) % 2 ^ 32 = 0 := ⟨2 ^ 32 - 3, by decide, by decide⟩
  let stage : Stage := ⟨.file (List.replicate n 0x61) 0o100644 0 [] .nil,
    validName_replicate hn, not_mem_nil, by decide, by decide, trivial⟩
  refine ⟨stage, fun entries h => ?_⟩
  have hitem : InTree ⟨List.replicate n 0x61, false, 0o100644, 0, []⟩ :=
    stage.wellFormed.inTree mem_cons_self
  have hstaged : stagedItems stage.contents =
      [Item.staged ⟨List.replicate n 0x61, false, 0o100644, 0, []⟩] := by
    rw [stagedItems]
    simp only [stage, Forest.items, filterMap_cons, hitem.stagedPath, filterMap_nil,
      mergeSort_singleton]
  rw [parseNewcArchive, packCpio, hstaged, parseRecords_eq] at h
  split_ifs at h with hend
  obtain ⟨r, hrecord, -⟩ := bind_eq_ok.mp h
  rw [packItems, writeItem, if_neg nofun, append_assoc] at hrecord
  refine parseRecord_writeHead_ne_ok _ _ _ ?_ _ _ hrecord
  have hdot : (ascii "./").length = 2 := by decide
  rw [Item.staged, length_append, hdot, length_replicate, hzero]

end Hxnu.Fs
