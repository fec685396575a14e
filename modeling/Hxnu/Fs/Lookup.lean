import Hxnu.Fs.Cpio
import Hxnu.Fs.Vfs

/-!
# Looking up the files of the ramdisk

The archive reader cleans the names of an archive in one way, and the virtual file system normalises
the paths it looks up in another. A path of the archive is looked up under its normal form, without
empty parts and without `.` parts, so a file whose path is not normal is found only if there happens to
be an entry for the normal form.

## Main definitions

* `normalForm`: a path without empty parts and `.` parts.
* `ArchivePath`: the paths that the archive reader makes.
* `lexical`, `Escapes`, `IsNormal`: what normalising a path is.

## Main results

* `ArchivePath.normalizePath`, `Vfs.lookup_archivePath`: such a path is looked up by its normal form.
* `archivePath_of_parse`: the paths of the files in an archive.
* `normalizePath_lexical`: normal paths, and that the path of a node leads to the node.
* `lookup_file_iff`: which files are found.
-/

namespace Hxnu.Fs

open Text Fallible List

variable {entry : InitrdEntry} {text : List UInt8}

/-! ### Normal forms -/

/-- The parts of a path that `normalize_path` keeps. -/
def isSegment (segment : List UInt8) : Bool := decide (segment ≠ [] ∧ segment ≠ ascii ".")

/-- A path without empty parts and without `.` parts. -/
def normalForm (path : List UInt8) : List UInt8 :=
  joinSegments ((split slash path).filter isSegment)

theorem foldlM_pushSegment {segments : List (List UInt8)} (h : ascii ".." ∉ segments)
    (acc : List (List UInt8)) :
    segments.foldlM pushSegment acc = some (acc ++ segments.filter isSegment) := by
  induction segments generalizing acc with
  | nil => simp
  | cons segment segments ih =>
    obtain ⟨hne, hrest⟩ := not_or.mp (mem_cons.not.mp h)
    rw [foldlM_cons, pushSegment]
    by_cases hskip : segment = [] ∨ segment = ascii "."
    · have hnot : isSegment segment = false := by
        rw [isSegment, decide_eq_false_iff_not, not_and_or, not_ne_iff, not_ne_iff]
        exact hskip
      rw [if_pos hskip, filter_cons_of_neg (hnot.trans_ne nofun)]
      exact ih hrest acc
    · have hkeep : isSegment segment = true := decide_eq_true (not_or.mp hskip)
      rw [if_neg hskip, if_neg fun heq => hne heq.symm, filter_cons_of_pos hkeep]
      simpa using ih hrest (acc ++ [segment])

/-- A path that does not go up is normalised to its normal form. -/
theorem normalizePath_eq {path : List UInt8} (hhead : path.head? = some slash)
    (hdots : ascii ".." ∉ split slash path) : normalizePath path = some (normalForm path) := by
  rw [normalizePath, if_pos hhead, foldlM_pushSegment hdots]
  rfl

/-- A part of a path that names something. -/
def isOrdinary (segment : List UInt8) : Bool := isSegment segment && segment != ascii ".."

theorem isOrdinary_iff {segment : List UInt8} : isOrdinary segment = true ↔
    ¬ (segment = [] ∨ segment = ascii ".") ∧ segment ≠ ascii ".." := by
  simp [isOrdinary, isSegment]

/-- The parts of a path without empty, `.` and `..` parts. -/
def OrdinaryParts (segments : List (List UInt8)) : Prop :=
  ∀ segment ∈ segments, isOrdinary segment = true ∧ slash ∉ segment

section Ordinary

variable {first : List UInt8} {rest segments : List (List UInt8)}

theorem OrdinaryParts.notMem (h : OrdinaryParts segments) : ascii ".." ∉ segments :=
  fun hmem => absurd (h _ hmem).1 (by decide)

theorem OrdinaryParts.split (h : OrdinaryParts (first :: rest)) :
    split slash (joinSegments (first :: rest)) = [] :: first :: rest :=
  split_flatMap_cons fun segment hmem => (h segment hmem).2

/-- A path of ordinary parts is normalised to itself. -/
theorem OrdinaryParts.normalizePath (h : OrdinaryParts segments) :
    normalizePath (joinSegments segments) = some (joinSegments segments) := by
  cases segments with
  | nil => rfl
  | cons first rest =>
    have hkeep : ∀ segment ∈ first :: rest, isSegment segment = true := fun segment hmem =>
      (Bool.and_eq_true_iff.mp (h segment hmem).1).1
    have hempty : ¬ isSegment [] = true := by decide
    have hdots : ascii ".." ∉ Text.split slash (joinSegments (first :: rest)) := by
      rw [h.split]
      exact not_mem_cons_of_ne_of_not_mem (by decide) h.notMem
    rw [normalizePath_eq (head?_of_split h.split) hdots, normalForm, h.split,
      filter_cons_of_neg hempty, filter_eq_self.mpr hkeep]

end Ordinary

/-! ### The paths of an archive -/

/-- A path as the archive reader makes it: `/initrd`, or a path below it that does not go up. -/
def ArchivePath (path : List UInt8) : Prop :=
  ∃ segments, split slash path = [] :: ascii "initrd" :: segments ∧ ascii ".." ∉ segments

theorem archivePath_root : ArchivePath initrdRoot := ⟨[], by decide, not_mem_nil⟩

theorem archivePath_append (h : containsPair 0x2e 0x2e t = false) :
    ArchivePath (initrdRoot ++ slash :: t) := by
  refine ⟨split slash t, ?_, fun hmem => ?_⟩
  · have hsplit : split slash (ascii "initrd" ++ slash :: t) = ascii "initrd" :: split slash t :=
      split_append_cons (by decide) t
    rw [← hsplit, ← split_cons_self]
    rfl
  · have hcontains : containsPair 0x2e 0x2e t = true :=
      containsPair_of_infix (infix_of_mem_split hmem)
    rw [h] at hcontains
    cases hcontains

section ArchivePath

variable {path : List UInt8}

theorem ArchivePath.normalizePath (h : ArchivePath path) :
    normalizePath path = some (normalForm path) := by
  obtain ⟨segments, hsplit, hdots⟩ := h
  refine normalizePath_eq (head?_of_split hsplit) ?_
  rw [hsplit]
  simp only [mem_cons, hdots, or_false]
  decide

theorem OrdinaryParts.archivePath (h : OrdinaryParts (ascii "initrd" :: segments)) :
    ArchivePath (joinSegments (ascii "initrd" :: segments)) :=
  ⟨segments, h.split, fun hmem => h.notMem (mem_cons_of_mem _ hmem)⟩

/-- The normal form of a path of an archive, made of the parts that are kept. -/
theorem ArchivePath.exists_segments (h : ArchivePath path) : ∃ segments : List (List UInt8),
    normalForm path = joinSegments (ascii "initrd" :: segments) ∧
      OrdinaryParts (ascii "initrd" :: segments) := by
  obtain ⟨segments, hsplit, hdots⟩ := h
  have hroot : isSegment (ascii "initrd") = true := by decide
  have hempty : ¬ isSegment [] = true := by decide
  refine ⟨segments.filter isSegment, ?_, forall_mem_cons.mpr ⟨by decide, fun segment hmem => ?_⟩⟩
  · rw [normalForm, hsplit, filter_cons_of_neg hempty, filter_cons_of_pos hroot]
  · obtain ⟨hmem, hkeep⟩ := mem_filter.mp hmem
    have hpart : segment ∈ split slash path := by
      rw [hsplit]
      exact mem_cons_of_mem _ (mem_cons_of_mem _ hmem)
    refine ⟨Bool.and_eq_true_iff.mpr ⟨hkeep, ?_⟩, notMem_of_mem_split hpart⟩
    exact bne_iff_ne.mpr fun heq => hdots (heq ▸ hmem)

/-- A normal form is a path of an archive again, and is its own normal form. -/
theorem ArchivePath.normalForm (h : ArchivePath path) :
    ArchivePath (normalForm path) ∧ Fs.normalForm (Fs.normalForm path) = Fs.normalForm path := by
  obtain ⟨segments, hform, hparts⟩ := h.exists_segments
  rw [hform]
  exact ⟨hparts.archivePath,
    Option.some.inj (hparts.archivePath.normalizePath.symm.trans hparts.normalizePath)⟩

/-- The normal form of a path of an archive is `/initrd`, or is below it and does not end with a
slash. -/
theorem ArchivePath.normalForm_cases (h : ArchivePath path) : Fs.normalForm path = initrdRoot ∨
    ∃ t b, b ≠ slash ∧ Fs.normalForm path = initrdRoot ++ slash :: (t ++ [b]) := by
  obtain ⟨segments, hform, hparts⟩ := h.exists_segments
  rcases segments.eq_nil_or_concat with rfl | ⟨front, last, rfl⟩
  · exact .inl hform
  · obtain ⟨hord, hslash⟩ := hparts last (by simp)
    obtain ⟨t, b, rfl⟩ := (eq_nil_or_concat last).resolve_left fun hnil =>
      (isOrdinary_iff.mp hord).1 (.inl hnil)
    refine .inr ⟨((front.flatMap (slash :: ·)) ++ slash :: t).tail, b, ?_, ?_⟩
    · rintro rfl
      exact hslash (by simp)
    · have hflat : Fs.normalForm path =
          initrdRoot ++ (front.concat (t.concat b)).flatMap (slash :: ·) := hform
      rw [hflat]
      cases front <;> simp

/-- Below `/initrd` no other file system is asked. -/
theorem resolveNode_normalForm (vfs : Vfs) (h : ArchivePath path) :
    resolveNode vfs (normalForm path) = resolveInitrdNode vfs (normalForm path) := by
  have hunder : isUnder initrdRoot (normalForm path) = true := by
    rcases h.normalForm_cases with heq | ⟨t, b, -, heq⟩
    · rw [heq]
      decide
    · rw [heq, isUnder, Bool.or_eq_true, isPrefixOf_iff_prefix]
      exact .inr ⟨t ++ [b], by simp⟩
  obtain ⟨t, heq⟩ : ∃ t, normalForm path = initrdRoot ++ t := by
    rcases h.normalForm_cases with heq | ⟨t, b, -, heq⟩
    · exact ⟨[], by rw [heq, append_nil]⟩
    · exact ⟨_, heq⟩
  have hother {root : List UInt8} (hroot : root[1]? ≠ initrdRoot[1]?) (hlen : 1 < root.length) :
      isUnder root (normalForm path) = false := by
    rw [isUnder, Bool.or_eq_false_iff, beq_eq_false_iff_ne, Bool.eq_false_iff, ne_eq, ne_eq,
      isPrefixOf_iff_prefix]
    refine ⟨fun hpath => hroot ?_, fun ⟨back, hback⟩ => hroot ?_⟩
    · rw [← hpath, heq]
      rfl
    · have hget := congrArg (·[1]?) (hback.trans heq)
      rwa [append_assoc, List.getElem?_append_left hlen,
        List.getElem?_append_left (by decide)] at hget
  have hne : normalForm path ≠ rootPath :=
    heq.trans_ne nofun
  rw [resolveNode, if_neg hne, hother (by decide) (by decide), if_neg nofun,
    hother (by decide) (by decide), if_neg nofun, if_pos hunder]

theorem normalizeVfsPath_normalForm (h : ArchivePath path) :
    normalizeVfsPath (normalForm path) = .ok (normalForm path) := by
  rcases h.normalForm_cases with heq | ⟨t, b, hb, heq⟩
  · rw [normalizeVfsPath, if_pos (.inl heq), heq]
  · have hlast : (normalForm path).getLast? ≠ some slash := by
      rw [heq, ← cons_append, ← append_assoc, getLast?_concat, ne_eq,
        Option.some.injEq]
      exact hb
    have hprefix : (initrdRoot ++ [slash]).isPrefixOf (normalForm path) = true := by
      rw [List.isPrefixOf_iff_prefix, heq]
      exact ⟨t ++ [b], by simp⟩
    have hnot : ¬ (normalForm path = initrdRoot ∨ normalForm path = initrdRoot ++ [slash]) := by
      rw [heq]
      rintro (habs | habs)
      all_goals exact absurd (congrArg List.length habs) (by simp)
    rw [normalizeVfsPath, if_neg hnot, hprefix, if_neg nofun, trimEndMatches_of_getLast? hlast]

end ArchivePath

/-! ### Lookups -/

/-- The node of an entry. -/
def InitrdEntry.node (path : List UInt8) (entry : InitrdEntry) : VfsNode :=
  ⟨path, .initrd, match entry.kind with
    | .directory => .directory
    | .file => .file, entry.data.length, decide (entry.mode &&& modeExecutableMask ≠ 0)⟩

section Lookup

variable {path : List UInt8} {vfs : Vfs} {entries : List InitrdEntry}

section

variable (hvfs : vfs.initialized = true) (hinitrd : vfs.initrd = some entries)
    (h : ArchivePath path)

include hvfs hinitrd h

/-- **A path of the archive is looked up by its normal form.** -/
theorem Vfs.lookup_archivePath :
    vfs.lookup path = (findEntry entries (normalForm path)).map (·.node (normalForm path)) := by
  rw [Vfs.lookup, if_pos hvfs, h.normalizePath, Option.bind_some, resolveNode_normalForm vfs h,
    resolveInitrdNode, hinitrd]
  simp only [nodeInfo, normalizeVfsPath_normalForm h, Option.map_map]
  rfl

end

theorem readBytes_normalForm (h : ArchivePath path) :
    readBytes entries (normalForm path) = some data ↔
      ∃ entry, findEntry entries (normalForm path) = some entry ∧ entry.kind = .file ∧
        entry.data = data := by
  rw [readBytes, normalizeVfsPath_normalForm h]
  simp only
  cases findEntry entries (normalForm path) with
  | none => simp
  | some entry =>
    simp only [Option.some.injEq, exists_eq_left']
    split_ifs with hkind <;> simp [hkind]

theorem findEntry_eq_some (hnodup : (entries.map (·.path)).Nodup) :
    findEntry entries path = some entry ↔ entry ∈ entries ∧ entry.path = path := by
  rw [findEntry]
  constructor
  · intro hfind
    have hpath := find?_some hfind
    exact ⟨mem_of_find?_eq_some hfind, beq_iff_eq.mp hpath⟩
  · rintro ⟨hmem, rfl⟩
    cases hfind : entries.find? fun e => e.path == entry.path with
    | none => exact absurd (find?_eq_none.mp hfind entry hmem) (by simp)
    | some found =>
      have hpath := find?_some hfind
      rw [inj_on_of_nodup_map hnodup (mem_of_find?_eq_some hfind) hmem
        (beq_iff_eq.mp hpath)]

end Lookup

/-! ### Lexical resolution -/

/-- Below `depth` parts, some first parts go up more often than down. -/
def Escapes (depth : ℕ) (segments : List (List UInt8)) : Prop :=
  ∃ front, front <+: segments ∧ depth + front.countP isOrdinary < front.count (ascii "..")

/-- An ordinary part is pushed, `..` pops one, and the other parts are ignored. -/
def resolveSegment (stack : List (List UInt8)) (segment : List UInt8) : List (List UInt8) :=
  if isOrdinary segment then stack ++ [segment]
  else if segment = ascii ".." then stack.dropLast else stack

/-- The lexical resolution of the parts of a path. -/
def lexical (segments : List (List UInt8)) : List (List UInt8) := segments.foldl resolveSegment []

section Lexical

variable {segment : List UInt8} {segments : List (List UInt8)}

theorem escapes_cons (depth : ℕ) : Escapes depth (segment :: segments) ↔
    ∃ front, front <+: segments ∧
      depth + (front.countP isOrdinary + if isOrdinary segment then 1 else 0) <
        front.count (ascii "..") + if segment == ascii ".." then 1 else 0 := by
  constructor
  · rintro ⟨front, hfront, hlt⟩
    obtain rfl | ⟨front, rfl, hrest⟩ := prefix_cons_iff.mp hfront
    · exact absurd hlt (Nat.not_lt_zero _)
    · exact ⟨front, hrest, by rwa [countP_cons, count_cons] at hlt⟩
  · rintro ⟨front, hfront, hlt⟩
    exact ⟨segment :: front, cons_prefix_cons.mpr ⟨rfl, hfront⟩, by rwa [countP_cons, count_cons]⟩

open Classical in
/-- The loop gives up exactly if the parts go above the root, and resolves them otherwise. -/
theorem foldlM_pushSegment_eq (stack : List (List UInt8)) :
    segments.foldlM pushSegment stack =
      if Escapes stack.length segments then none
      else some (segments.foldl resolveSegment stack) := by
  induction segments generalizing stack with
  | nil =>
    rw [if_neg]
    · rfl
    · rintro ⟨front, hfront, hlt⟩
      rw [prefix_nil.mp hfront] at hlt
      exact Nat.not_lt_zero _ hlt
  | cons segment segments ih =>
    -- each part but `..` at the root leads to a stack with the same outlook
    have hnext (next : List (List UInt8)) (hpush : pushSegment stack segment = some next)
        (hresolve : resolveSegment stack segment = next)
        (hlen : next.length + (if segment == ascii ".." then 1 else 0) =
          stack.length + if isOrdinary segment then 1 else 0) :
        (segment :: segments).foldlM pushSegment stack =
          if Escapes stack.length (segment :: segments) then none
          else some ((segment :: segments).foldl resolveSegment stack) := by
      have hiff : Escapes stack.length (segment :: segments) ↔ Escapes next.length segments :=
        (escapes_cons _).trans (exists_congr fun front => and_congr_right fun _ => by omega)
      simp only [hiff, foldlM_cons, hpush, foldl_cons, hresolve]
      exact ih next
    by_cases hskip : segment = [] ∨ segment = ascii "."
    · have hup : segment ≠ ascii ".." := by
        rintro rfl
        revert hskip
        decide
      have hnot : ¬ isOrdinary segment = true := fun h => (isOrdinary_iff.mp h).1 hskip
      refine hnext stack ?_ ?_ ?_
      · rw [pushSegment, if_pos hskip]
      · rw [resolveSegment, if_neg hnot, if_neg hup]
      · rw [if_neg hnot, if_neg (by simpa using hup)]
    by_cases hup : segment = ascii ".."
    · have hnot : ¬ isOrdinary segment = true := fun h => (isOrdinary_iff.mp h).2 hup
      obtain rfl | hne := eq_or_ne stack []
      · have hescapes : Escapes 0 (segment :: segments) := by
          refine (escapes_cons 0).mpr ⟨[], nil_prefix, ?_⟩
          rw [hup]
          decide
        rw [length_nil, if_pos hescapes, foldlM_cons, pushSegment, if_neg hskip, if_pos hup,
          if_pos rfl]
        rfl
      · have hpos := length_pos_iff.mpr hne
        refine hnext stack.dropLast ?_ ?_ ?_
        · rw [pushSegment, if_neg hskip, if_pos hup, if_neg hne]
        · rw [resolveSegment, if_neg hnot, if_pos hup]
        · rw [if_neg hnot, if_pos (by simpa using hup), length_dropLast]
          omega
    · have hord : isOrdinary segment = true := isOrdinary_iff.mpr ⟨hskip, hup⟩
      refine hnext (stack ++ [segment]) ?_ ?_ ?_
      · rw [pushSegment, if_neg hskip, if_neg hup]
      · rw [resolveSegment, if_pos hord]
      · rw [if_pos hord, if_neg (by simpa using hup), length_append, length_singleton]

/-- What is left are ordinary parts. -/
theorem mem_foldl_resolveSegment (stack : List (List UInt8)) :
    segment ∈ segments.foldl resolveSegment stack →
      segment ∈ stack ∨ segment ∈ segments ∧ isOrdinary segment = true := by
  induction segments generalizing stack with
  | nil => exact .inl
  | cons first segments ih =>
    intro hmem
    obtain hmem | ⟨hmem, hord⟩ := ih _ hmem
    · rw [resolveSegment] at hmem
      split_ifs at hmem with hord
      · obtain hmem | hmem := mem_append.mp hmem
        · exact .inl hmem
        · rw [mem_singleton.mp hmem]
          exact .inr ⟨mem_cons_self, hord⟩
      · exact .inl (mem_of_mem_dropLast hmem)
      · exact .inl hmem
    · exact .inr ⟨mem_cons_of_mem first hmem, hord⟩

/-- The root itself, or a path without empty, `.` and `..` parts and with no slash at its end. -/
def IsNormal (path : List UInt8) : Prop :=
  path.head? = some slash ∧ (path = rootPath ∨
    (∀ segment ∈ (split slash path).tail, isOrdinary segment = true) ∧ path.getLast? ≠ some slash)

theorem OrdinaryParts.isNormal (h : OrdinaryParts segments) : IsNormal (joinSegments segments) := by
  obtain rfl | ⟨front, last, rfl⟩ := eq_nil_or_concat segments
  · exact ⟨rfl, .inl rfl⟩
  have hjoin : joinSegments (front.concat last) = (front ++ [last]).flatMap (slash :: ·) := by
    rw [joinSegments, concat_eq_append, if_neg (by simp)]
  rw [concat_eq_append] at h
  rw [IsNormal, hjoin, split_flatMap_cons fun segment hmem => (h segment hmem).2]
  refine ⟨?_, .inr ⟨fun segment hmem => (h segment hmem).1, ?_⟩⟩
  · cases front <;> rfl
  · obtain ⟨hord, hslash⟩ := h last (by simp)
    rw [flatMap_append, flatMap_singleton, getLast?_append_of_ne_nil _ (cons_ne_nil _ _),
      getLast?_cons_of_ne_nil fun hnil => (isOrdinary_iff.mp hord).1 (.inl hnil)]
    exact fun hlast => hslash (mem_of_getLast? hlast)

/-- The node of a path has this path, or is found in the ramdisk. -/
theorem path_of_resolveNode (hhead : path.head? = some slash)
    (h : resolveNode vfs path = some node) :
    node.path = path ∨ path ≠ rootPath ∧ node.path = initrdRoot ++ path ∧
      resolveInitrdNode vfs (initrdRoot ++ path) = some node := by
  have hinitrd {p : List UInt8} (hp : resolveInitrdNode vfs p = some node) : node.path = p := by
    rw [resolveInitrdNode] at hp
    split at hp
    · cases hp
    · obtain ⟨info, -, rfl⟩ := Option.map_eq_some_iff.mp hp
      rfl
  have hbackend {backend : Backend} {mount : VfsMountKind}
      (hp : resolveBackendNode backend mount path = some node) : node.path = path := by
    obtain ⟨kind, -, rfl⟩ := Option.map_eq_some_iff.mp hp
    rfl
  rw [resolveNode, if_pos hhead, append_nil] at h
  split_ifs at h with hroot
  · exact .inl ((congrArg VfsNode.path (Option.some.inj h)).symm.trans hroot.symm)
  · exact .inl (hbackend h)
  · cases hfat : vfs.fat with
    | none => simp [hfat] at h
    | some fat => exact .inl (hbackend (by simpa [hfat] using h))
  · exact .inl (hinitrd h)
  · exact .inl (hbackend h)
  · exact .inl (congrArg VfsNode.path (Option.some.inj h)).symm
  · exact .inr ⟨hroot, hinitrd h, h⟩

/-- **Normal paths.** A path is refused exactly if it does not start with a slash or goes above the
root. Otherwise its normal form is its lexical resolution, is normal, and is normalised to itself.
So the path of a node that is found is looked up to the same node. -/
theorem normalizePath_lexical (path : List UInt8) :
    (normalizePath path = none ↔
      path.head? ≠ some slash ∨ Escapes 0 (split slash path)) ∧
    (∀ normal, normalizePath path = some normal →
      normal = joinSegments (lexical (split slash path)) ∧ IsNormal normal ∧
      normalizePath normal = some normal) ∧
    ∀ (vfs : Vfs) node, vfs.lookup path = some node → vfs.lookup node.path = some node := by
  have hparts : OrdinaryParts (lexical (split slash path)) := by
    intro segment hmem
    obtain hmem | ⟨hmem, hord⟩ := mem_foldl_resolveSegment [] hmem
    · exact absurd hmem not_mem_nil
    · exact ⟨hord, notMem_of_mem_split hmem⟩
  have hsome (normal : List UInt8) (h : normalizePath path = some normal) :
      normal = joinSegments (lexical (split slash path)) := by
    rw [normalizePath, foldlM_pushSegment_eq] at h
    split_ifs at h
    · cases h
    · exact (Option.some.inj h).symm
  refine ⟨?_, fun normal h => ?_, fun vfs node h => ?_⟩
  · rw [normalizePath, foldlM_pushSegment_eq, length_nil]
    split_ifs <;> simp [*]
  · rw [hsome normal h]
    exact ⟨rfl, hparts.isNormal, hparts.normalizePath⟩
  · rw [Vfs.lookup] at h ⊢
    split_ifs at h ⊢
    obtain ⟨normal, hnormal, hnode⟩ := Option.bind_eq_some_iff.mp h
    obtain rfl := hsome normal hnormal
    have hhead := hparts.isNormal.1
    obtain heq | ⟨hroot, heq, hinitrd⟩ := path_of_resolveNode hhead hnode
    · rw [heq, hparts.normalizePath]
      exact hnode
    · -- the path is that of the parts below `initrd`
      set segments := lexical (split slash path)
      have hne : segments ≠ [] := fun hnil => hroot (by rw [hnil]; rfl)
      have hjoin : initrdRoot ++ joinSegments segments = joinSegments (ascii "initrd" :: segments) := by
        rw [joinSegments, if_neg hne]
        rfl
      have hall : OrdinaryParts (ascii "initrd" :: segments) :=
        forall_mem_cons.mpr ⟨by decide, hparts⟩
      have hform := Option.some.inj (hall.archivePath.normalizePath.symm.trans hall.normalizePath)
      have hresolve := resolveNode_normalForm vfs hall.archivePath
      rw [hform] at hresolve
      rw [heq, hjoin, hall.normalizePath, Option.bind_some, hresolve, ← hjoin]
      exact hinitrd

end Lexical

/-! ### The files of an archive -/

section Archive

variable {archive path : List UInt8} {entries : List InitrdEntry}

theorem valid_dropWhile (hc : c < 0x80) (h : Utf8.valid text = true) :
    Utf8.valid (text.dropWhile (· == c)) = true := by
  induction text with
  | nil => exact h
  | cons b text ih =>
    by_cases hb : b = c
    · rw [hb, Utf8.valid_cons_of_lt hc] at h
      rw [hb, dropWhile_cons_of_pos (by simp)]
      exact ih h
    · rw [dropWhile_cons_of_neg (by simpa using hb)]
      exact h

theorem valid_trimEndMatches (hc : Utf8.isContinuation c = false) (h : Utf8.valid text = true) :
    Utf8.valid (trimEndMatches c text) = true := by
  obtain ⟨n, hn⟩ := trimEndMatches_append c text
  cases n with
  | zero =>
    rw [replicate_zero, append_nil] at hn
    rwa [← hn]
  | succ n =>
    rw [hn, replicate_succ] at h
    exact Utf8.valid_of_append hc h

theorem valid_stripPrefixOr (h : Utf8.valid text = true) :
    Utf8.valid (stripPrefixOr (ascii "./") text) = true := by
  rw [stripPrefixOr]
  split_ifs with hstart
  · obtain ⟨t, rfl⟩ := isPrefixOf_iff_prefix.mp hstart
    have hvalid : Utf8.valid (ascii "./") = true := by decide +kernel
    rwa [drop_left, ← Utf8.valid_append hvalid]
  · exact h

/-- What the cleaning of a name makes. -/
theorem normalizeArchivePath_cases (h : normalizeArchivePath name = .ok path) :
    path = initrdRoot ∨ ∃ t, containsPair 0x2e 0x2e t = false ∧
      (Utf8.valid name = true → Utf8.valid t = true) ∧ path = initrdRoot ++ slash :: t := by
  rw [normalizeArchivePath] at h
  split_ifs at h with hroot hdots
  · exact .inl (Except.ok.inj h).symm
  · refine .inr ⟨_, Bool.eq_false_iff.mpr hdots, fun hvalid => ?_, ?_⟩
    · exact valid_stripPrefixOr (valid_trimEndMatches (by decide) (valid_dropWhile (by decide) hvalid))
    · rw [← Except.ok.inj h, append_assoc]
      rfl

section

variable (hparse : parseNewcArchive archive = .ok entries) (hentry : entry ∈ entries)
    (hfile : entry.kind = .file)

include hparse hentry hfile

/-- The path of a file in an archive comes from a name. -/
theorem name_of_parse :
    ∃ name, Utf8.valid name = true ∧ normalizeArchivePath name = .ok entry.path := by
  have hinv : ∀ e ∈ files entries,
      ∃ name, Utf8.valid name = true ∧ normalizeArchivePath name = .ok e.path := by
    refine parseRecords_invariant (I := fun entries => ∀ e ∈ files entries,
      ∃ name, Utf8.valid name = true ∧ normalizeArchivePath name = .ok e.path) ?_ hparse ?_
    · intro entries entries' r cursor hvalid hadd hentries e he
      obtain ⟨path, hpath, rfl⟩ := addRecord_eq_ok hadd
      split_ifs at he
      · rw [files_pushDirectory, files_ensureParentDirectories] at he
        exact hentries e he
      · rw [files, filter_append, ← files, files_ensureParentDirectories, mem_append] at he
        obtain he | he := he
        · exact hentries e he
        · rw [mem_singleton.mp (mem_of_mem_filter he)]
          exact ⟨r.name, hvalid, hpath⟩
    · rw [files_pushDirectory]
      simp [files]
  exact hinv entry (mem_files.mpr ⟨hentry, hfile⟩)

theorem archivePath_of_parse : ArchivePath entry.path := by
  obtain ⟨name, -, hname⟩ := name_of_parse hparse hentry hfile
  rcases normalizeArchivePath_cases hname with heq | ⟨t, hdots, -, heq⟩
  · exact heq ▸ archivePath_root
  · exact heq ▸ archivePath_append hdots

end

theorem mem_getModulePaths (h : path ∈ getModulePaths entries) :
    ∃ entry ∈ entries, entry.kind = .file ∧ entry.path = path := by
  obtain ⟨entry, hentry, rfl⟩ := mem_map.mp h
  obtain ⟨hmem, hkind⟩ := mem_filter.mp hentry
  rw [Bool.and_eq_true, beq_iff_eq] at hkind
  exact ⟨entry, hmem, hkind.1, rfl⟩

variable {vfs : Vfs}

/-- **Which files are found.** The lookup of a file of an archive finds the file's own data exactly if
there is a file with these data at the normal form of its path. A kernel module can be opened exactly
if there is a file at the normal form of its path. -/
theorem lookup_file_iff (hparse : parseNewcArchive archive = .ok entries)
    (hnodup : (entries.map (·.path)).Nodup) (hvfs : vfs.initialized = true)
    (hinitrd : vfs.initrd = some entries) :
    (∀ entry ∈ entries, entry.kind = .file →
      ((∃ node, vfs.lookup entry.path = some node ∧ node.kind = .file ∧
          readBytes entries node.path = some entry.data) ↔
        ∃ found ∈ entries, found.path = normalForm entry.path ∧ found.kind = .file ∧
          found.data = entry.data)) ∧
    ∀ path ∈ getModulePaths entries,
      ((∃ node, vfs.lookup path = some node ∧ node.kind = .file) ↔
        ∃ found ∈ entries, found.path = normalForm path ∧ found.kind = .file) := by
  have hkind {found : InitrdEntry} {path : List UInt8} :
      (found.node path).kind = .file ↔ found.kind = .file := by
    rw [InitrdEntry.node]
    cases found.kind <;> simp
  constructor
  · intro entry hentry hfile
    have hpath := archivePath_of_parse hparse hentry hfile
    rw [Vfs.lookup_archivePath hvfs hinitrd hpath]
    constructor
    · rintro ⟨node, hnode, -, hread⟩
      obtain ⟨found, -, rfl⟩ := Option.map_eq_some_iff.mp hnode
      obtain ⟨found, hfind, hfound, hdata⟩ := (readBytes_normalForm hpath).mp hread
      obtain ⟨hmem, heq⟩ := (findEntry_eq_some hnodup).mp hfind
      exact ⟨found, hmem, heq, hfound, hdata⟩
    · rintro ⟨found, hmem, heq, hfound, hdata⟩
      have hfind := (findEntry_eq_some hnodup).mpr ⟨hmem, heq⟩
      refine ⟨_, Option.map_eq_some_iff.mpr ⟨found, hfind, rfl⟩, hkind.mpr hfound, ?_⟩
      exact (readBytes_normalForm hpath).mpr ⟨found, hfind, hfound, hdata⟩
  · intro path hmodule
    obtain ⟨entry, hentry, hfile, rfl⟩ := mem_getModulePaths hmodule
    have hpath := archivePath_of_parse hparse hentry hfile
    rw [Vfs.lookup_archivePath hvfs hinitrd hpath]
    constructor
    · rintro ⟨node, hnode, hnodeKind⟩
      obtain ⟨found, hfind, rfl⟩ := Option.map_eq_some_iff.mp hnode
      obtain ⟨hmem, heq⟩ := (findEntry_eq_some hnodup).mp hfind
      exact ⟨found, hmem, heq, hkind.mp hnodeKind⟩
    · rintro ⟨found, hmem, heq, hfound⟩
      have hfind := (findEntry_eq_some hnodup).mpr ⟨hmem, heq⟩
      exact ⟨_, Option.map_eq_some_iff.mpr ⟨found, hfind, rfl⟩, hkind.mpr hfound⟩

end Archive

/-- Only the ramdisk is mounted. -/
def Vfs.ofInitrd (entries : List InitrdEntry) : Vfs where
  initialized := true
  devfs := ⟨fun _ => none, fun _ => 0, fun _ => none⟩
  fat := none
  initrd := some entries
  procfs := ⟨fun _ => none, fun _ => 0, fun _ => none⟩
  hfs _ := []

/-- An archive with one kernel module. -/
def moduleArchive (name : List UInt8) : List UInt8 := packItems 1 [⟨name, false, 0o100644, 0, [7]⟩]

theorem lookup_file_iff_module : ∃ entries,
    parseNewcArchive (moduleArchive (ascii "./m.hxmd")) = .ok entries ∧
      (entries.map (·.path)).Nodup ∧
      ∃ node, (Vfs.ofInitrd entries).lookup (ascii "/initrd/m.hxmd") = some node ∧
        node.kind = .file := by
  obtain ⟨entries, hparse, hnodup, hmodule, hfound⟩ := exists_of_decide
    (x := parseNewcArchive (moduleArchive (ascii "./m.hxmd"))) (Q := fun entries =>
      (entries.map (·.path)).Nodup ∧ ascii "/initrd/m.hxmd" ∈ getModulePaths entries ∧
        ∃ e ∈ entries, e.path = normalForm (ascii "/initrd/m.hxmd") ∧ e.kind = .file)
    (by decide +kernel)
  exact ⟨entries, hparse, hnodup, ((lookup_file_iff hparse hnodup rfl rfl).2 _ hmodule).mpr hfound⟩

/-- A kernel module under a name with two slashes is in the ramdisk and cannot be opened. -/
theorem module_not_found : ∃ archive entries, parseNewcArchive archive = .ok entries ∧
    (entries.map (·.path)).Nodup ∧ ∃ entry ∈ entries, entry.kind = .file ∧
      entry.path ∈ getModulePaths entries ∧ (Vfs.ofInitrd entries).lookup entry.path = none :=
  ⟨moduleArchive (ascii "drv//m.hxmd"), exists_of_decide (by decide +kernel)⟩

end Hxnu.Fs
