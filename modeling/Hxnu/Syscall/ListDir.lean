import Hxnu.Syscall.Dirents
import Hxnu.Syscall.FdChecks

/-!
# Listing a directory

An open directory is an open file whose content is the text that `render_directory` of
`kernel/src/initrd.rs` writes: one name in each line. `getdents64` (`kernel/src/syscall.rs`) takes
the lines of the rest of that text, trims white space off them and writes a record for each. A
program calls it until it returns zero.

The position is a byte offset that grows by the length of the line. A name comes back as it is only
if it has no white space at its ends, no zero byte, and a record whose length fits 16 bits. These
are the only conditions.

## Main definitions

* `listing`, `IsName`: the text of a directory.
* `DirEvent`, `DirStep`: a call, with the records that are then in the buffer.
* `ListsNames`: every sequence of calls brings the names in order, each once.
* `Listable`: a name that comes back as it is.

## Main results

* `direntLoop_names`: the records for names that come back.
* `listable_of_first`: what the first record of a call says about its name.
* `getdents_lists_names_iff`.
-/

namespace Hxnu.Syscall

open Sched Buffer Word Text Function List

/-! ### The listing -/

/-- The text of a directory: one name in each line. -/
def listing (names : List (List UInt8)) : List UInt8 := names.flatMap (· ++ [10])

theorem renderDirectory_eq_listing (entries : List Fs.InitrdEntry) (path : List UInt8) :
    Fs.renderDirectory entries path = listing (entries.filterMap (Fs.childName path)) := rfl

/-- A file name. -/
structure IsName (name : List UInt8) : Prop where
  nonempty : name ≠ []
  valid : Utf8.valid name = true
  noNewline : 10 ∉ name
  noSlash : 47 ∉ name

/-- The line that `str::lines` finds for a name. -/
def nameLine (name : List UInt8) : List UInt8 := chomp (name ++ [10])

/-- A name that a program gets back as it is. -/
structure Listable (name : List UInt8) : Prop where
  trim : Text.trim name = name
  noZero : 0 ∉ name
  length_le : name.length ≤ 65508

theorem Listable.nameLine (h : Listable name) : nameLine name = name :=
  chomp_append_newline (getLast?_ne_of_trim_eq h.trim)

theorem Listable.reclen_lt (h : Listable name) : direntReclen name < 2 ^ 16 := by
  have hlen := h.length_le
  rw [direntReclen, direntHeaderLen]
  omega

theorem valid_listing (h : ∀ name ∈ names, IsName name) : Utf8.valid (listing names) = true := by
  induction names with
  | nil => rw [listing, flatMap_nil, Utf8.valid]
  | cons name names ih =>
    rw [listing, flatMap_cons, append_assoc,
      Utf8.valid_append (h name mem_cons_self).valid, singleton_append,
      Utf8.valid_cons_of_lt (by decide)]
    exact ih fun n hn => h n (mem_cons_of_mem name hn)

theorem listing_append (l l' : List (List UInt8)) : listing (l ++ l') = listing l ++ listing l' :=
  flatMap_append

theorem length_listing_cons (name : List UInt8) (names : List (List UInt8)) :
    (listing (name :: names)).length = name.length + 1 + (listing names).length := by
  rw [listing, flatMap_cons, length_append, length_append, length_singleton,
    listing]

theorem length_le_listing (h : name ∈ names) : name.length < (listing names).length := by
  induction names with
  | nil => exact absurd h not_mem_nil
  | cons first names ih =>
    rw [length_listing_cons]
    obtain rfl | h := mem_cons.mp h
    · omega
    · have := ih h
      omega

theorem length_nameLine_le (name : List UInt8) : (nameLine name).length ≤ name.length := by
  obtain heq | heq := chomp_append_newline_cases name
  · exact (congrArg List.length heq).le
  · have hlen := congrArg List.length heq
    rw [length_append, length_singleton] at hlen
    exact Nat.le_of_succ_le hlen.symm.le

/-! ### Names that come back -/

section Names

variable {i : Fin maxSystemFiles} {buffer : DirentBuffer} {written current : ℕ} {k : Kernel}

/-- The length of the records of names. -/
def recordsLen (names : List (List UInt8)) : ℕ := (names.map direntReclen).sum

theorem recordsLen_eq_zero_iff : recordsLen names = 0 ↔ names = [] := by
  constructor
  · intro hzero
    cases names with
    | nil => rfl
    | cons name names =>
      have hpos := le_direntReclen name
      rw [recordsLen, map_cons, sum_cons] at hzero
      omega
  · rintro rfl
    rfl

/-- Nothing more is written to a full buffer. -/
theorem direntLoop_stuck (lines : List (List UInt8)) :
    direntLoop i buffer.ptr buffer.count lines buffer.count current k =
      (.success buffer.count, k) := by
  induction lines with
  | nil => rfl
  | cons line lines ih =>
    by_cases hblank : trim line = []
    · rw [direntLoop_blank hblank, ih]
    · have hpos := le_direntReclen (trim line)
      exact direntLoop_full hblank (by omega)

/-- **Names that come back.** The loop writes records for as many of them as fit, and a program
reads these names from the buffer. Other lines may follow if the buffer is full before them. -/
theorem direntLoop_names (i : Fin maxSystemFiles) (buffer : DirentBuffer) (written : ℕ) (k : Kernel)
    (hnames : ∀ name ∈ names, IsName name) (hlistable : ∀ name ∈ names, Listable name)
    (hoffset : (k.files i).offset = current) (hwritten : written ≤ buffer.count)
    (more : List (List UInt8)) (hmore : more = [] ∨ written + recordsLen names = buffer.count) :
    ∃ done rest k', names = done ++ rest ∧
      direntLoop i buffer.ptr buffer.count (names.map nameLine ++ more) written current k =
        (.success (written + recordsLen done : ℕ), k') ∧
      written + recordsLen done ≤ buffer.count ∧
      (∀ name, rest.head? = some name →
        buffer.count < written + recordsLen done + direntReclen name) ∧
      (∀ x < buffer.ptr + written, k'.memory.bytes x = k.memory.bytes x) ∧
      (∀ fuel, recordsLen done ≤ fuel →
        parseDirents k'.memory.bytes (buffer.ptr + written) fuel (recordsLen done) =
          some (done.map fun name => ⟨direntReclen name, name⟩)) ∧
      k'.sched = k.sched ∧ k'.files = update k.files i { k.files i with
        offset := current + (listing done).length } := by
  induction names generalizing written current k with
  | nil =>
    refine ⟨[], [], k, rfl, ?_, hwritten, nofun, fun _ _ => rfl, fun fuel _ => ?_, rfl, ?_⟩
    · obtain rfl | hfull := hmore
      · rfl
      · obtain rfl : written = buffer.count := hfull
        exact direntLoop_stuck more
    · cases fuel <;> rfl
    · rw [listing, flatMap_nil, length_nil, Nat.add_zero, ← hoffset]
      exact (update_eq_self i k.files).symm
  | cons name names ih =>
    have hname := hlistable name mem_cons_self
    have hline := hname.nameLine
    have hne : trim (nameLine name) ≠ [] := by
      rw [hline, hname.trim]
      exact (hnames name mem_cons_self).nonempty
    have hsum (l : List (List UInt8)) :
        recordsLen (name :: l) = direntReclen name + recordsLen l := by
      rw [recordsLen, map_cons, sum_cons, recordsLen]
    rw [map_cons, cons_append]
    by_cases hfits : written + direntReclen name ≤ buffer.count
    · have hlen : name.length ≤ maxCopyBytes := hname.length_le.trans (by decide)
      have hwrite := direntLoop_write i (names.map nameLine ++ more) current k hne
        (by rw [hline, hname.trim]; exact hlen) (by rw [hline, hname.trim]; exact hfits)
      rw [hline, hname.trim] at hwrite
      obtain ⟨m', hrecord, hframe, hloop⟩ := hwrite
      set next := current + name.length + 1 with hnext
      set k₁ := (k.setMemory m').modifyFile i fun f => { f with offset := next } with hk₁
      have hfile : k₁.files i = { k.files i with offset := next } := update_self ..
      obtain ⟨done, rest, k', rfl, hrest, hcount, hstop, hbytes, hparse, hsched, hfiles⟩ :=
        ih _ _ (fun n hn => hnames n (mem_cons_of_mem name hn))
          (fun n hn => hlistable n (mem_cons_of_mem name hn)) (congrArg OpenFile.offset hfile)
          hfits (hmore.imp_right fun hfull => by rw [← hfull, hsum, Nat.add_assoc])
      have hdone := hsum done
      refine ⟨name :: done, rest, k', rfl, ?_, by omega, fun n hn => ?_, fun x hx => ?_,
        fun fuel hfuel => ?_, hsched, ?_⟩
      · rw [hline, hloop, hrest, hdone, Nat.add_assoc]
      · have := hstop n hn
        omega
      · rw [hbytes x (by omega)]
        exact hframe x (.inl hx)
      · -- later records do not touch this one
        have hkept : RecordAt k'.memory.bytes (buffer.ptr + written) next name := by
          intro j hj
          have hle := le_direntReclen name
          rw [hbytes _ (by omega)]
          exact hrecord j hj
        have hpos := le_direntReclen name
        rw [hdone] at hfuel ⊢
        obtain ⟨fuel, rfl⟩ := Nat.exists_eq_add_of_le' (by omega : 1 ≤ fuel)
        exact hkept.parse hname.noZero hname.reclen_lt (by
          rw [Nat.add_assoc]
          exact hparse fuel (by omega))
      · have hfiles₁ : k₁.files = update k.files i { k.files i with offset := next } := rfl
        have hend : next + (listing done).length =
            current + (listing (name :: done)).length := by
          rw [length_listing_cons]
          omega
        rw [hfiles, hfile, hfiles₁, update_idem, hend]
    · refine ⟨[], name :: names, k, rfl, ?_, hwritten, ?_, fun _ _ => rfl, fun fuel _ => ?_, rfl,
        ?_⟩
      · rw [direntLoop_full hne (by rw [hline, hname.trim]; omega)]
        rfl
      · intro n hn
        cases hn
        exact not_le.mp hfits
      · cases fuel <;> rfl
      · rw [listing, flatMap_nil, length_nil, Nat.add_zero, ← hoffset]
        exact (update_eq_self i k.files).symm

/-- The first record of a call, whatever the lines are. -/
theorem direntLoop_first (i : Fin maxSystemFiles) (buffer : DirentBuffer) (current : ℕ) (k : Kernel)
    {lines : List (List UInt8)}
    (hlen : ∀ line ∈ lines, line.length ≤ maxCopyBytes) :
    direntLoop i buffer.ptr buffer.count lines 0 current k = (.success 0, k) ∨
    ∃ (value : ℕ) (k' : Kernel) (offset : ℕ) (line : List UInt8),
      direntLoop i buffer.ptr buffer.count lines 0 current k = (.success value, k') ∧ 0 < value ∧
      RecordAt k'.memory.bytes buffer.ptr offset (trim line) ∧
      lines.find? (fun line => trim line ≠ []) = some line := by
  induction lines with
  | nil => exact .inl rfl
  | cons line lines ih =>
    have hlines : ∀ line ∈ lines, line.length ≤ maxCopyBytes :=
      fun l hl => hlen l (mem_cons_of_mem line hl)
    by_cases hblank : trim line = []
    · rw [direntLoop_blank hblank, find?_cons_of_neg (by simpa using hblank)]
      exact ih hlines
    by_cases hfits : 0 + direntReclen (trim line) ≤ buffer.count
    · have hname : (trim line).length ≤ maxCopyBytes :=
        (trim_isInfix line).length_le.trans (hlen line mem_cons_self)
      obtain ⟨m', hrecord, -, hloop⟩ := direntLoop_write i lines current k hblank hname hfits
      obtain ⟨value, k', hrest, hle, -, hbytes⟩ := direntLoop_frame hlines hfits
      have hpos := le_direntReclen (trim line)
      refine .inr ⟨value, k', current + line.length + 1, line, hloop.trans hrest, by omega,
        fun j hj => ?_, find?_cons_of_pos (by simpa using hblank)⟩
      -- the later records do not touch this one
      rw [hbytes _ (by omega)]
      exact hrecord j hj
    · exact .inl (direntLoop_full hblank (not_le.mp hfits))

end Names

/-- What the first record of a call says about its name: if it brings the name as it is, then the
name has no white space at its ends, no zero byte, and a record of less than `2 ^ 16` bytes. -/
theorem listable_of_first (hname : IsName name)
    (hfirst : ((name :: names).map nameLine).find? (fun line => trim line ≠ []) = some line)
    (hrecord : RecordAt mem dst offset (trim line))
    (hroom : direntHeaderLen + 1 ≤ direntReclen (trim line) % 2 ^ 16)
    (hread : readName mem (dst + direntHeaderLen) (direntReclen (trim line) % 2 ^ 16 -
      direntHeaderLen) = name) : Listable name := by
  have hinit := hrecord.readName_prefix (direntReclen (trim line) % 2 ^ 16 - direntHeaderLen)
  have hlength : name.length ≤ direntReclen (trim line) % 2 ^ 16 - direntHeaderLen := by
    rw [← hread, readName]
    refine (List.takeWhile_prefix _).length_le.trans ?_
    rw [length_map, length_range]
  rw [hread] at hinit
  have htrim : name <+: trim line := hinit.trans (List.takeWhile_prefix _)
  rw [map_cons] at hfirst
  by_cases hblank : trim (nameLine name) = []
  · -- then the name starts with white space, but the record does not
    have hstart : ∃ c ∈ whiteSpace, c <+: name := by
      obtain hline | ⟨c, hc, hpre⟩ := prefix_of_trim_eq_nil hblank
      · obtain heq | heq := chomp_append_newline_cases name
        · exact absurd (heq.symm.trans hline) hname.nonempty
        · refine ⟨[13], by decide, ?_⟩
          rw [heq, ← nameLine, hline]
          exact prefix_rfl
      · refine ⟨c, hc, hpre.trans ?_⟩
        obtain heq | heq := chomp_append_newline_cases name
        · rw [nameLine, heq]
        · nth_rewrite 2 [heq]
          exact prefix_append _ _
    obtain ⟨c, hc, hpre⟩ := hstart
    exact absurd (hpre.trans htrim) (not_prefix_trim c hc)
  · rw [find?_cons_of_pos (by simpa using hblank)] at hfirst
    obtain rfl := Option.some.inj hfirst
    have hle := (trim_isInfix (nameLine name)).length_le
    have hle' := length_nameLine_le name
    have hline : nameLine name = name := by
      obtain heq | heq := chomp_append_newline_cases name
      · exact heq
      · have hlen := congrArg List.length heq
        rw [length_append, length_singleton, ← nameLine] at hlen
        have := htrim.length_le
        omega
    rw [hline] at htrim hinit hroom hlength
    have heq : trim name = name :=
      (htrim.eq_of_length_le (trim_isInfix name).length_le).symm
    rw [heq] at hinit hroom hlength
    refine ⟨heq, fun hzero => ?_, ?_⟩
    · have hwhole := hinit.eq_of_length_le (List.takeWhile_prefix _).length_le
      rw [hwhole] at hzero
      exact absurd (mem_takeWhile_imp hzero) (by decide)
    · rw [direntReclen, direntHeaderLen] at hroom hlength
      omega

/-! ### Calls -/

/-- A call of `getdents64`: its buffer, its outcome and the records that are then in the buffer. -/
structure DirEvent where
  buffer : DirentBuffer
  outcome : SyscallOutcome
  records : Option (List Dirent)

/-- The names that a call brings. -/
def DirEvent.names (e : DirEvent) : List (List UInt8) := (e.records.getD []).map Dirent.name

/-- The names that calls bring, in order. -/
def returned (events : List DirEvent) : List (List UInt8) := events.flatMap DirEvent.names

/-- A call on the descriptor `fd`. The program may have written to its memory before. -/
inductive DirStep (fd : Fin maxProcessFds) : Kernel → DirEvent → Kernel → Prop
  | getdents {k k' : Kernel} {m : UserMemory} {args : Args} {buffer : DirentBuffer}
      {out : SyscallOutcome} (hfd : fdIndex (asI32 (args 0)) = some fd)
      (hptr : (args 1 : ℕ) = buffer.ptr) (hcount : (args 2 : ℕ) = buffer.count)
      (h : sysGetdents64 (k.setMemory m) args = .ok (out, k')) :
      DirStep fd k ⟨buffer, out, parseDirents k'.memory.bytes buffer.ptr out.value.toNat
        out.value.toNat⟩ k'

/-- There is room for the next record after the names `got`. -/
def Enough (names got : List (List UInt8)) (buffer : DirentBuffer) : Prop :=
  ∀ name, names[got.length]? = some name → direntReclen name ≤ buffer.count

/-- Every call has room for the next record. -/
def AllEnough (names : List (List UInt8)) (events : List DirEvent) : Prop :=
  ∀ before e after, events = before ++ e :: after → Enough names (returned before) e.buffer

/-- A call as it should be: it succeeds, the records are well formed and fit, and it returns zero
exactly if all names have been returned. -/
structure GoodEvent (names got : List (List UInt8)) (e : DirEvent) : Prop where
  succeeds : 0 ≤ e.outcome.value
  records : ∃ records, e.records = some records ∧ (∀ r ∈ records, 8 ∣ r.reclen) ∧
    (records.map Dirent.reclen).sum ≤ e.buffer.count
  zero_iff : e.outcome.value = 0 ↔ got = names

/-- **A directory is listed.** In every sequence of calls that have room for the next record, the
names that are returned are the first ones of the directory in order, each once, every call is as it
should be, and a further call returns. -/
def ListsNames (fd : Fin maxProcessFds) (names : List (List UInt8)) (k : Kernel) : Prop :=
  ∀ events k', Run (DirStep fd) k events k' → AllEnough names events →
    returned events <+: names ∧
    (∀ before e after, events = before ++ e :: after → GoodEvent names (returned before) e) ∧
    ∀ (m : UserMemory) (args : Args) (buffer : DirentBuffer),
      fdIndex (asI32 (args 0)) = some fd → (args 1 : ℕ) = buffer.ptr →
      (args 2 : ℕ) = buffer.count → Enough names (returned events) buffer →
      ∃ r, sysGetdents64 (k'.setMemory m) args = .ok r

/-- The names `done` have been listed. -/
structure AtLine (fd : Fin maxProcessFds) (i : Fin maxSystemFiles) (names done : List (List UInt8))
    (k : Kernel) : Prop where
  entry : k.table fd = some i.val
  isUsed : (k.files i).isUsed = true
  content : (k.files i).content = listing names
  offset : (k.files i).offset = (listing done).length

section Calls

variable {fd : Fin maxProcessFds} {i : Fin maxSystemFiles}
  {names done rest more : List (List UInt8)}
  {k k' : Kernel}

theorem returned_concat (events : List DirEvent) (e : DirEvent) :
    returned (events ++ [e]) = returned events ++ e.names := by
  rw [returned, flatMap_append, flatMap_singleton, returned]

/-- A call goes through the lines of the names that are left. -/
theorem AtLine.sysGetdents64 (h : AtLine fd i (done ++ rest) done k)
    (hnames : ∀ name ∈ rest, IsName name) (hfd : fdIndex (asI32 (args 0)) = some fd)
    (m : UserMemory) :
    sysGetdents64 (k.setMemory m) args = .ok (direntLoop i (args 1) (args 2) (rest.map nameLine) 0
      (listing done).length (k.setMemory m)) := by
  have hentry : descriptor (k.setMemory m).table (asI32 (args 0)) = some i.val := by
    rw [descriptor, hfd]
    exact h.entry
  have hindex : fileIndex i.val = .ok i := fileIndex_eq_ok.mpr rfl
  have hfile : (k.setMemory m).files i = k.files i := rfl
  rw [Syscall.sysGetdents64, hentry]
  simp only [hindex, bind, Except.bind, hfile]
  rw [if_neg (by rw [h.isUsed]; simp), h.content, h.offset, listing_append]
  cases rest with
  | nil =>
    rw [if_pos (by simp [listing])]
    rfl
  | cons name rest =>
    have hlt := length_listing_cons name rest
    rw [if_neg (by rw [length_append]; omega), drop_left, valid_listing hnames,
      if_neg (by simp), listing, lines_flatMap fun n hn => (hnames n hn).noNewline]
    rfl

/-- One call lists names that can be listed. Other names may follow if the buffer is full then. -/
theorem AtLine.step (h : AtLine fd i names done k) (hsplit : names = done ++ (rest ++ more))
    (hnames : ∀ name ∈ names, IsName name) (hlistable : ∀ name ∈ rest, Listable name)
    (hstep : DirStep fd k e k') (henough : Enough names done e.buffer)
    (hmore : more = [] ∨ rest ≠ [] ∧ recordsLen rest = e.buffer.count) :
    AtLine fd i names (done ++ e.names) k' ∧ e.names <+: rest ∧ (e.names = [] → rest = []) ∧
      GoodEvent names done e := by
  obtain rfl := hsplit
  have hleft : ∀ name ∈ rest ++ more, IsName name := fun n hn =>
    hnames n (mem_append_right done hn)
  cases hstep with
  | @getdents _ m args buffer out hfd hptr hcount hcall =>
    rw [h.sysGetdents64 hleft hfd m, hptr, hcount, map_append] at hcall
    obtain ⟨now, later, k₁, rfl, hloop, hfits, hstop, -, hparse, hsched, hfiles⟩ :=
      direntLoop_names i buffer 0 (k.setMemory m)
        (fun n hn => hleft n (mem_append_left more hn)) hlistable h.offset (Nat.zero_le _)
        (more.map nameLine) (hmore.imp map_eq_nil_iff.mpr fun hfull =>
          (Nat.zero_add _).trans hfull.2)
    rw [hloop] at hcall
    obtain ⟨rfl, rfl⟩ := Prod.mk.inj (Except.ok.inj hcall)
    simp only [Nat.zero_add, Nat.add_zero] at *
    have hvalue : (SyscallOutcome.success (recordsLen now : ℕ)).value.toNat = recordsLen now :=
      Int.toNat_natCast _
    rw [hvalue, hparse _ le_rfl]
    have hgot : DirEvent.names ⟨buffer, .success (recordsLen now : ℕ),
        some (now.map fun name => ⟨direntReclen name, name⟩)⟩ = now := by
      rw [DirEvent.names, Option.getD_some, map_map]
      exact map_id now
    -- a call that brings nothing has no name left, for there is room for one
    have hnone : now = [] → now ++ later = [] := by
      rintro rfl
      cases later with
      | nil => rfl
      | cons name later =>
        have hfull := hstop name rfl
        have hroom := henough name (by simp)
        exact absurd hroom (not_le.mpr (by simpa [recordsLen] using hfull))
    rw [hgot]
    refine ⟨⟨?_, ?_, ?_, ?_⟩, prefix_append _ _, hnone, ⟨Int.natCast_nonneg _, ?_, ?_⟩⟩
    · rw [Kernel.table, hsched]
      exact h.entry
    · rw [hfiles, update_self]
      exact h.isUsed
    · rw [hfiles, update_self]
      exact h.content
    · rw [hfiles, update_self, listing_append, length_append]
    · refine ⟨_, rfl, fun r hr => ?_, ?_⟩
      · obtain ⟨name, -, rfl⟩ := mem_map.mp hr
        exact dvd_direntReclen name
      · rw [map_map]
        exact hfits
    · have hzero : (SyscallOutcome.success (recordsLen now : ℕ)).value = 0 ↔ now = [] :=
        Int.natCast_eq_zero.trans recordsLen_eq_zero_iff
      rw [hzero, self_eq_append_right]
      refine ⟨fun hnow => ?_, fun hall => (append_eq_nil_iff.mp (append_eq_nil_iff.mp hall).1).1⟩
      obtain rfl | ⟨hne, -⟩ := hmore
      · rw [append_nil, hnone hnow]
      · exact absurd (hnone hnow) hne

/-- Calls list names that can be listed, one after the other. -/
theorem AtLine.run (h : AtLine fd i names done k) (hdone : done <+: names)
    (hnames : ∀ name ∈ names, IsName name) (hlistable : ∀ name ∈ names, Listable name)
    (hrun : Run (DirStep fd) k events k')
    (henough : ∀ before e after, events = before ++ e :: after → Enough names (done ++ returned
      before) e.buffer) :
    AtLine fd i names (done ++ returned events) k' ∧ done ++ returned events <+: names ∧
      ∀ before e after, events = before ++ e :: after →
        GoodEvent names (done ++ returned before) e := by
  induction hrun generalizing done with
  | nil k =>
    rw [returned, flatMap_nil, append_nil]
    exact ⟨h, hdone, fun before e after hsplit => absurd hsplit (by simp)⟩
  | @cons k k₁ k' e events hstep _ ih =>
    have hassoc (l : List DirEvent) :
        done ++ e.names ++ returned l = done ++ returned (e :: l) := by
      rw [returned, returned, flatMap_cons, append_assoc]
    obtain ⟨rest, rfl⟩ := hdone
    have hsplit : done ++ rest = done ++ (rest ++ []) := by rw [append_nil]
    obtain ⟨hnext, hinit, -, hgood⟩ := h.step hsplit hnames
      (fun n hn => hlistable n (mem_append_right done hn)) hstep
      (by simpa [returned] using henough [] e events rfl) (.inl rfl)
    obtain ⟨hlast, hall, hrest⟩ := ih hnext ((prefix_append_right_inj done).mpr hinit)
      fun before e' after hsplit => by
      rw [hassoc]
      exact henough (e :: before) e' after (by rw [hsplit, cons_append])
    rw [hassoc] at hlast hall
    refine ⟨hlast, hall, fun before e' after hsplit => ?_⟩
    cases before with
    | nil =>
      obtain ⟨rfl, -⟩ := List.cons.inj hsplit
      simpa [returned] using hgood
    | cons first before =>
      obtain ⟨rfl, htail⟩ := List.cons.inj hsplit
      rw [← hassoc]
      exact hrest before e' after htail

/-- A directory whose names can be listed is listed. -/
theorem AtLine.listsNames (h : AtLine fd i names [] k) (hnames : ∀ name ∈ names, IsName name)
    (hlistable : ∀ name ∈ names, Listable name) : ListsNames fd names k := by
  intro events k' hrun henough
  obtain ⟨hlast, ⟨rest, hrest⟩, hgood⟩ := h.run nil_prefix hnames hlistable hrun henough
  refine ⟨⟨rest, hrest⟩, hgood, fun m args buffer hfd _ _ _ => ?_⟩
  rw [nil_append] at hlast hrest
  rw [← hrest] at hlast
  have hleft : ∀ name ∈ rest, IsName name := fun name hname =>
    hnames name (hrest ▸ mem_append_right _ hname)
  exact ⟨_, hlast.sysGetdents64 hleft hfd m⟩

theorem AllEnough.concat (h : AllEnough names events)
    (he : Enough names (returned events) e.buffer) : AllEnough names (events ++ [e]) := by
  intro before e' after hsplit
  obtain rfl | ⟨after, last, rfl⟩ := eq_nil_or_concat after
  · obtain ⟨rfl, hlast⟩ := append_inj' hsplit rfl
    rwa [← singleton_inj.mp hlast]
  · rw [concat_eq_append, ← cons_append, ← append_assoc] at hsplit
    exact h before e' after (append_inj' hsplit rfl).1

/-- A call with a buffer, and what it does. -/
theorem AtLine.dirStep (h : AtLine fd i (done ++ rest) done k) (hnames : ∀ name ∈ rest, IsName name)
    (buffer : DirentBuffer)
    (hloop : direntLoop i buffer.ptr buffer.count (rest.map nameLine) 0 (listing done).length k =
      (out, k')) :
    DirStep fd k ⟨buffer, out, parseDirents k'.memory.bytes buffer.ptr out.value.toNat
      out.value.toNat⟩ k' := by
  have hfits := buffer.fits
  let args : Args := ![Fin.ofNat (2 ^ 64) fd, Fin.ofNat (2 ^ 64) buffer.ptr,
    Fin.ofNat (2 ^ 64) buffer.count, 0, 0, 0]
  have hfd : fdIndex (asI32 (args 0)) = some fd := by
    have hlt : (fd : ℕ) < 2 ^ 64 := fd.isLt.trans (by decide)
    exact (congrArg (fun n : ℕ => fdIndex (asI32 n)) (Nat.mod_eq_of_lt hlt)).trans
      (fdIndex_asI32_natCast fd)
  have hptr : (args 1 : ℕ) = buffer.ptr := Nat.mod_eq_of_lt (by omega)
  have hcount : (args 2 : ℕ) = buffer.count := Nat.mod_eq_of_lt (by omega)
  refine .getdents hfd hptr hcount ((h.sysGetdents64 hnames hfd k.memory).trans ?_)
  rw [hptr, hcount]
  exact congrArg Except.ok hloop

/-- If the next call is as it should be, then the next name can be listed. -/
theorem GoodEvent.listable {name : List UInt8} {buffer : DirentBuffer} {current : ℕ}
    {out : SyscallOutcome} {records : Option (List Dirent)} (hname : IsName name)
    (hlen : ∀ n ∈ name :: rest, n.length ≤ maxContentBytes)
    (hloop : direntLoop i buffer.ptr buffer.count ((name :: rest).map nameLine) 0 current k =
      (out, k'))
    (hrecords : records = parseDirents k'.memory.bytes buffer.ptr out.value.toNat out.value.toNat)
    (hgood : GoodEvent (done ++ name :: rest) done ⟨buffer, out, records⟩)
    (hinit : done ++ DirEvent.names ⟨buffer, out, records⟩ <+: done ++ name :: rest) :
    Listable name := by
  have hlines : ∀ line ∈ (name :: rest).map nameLine, line.length ≤ maxCopyBytes := by
    intro line hmem
    obtain ⟨n, hn, rfl⟩ := mem_map.mp hmem
    exact (length_nameLine_le n).trans ((hlen n hn).trans (by decide))
  obtain hnone | ⟨value, k₁, offset, line, hloop', hpos, hrecord, hfirst⟩ :=
    direntLoop_first i buffer current k hlines
  · have hzero : out.value = 0 := by
      rw [← (Prod.mk.inj (hloop.symm.trans hnone)).1.symm]
      rfl
    exact absurd (hgood.zero_iff.mp hzero) (by simp)
  · obtain ⟨rfl, rfl⟩ := Prod.mk.inj (hloop.symm.trans hloop')
    obtain ⟨list, hlist, -⟩ := hgood.records
    have hvalue : (SyscallOutcome.success (value : ℕ)).value.toNat = value := Int.toNat_natCast _
    rw [hvalue] at hrecords
    obtain ⟨later, hroom, hhead⟩ := hrecord.of_parse hpos (hrecords.symm.trans hlist)
    refine listable_of_first hname hfirst hrecord hroom ?_
    rw [prefix_append_right_inj, DirEvent.names, show records = some list from hlist, hhead,
      Option.getD_some, map_cons] at hinit
    exact (cons_prefix_cons.mp hinit).1

/-- If a directory is listed, then calls with room for one record list its names one by one, and
each of them can be listed. -/
theorem ListsNames.reach (hlists : ListsNames fd names k) (h : AtLine fd i names [] k)
    (hnames : ∀ name ∈ names, IsName name) (hlen : (listing names).length ≤ maxContentBytes)
    (hdone : done <+: names) :
    (∀ name ∈ done, Listable name) ∧ ∃ events k', Run (DirStep fd) k events k' ∧
      AllEnough names events ∧ returned events = done ∧ AtLine fd i names done k' := by
  induction done using List.reverseRecOn with
  | nil => exact ⟨nofun, [], k, .nil k, fun _ _ _ hsplit => absurd hsplit (by simp), rfl, h⟩
  | append_singleton done name ih =>
    obtain ⟨hlistable, events, k₁, hrun, henough, rfl, hat⟩ :=
      ih ((prefix_append _ _).trans hdone)
    obtain ⟨rest, rfl⟩ := hdone
    set done := returned events
    rw [append_assoc, singleton_append] at *
    have hrest : ∀ n ∈ name :: rest, IsName n :=
      fun n hn => hnames n (mem_append_right done hn)
    have hname : IsName name := hrest name mem_cons_self
    have hshort (n : List UInt8) (hn : n ∈ name :: rest) : n.length ≤ maxContentBytes :=
      (length_le_listing (mem_append_right done hn)).le.trans hlen
    have hreclen : direntReclen name ≤ maxContentBytes + 27 := by
      have := hshort name mem_cons_self
      rw [direntReclen, direntHeaderLen]
      omega
    rw [maxContentBytes] at hreclen
    let buffer : DirentBuffer := ⟨0x1000, direntReclen name, by decide, by omega⟩
    have hroom : Enough (done ++ name :: rest) done buffer := by
      intro n hn
      rw [List.getElem?_append_right le_rfl, Nat.sub_self, List.getElem?_cons_zero] at hn
      exact (congrArg direntReclen (Option.some.inj hn)).ge
    have hstep := hat.dirStep hrest buffer rfl
    have hrun' := hrun.append (.single hstep)
    have hfirst : Listable name := by
      obtain ⟨hinit, hgood, -⟩ := hlists _ _ hrun' (henough.concat hroom)
      rw [returned_concat] at hinit
      exact (hgood events _ [] rfl).listable hname hshort rfl rfl hinit
    refine ⟨fun n hn => ?_, _, _, hrun', henough.concat hroom, ?_⟩
    · obtain hn | hn := mem_append.mp hn
      · exact hlistable n hn
      · exact mem_singleton.mp hn ▸ hfirst
    have hsplit : done ++ name :: rest = done ++ ([name] ++ rest) := rfl
    obtain ⟨hnext, hone, hsome, -⟩ := hat.step hsplit hnames
      (forall_mem_singleton.mpr hfirst) hstep hroom (.inr ⟨cons_ne_nil _ _, rfl⟩)
    have hgot := hone.eq_of_length_le (length_pos_iff.mpr fun hnil => cons_ne_nil _ _ (hsome hnil))
    rw [hgot] at hnext
    exact ⟨(returned_concat _ _).trans (congrArg _ hgot), hnext⟩

end Calls

section

variable {k k₀ : Kernel} {c : Slot} {fd : Fin maxProcessFds} {path : List UInt8}
    {names : List (List UInt8)} (hcurrent : k.sched.currentSlot = some c)
    (hopen : allocOpenFile k path (listing names) = (.ok (fd : ℕ), k₀))

include hcurrent hopen

/-- A directory that has just been opened. -/
theorem atLine_of_allocOpenFile
    (hlen : (listing names).length ≤ maxContentBytes) : ∃ i, AtLine fd i names [] k₀ := by
  rw [allocOpenFile] at hopen
  split at hopen
  · cases hopen
  · rename_i free hfree
    split at hopen
    · cases hopen
    · rename_i i hi
      obtain ⟨hfd, hk₀⟩ := Prod.mk.inj hopen
      obtain rfl : free = fd := Fin.ext (Int.ofNat.inj (Except.ok.inj hfd))
      obtain ⟨htable, hfile⟩ := Kernel.alloc_entry hcurrent free i (path.take 128) _ hk₀.symm
      refine ⟨i, htable, by rw [hfile], ?_, by rw [hfile]; rfl⟩
      rw [hfile]
      exact take_of_length_le hlen

/-- **Listing a directory.** Let a directory with names that are not empty and have neither a slash
nor a newline be opened, and let its listing have at most `65536` bytes. Then it is listed by every
sequence of calls with valid buffers and room for the next record exactly if every name comes back
as it is: it has no white space at its ends, no zero byte, and at most `65508` bytes. -/
theorem getdents_lists_names_iff
    (hnames : ∀ name ∈ names, IsName name) (hlen : (listing names).length ≤ maxContentBytes) :
    ListsNames fd names k₀ ↔ ∀ name ∈ names, Listable name := by
  obtain ⟨i, hat⟩ := atLine_of_allocOpenFile hcurrent hopen hlen
  exact ⟨fun hlists => (hlists.reach hat hnames hlen prefix_rfl).1, hat.listsNames hnames⟩

end

/-- A process with no open files. -/
def listKernel : Kernel where
  sched := { Scheduler.new with currentSlot := some 0 }
  files := fun _ => .empty
  memory := ⟨fun _ => 0, []⟩

theorem allocOpenFile_listKernel (path content : List UInt8) :
    allocOpenFile listKernel path content =
      (.ok ((3 : Fin maxProcessFds) : ℕ), (allocOpenFile listKernel path content).2) := by
  have hfd : freeFd listKernel.table 3 = some 3 := by decide +kernel
  have hi : freeFile listKernel.files 0 = some 0 := by decide +kernel
  rw [allocOpenFile, hfd, hi]

/-- The directory with the one file `a`. -/
theorem getdents_lists_names_iff_one : ∃ k₀, allocOpenFile listKernel [47] (listing [[97]]) =
    (.ok ((3 : Fin maxProcessFds) : ℕ), k₀) ∧ ListsNames 3 [[97]] k₀ := by
  have hname : IsName [97] := ⟨by decide, by decide +kernel, by decide, by decide⟩
  have hlistable : Listable [97] := ⟨by decide +kernel, by decide, by decide⟩
  have hopen : allocOpenFile listKernel [47] (listing [[97]]) =
    (.ok ((3 : Fin maxProcessFds) : ℕ), (allocOpenFile listKernel [47] (listing [[97]])).2) :=
    allocOpenFile_listKernel _ _
  refine ⟨_, hopen, (getdents_lists_names_iff (c := 0) rfl hopen ?_ (by decide)).mpr ?_⟩
  · simpa using hname
  · simpa using hlistable

/-- The directory with the one file `a` followed by a blank. The record that is returned has the
name `a`, so that a program that opens it does not find the file. -/
theorem getdents_trims_name : ∃ k₀ e k', allocOpenFile listKernel [47] (listing [[97, 32]]) =
    (.ok ((3 : Fin maxProcessFds) : ℕ), k₀) ∧ DirStep 3 k₀ e k' ∧ e.buffer.count = 64 ∧
    e.names = [[97]] ∧ ¬ ListsNames 3 [[97, 32]] k₀ := by
  let k₀ := (allocOpenFile listKernel [47] (listing [[97, 32]])).2
  let args : Args := ![3, 0x1000, 64, 0, 0, 0]
  let buffer : DirentBuffer := ⟨0x1000, 64, by decide, by decide⟩
  obtain ⟨⟨out, k'⟩, hcall, rfl, hparse⟩ := Fallible.exists_of_decide (x := sysGetdents64 k₀ args)
    (Q := fun r => r.1 = .success 24 ∧
      parseDirents r.2.memory.bytes 0x1000 24 24 = some [⟨24, [97]⟩]) (by decide +kernel)
  let e : DirEvent := ⟨buffer, .success 24, parseDirents k'.memory.bytes 0x1000 24 24⟩
  have hargs : fdIndex (asI32 (args 0)) = some 3 := by decide
  have hstep : DirStep 3 k₀ e k' := DirStep.getdents (m := k₀.memory) hargs rfl rfl hcall
  have hnames : e.names = [[97]] := congrArg (fun r => (r.getD []).map Dirent.name) hparse
  refine ⟨k₀, e, k', allocOpenFile_listKernel _ _, hstep, rfl, hnames, fun hlists => ?_⟩
  have henough : AllEnough [[97, 32]] ([] ++ [e]) := by
    refine AllEnough.concat (fun _ _ _ hsplit => absurd hsplit (by simp)) fun name hname => ?_
    obtain rfl : [97, 32] = name := Option.some.inj hname
    exact (by decide : direntReclen [97, 32] ≤ 64)
  have hinit := (hlists _ k' (.single hstep) henough).1
  rw [returned, flatMap_singleton, hnames] at hinit
  revert hinit
  decide

end Hxnu.Syscall
