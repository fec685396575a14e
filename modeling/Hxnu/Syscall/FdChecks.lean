import Hxnu.Syscall.FileRuns

/-!
# Checks of descriptors

Eight handlers take a descriptor as a 64-bit argument, and each checks it in its own way: some convert
it to 32 bits with a check and some cut it off, some look at the table and some do not, and one uses
the index 9999 for a descriptor that is not open. This file says for each of them when it finishes and
answers `EBADF` exactly if the argument is not an open descriptor.

## Main definitions

* `IsOpen`: the argument is the number of an open descriptor.
* `ChecksFd`: the call finishes and reports exactly the arguments that are not.
* `FdCondition`: when it does.

## Main results

* `Bounded`: every descriptor refers to an entry of the table, in every run.
* `checksFd_iff`: the call checks its descriptor exactly under the condition.
-/

namespace Hxnu.Syscall

open Sched Fs RefCount Word Function

/-! ### Descriptors stay within the table -/

/-- Every descriptor refers to an entry of the table of open files. -/
def Bounded (k : Kernel) : Prop := ∀ x i, k.refs.ref x = some i → i < maxSystemFiles

theorem RefChange.bounded (h : RefChange c r fds r')
    (hr : ∀ x i, r.ref x = some i → i < maxSystemFiles) :
    ∀ x i, r'.ref x = some i → i < maxSystemFiles := by
  induction h with
  | dropped =>
    intro x i hx
    rw [Refs.dropAll_ref] at hx
    split_ifs at hx
    exact hr x i hx
  | @opened r₁ _ fd j data _ _ hlt ih =>
    intro x i hx
    change update r₁.ref (c, fd) (some j) x = some i at hx
    rw [update_apply] at hx
    split_ifs at hx
    · cases hx
      exact hlt
    · exact ih x i hx
  | @shared r₁ _ fd old j _ hold ih =>
    intro x i hx
    change update r₁.ref (c, fd) (some j) x = some i at hx
    rw [update_apply] at hx
    split_ifs at hx
    · cases hx
      exact ih (c, old) j hold
    · exact ih x i hx

theorem Bounded.step (hk : Bounded k) (h : FileStep P k e k') : Bounded k' := by
  by_cases he : e.isPlain = true
  · obtain ⟨c, -, hchange⟩ := h.change he
    exact hchange.bounded hk
  · cases e with
    | op op =>
      obtain ⟨s, hs, rfl⟩ := h
      intro x i hx
      obtain ⟨y, hy⟩ := ref_of_op hs hx
      exact hk y i hy
    | call | fault | schedule => exact absurd rfl he

theorem Bounded.of_run (hboot : Booted P k₀) (hrun : Run (FileStep P) k₀ events k) : Bounded k := by
  refine hrun.invariant (fun _ _ _ hk h => hk.step h) fun x i hx => ?_
  rw [hboot.ref_eq_none] at hx
  cases hx

/-! ### Numbers of descriptors -/

/-- The argument is the number of a descriptor that is open in the calling process. -/
def IsOpen (k : Kernel) (arg : U64) : Prop := ∃ fd, (arg : ℕ) = fd.val ∧ k.table fd ≠ none

section Numbers

variable {k : Kernel} {arg : U64} {fd : Fin maxProcessFds}

theorem fdIndex_natCast (n : ℕ) (hn : n < maxProcessFds) : fdIndex n = some ⟨n, hn⟩ := by
  have hrange : 0 ≤ (n : ℤ) ∧ (n : ℤ).toNat < maxProcessFds := by
    rw [Int.toNat_natCast]
    exact ⟨Int.natCast_nonneg n, hn⟩
  rw [fdIndex, dif_pos hrange]
  simp only [Int.toNat_natCast]

theorem fdIndex_asI32_natCast (fd : Fin maxProcessFds) : fdIndex (asI32 fd) = some fd := by
  have hlt : (fd : ℕ) < 64 := fd.isLt
  have hmod : (fd : ℕ) % 2 ^ 32 = fd := Nat.mod_eq_of_lt (by omega)
  rw [asI32, hmod, if_pos (by omega), fdIndex_natCast _ fd.isLt]

/-- An argument that is cut off to no descriptor is not open. -/
theorem not_isOpen_of_none (h : fdIndex (asI32 arg) = none) : ¬ IsOpen k arg := by
  rintro ⟨fd, harg, -⟩
  rw [harg, fdIndex_asI32_natCast] at h
  cases h

/-- An argument that is cut off to a descriptor is open if nothing was cut off. -/
theorem isOpen_iff_of_some (h : fdIndex (asI32 arg) = some fd) :
    IsOpen k arg ↔ (arg : ℕ) = fd ∧ k.table fd ≠ none := by
  constructor
  · rintro ⟨fd', harg, hopen⟩
    rw [harg, fdIndex_asI32_natCast] at h
    cases h
    exact ⟨harg, hopen⟩
  · rintro ⟨harg, hopen⟩
    exact ⟨fd, harg, hopen⟩

theorem isOpen_iff_descriptor :
    IsOpen k arg ↔ descriptor k.table (arg : ℕ) ≠ none := by
  rw [descriptor]
  by_cases hlt : (arg : ℕ) < maxProcessFds
  · rw [fdIndex_natCast _ hlt]
    constructor
    · rintro ⟨fd, harg, hopen⟩
      have hfd : fd = ⟨arg, hlt⟩ := Fin.ext harg.symm
      rwa [hfd] at hopen
    · exact fun hopen => ⟨⟨arg, hlt⟩, rfl, hopen⟩
  · have hnone : fdIndex (arg : ℕ) = none := by
      rw [fdIndex, dif_neg]
      rintro ⟨-, hrange⟩
      rw [Int.toNat_natCast] at hrange
      exact hlt hrange
    rw [hnone]
    refine iff_of_false ?_ fun h => h rfl
    rintro ⟨fd, harg, -⟩
    exact hlt (harg ▸ fd.isLt)

end Numbers

/-! ### Reports -/

/-- The call finishes, and its outcome is `-EBADF` exactly if the descriptor is bad. -/
def Reports (h : Handled) (bad : Prop) : Prop :=
  ∃ r, h = .ok r ∧ (r.1.value = -Errno.ebadf.code ↔ bad)

section Reports

variable {k : Kernel} {args : Args} {bad : Prop} {h : Handled}

theorem reports_ebadf (k : Kernel) : Reports (k.answer (.errno .ebadf)) bad ↔ bad := by
  constructor
  · rintro ⟨r, hr, hiff⟩
    cases hr
    exact hiff.mp rfl
  · exact fun hbad => ⟨_, rfl, fun _ => hbad, fun _ => rfl⟩

/-- An outcome other than `-EBADF`. -/
theorem reports_of_ne (hr : r.1.value ≠ -9) : Reports (.ok r) bad ↔ ¬ bad := by
  constructor
  · rintro ⟨_, heq, hiff⟩ hbad
    cases heq
    exact hr (hiff.mpr hbad)
  · exact fun hbad => ⟨r, rfl, iff_of_false hr hbad⟩

theorem reports_answer (k : Kernel) (hout : out.value ≠ -9) :
    Reports (k.answer out) bad ↔ ¬ bad := reports_of_ne hout

theorem not_reports_error : ¬ Reports (.error e) bad := fun ⟨_, h, _⟩ => nomatch h

theorem errno_value_ne (he : e ≠ .ebadf) : (SyscallOutcome.errno e).value ≠ -9 := by
  cases e
  all_goals first | exact absurd rfl he | exact (by decide)

theorem success_value_ne (hvalue : 0 ≤ value) : (SyscallOutcome.success value).value ≠ -9 := by
  change value ≠ -9
  omega

theorem asErrno_ne_ebadf (e : UserCopyError) : e.asErrno ≠ .ebadf := by
  cases e <;> exact nofun

theorem copyoutStruct_value_ne (k : Kernel) (ptr : ℕ) (bytes : List UInt8) :
    (copyoutStruct k ptr bytes).1.value ≠ -9 := by
  rw [copyoutStruct]
  split
  · exact errno_value_ne (asErrno_ne_ebadf _)
  · exact success_value_ne le_rfl

theorem direntLoop_value_ne (i : Fin maxSystemFiles) (dirp count : ℕ) (lines : List (List UInt8))
    (written current : ℕ) (k : Kernel) :
    (direntLoop i dirp count lines written current k).1.value ≠ -9 := by
  induction lines generalizing written current k with
  | nil => exact success_value_ne (Int.natCast_nonneg _)
  | cons line lines ih =>
    rw [direntLoop]
    simp only
    split_ifs
    · exact ih written current k
    · exact success_value_ne (Int.natCast_nonneg _)
    · split
      · exact errno_value_ne (by simp)
      · exact ih _ _ _

theorem Bounded.fileIndex (hk : Bounded k) (hc : k.Caller c) (h : k.table fd = some index) :
    ∃ i : Fin maxSystemFiles, index = i ∧ Syscall.fileIndex index = .ok i := by
  rw [Kernel.table_of_current hc.current] at h
  exact ⟨⟨index, hk _ _ h⟩, rfl, fileIndex_eq_ok.mpr rfl⟩

end Reports

/-! ### The conditions -/

/-- The argument is cut off to a descriptor that refers to an open file: then it must be that
descriptor if the file is used, and it must be another number if it is not. -/
def CutOffAgrees (k : Kernel) (arg : U64) : Prop :=
  ∀ fd index, fdIndex (asI32 arg) = some fd → k.table fd = some index →
    ((k.entry index).isUsed = true ↔ (arg : ℕ) = fd)

/-- When a call finishes and reports exactly the descriptors that are not open. -/
def FdCondition (k : Kernel) (args : Args) : FileCall → Prop
  | .read =>
    (IsOpen k (args 0) → maxReadBytes < args 2 ∨
      ∀ index, descriptor k.table (args 0 : ℕ) = some index → (k.entry index).isUsed = true) ∧
    (¬ IsOpen k (args 0) → 2 ^ 31 ≤ (args 0 : ℕ) ∨ (args 2 : ℕ) ≤ maxReadBytes)
  | .fstat => ∀ fd, fdIndex (asI32 (args 0)) = some fd → IsOpen k (args 0)
  | .getdents64 | .lseek => CutOffAgrees k (args 0)
  | .ioctl => CutOffAgrees k (args 0) ∧
      ∀ fd, fdIndex (asI32 (args 0)) = some fd → k.table fd ≠ none
  | .dup => ∀ fd, fdIndex (asI32 (args 0)) = some fd → k.table fd ≠ none → (args 0 : ℕ) = fd
  | .dup2 => ∀ fd, fdIndex (asI32 (args 0)) = some fd →
      if (fd : ℕ) = args 1 then IsOpen k (args 0)
      else k.table fd ≠ none → (args 0 : ℕ) = fd
  | _ => True

section Handlers

variable {k : Kernel} {args : Args} {c : Slot}

theorem closeFd_reports (hk : Bounded k) (hc : k.Caller c) :
    Reports (closeFd k args) (¬ IsOpen k (args 0)) := by
  rw [closeFd, parseFd]
  split_ifs with hlt
  · simp only [closeOpenFile]
    rw [isOpen_iff_descriptor, descriptor]
    cases hfd : fdIndex (args 0 : ℕ) with
    | none => exact (reports_ebadf k).mpr fun h => h rfl
    | some fd =>
      simp only [Option.bind_some]
      cases htable : k.table fd with
      | none => exact (reports_ebadf k).mpr fun h => h rfl
      | some index =>
        obtain ⟨i, -, hi⟩ := hk.fileIndex hc htable
        simp only [hi]
        exact (reports_answer _ (success_value_ne le_rfl)).mpr fun h => h (by simp)
  · refine (reports_ebadf k).mpr ?_
    rintro ⟨fd, harg, -⟩
    have hfd : (fd : ℕ) < 64 := fd.isLt
    omega

/-- Reading from the number of a descriptor. -/
theorem readOpenFile_reports (hk : Bounded k) (hc : k.Caller c) (ptr count : ℕ) :
    Reports (readOpenFile k (args 0 : ℕ) ptr count) (¬ IsOpen k (args 0)) ↔
      ∀ index, descriptor k.table (args 0 : ℕ) = some index → (k.entry index).isUsed = true := by
  rw [readOpenFile, isOpen_iff_descriptor]
  cases hfd : descriptor k.table (args 0 : ℕ) with
  | none => exact iff_of_true ((reports_ebadf k).mpr fun h => h rfl) (by simp)
  | some index =>
    obtain ⟨fd, -, htable⟩ := Option.bind_eq_some_iff.mp hfd
    obtain ⟨i, rfl, hi⟩ := hk.fileIndex hc htable
    have hcond : (∀ index, some (i : ℕ) = some index → (k.entry index).isUsed = true) ↔
        (k.files i).isUsed = true := by
      rw [← k.entry_val]
      exact ⟨fun h => h i rfl, fun h index hindex => Option.some.inj hindex ▸ h⟩
    rw [hcond]
    simp only [hi, bind, Except.bind]
    cases hfile : (k.files i).isUsed with
    | false =>
      rw [if_pos rfl, reports_ebadf]
      simp
    | true =>
      simp only [Bool.true_eq_false, if_false, iff_true]
      split_ifs
      · exact (reports_answer k (success_value_ne le_rfl)).mpr fun h => h (by simp)
      · exact (reports_answer k (success_value_ne le_rfl)).mpr fun h => h (by simp)
      · split
        · exact (reports_answer _ (errno_value_ne (asErrno_ne_ebadf _))).mpr fun h => h (by simp)
        · exact (reports_answer _ (success_value_ne (Int.natCast_nonneg _))).mpr fun h => h (by simp)

theorem readFromFd_reports (hk : Bounded k) (hc : k.Caller c) :
    Reports (readFromFd k args) (¬ IsOpen k (args 0)) ↔ FdCondition k args .read := by
  rw [readFromFd, parseFd, FdCondition]
  by_cases hlt : (args 0 : ℕ) < 2 ^ 31
  swap
  · have hnot : ¬ IsOpen k (args 0) := by
      rintro ⟨fd, harg, -⟩
      have hfd : (fd : ℕ) < 64 := fd.isLt
      omega
    rw [if_neg hlt]
    exact iff_of_true ((reports_ebadf k).mpr hnot)
      ⟨fun h => absurd h hnot, fun _ => .inl (not_lt.mp hlt)⟩
  rw [if_pos hlt]
  by_cases hcount : maxReadBytes < args 2
  · simp only [if_pos hcount]
    rw [reports_answer k (errno_value_ne (e := .erange) (by simp)), not_not]
    refine ⟨fun hopen => ⟨fun _ => .inl hcount, fun hnot => absurd hopen hnot⟩, fun h => ?_⟩
    by_contra hnot
    have hor := h.2 hnot
    omega
  · simp only [if_neg hcount]
    rw [readOpenFile_reports hk hc]
    refine ⟨fun h => ⟨fun _ => .inr h, fun _ => .inr (not_lt.mp hcount)⟩, fun h index hindex => ?_⟩
    have hopen : IsOpen k (args 0) := isOpen_iff_descriptor.mpr (hindex.trans_ne (by simp))
    exact (h.1 hopen).resolve_left hcount index hindex

theorem sysFstat_reports : Reports (.ok (sysFstat k args)) (¬ IsOpen k (args 0)) ↔
    FdCondition k args .fstat := by
  rw [sysFstat]
  cases hfd : fdIndex (asI32 (args 0)) with
  | none =>
    refine iff_of_true ((reports_ebadf k).mpr (not_isOpen_of_none hfd)) fun fd hfd' => ?_
    rw [hfd] at hfd'
    cases hfd'
  | some fd =>
    simp only
    rw [reports_of_ne (copyoutStruct_value_ne _ _ _), not_not]
    exact ⟨fun hopen _ _ => hopen, fun h => h fd hfd⟩

/-- A handler that looks up the open file of a cut-off argument and answers `EBADF` if it is not
used. -/
theorem cutOff_reports (args : Args) (body : Fin maxSystemFiles → Handled) (hk : Bounded k)
    (hc : k.Caller c)
    (hunused : ∀ i, (k.files i).isUsed = false → body i = k.answer (.errno .ebadf))
    (hused : ∀ i, (k.files i).isUsed = true → ∃ r, body i = .ok r ∧ r.1.value ≠ -9) :
    Reports (match descriptor k.table (asI32 (args 0)) with
      | none => k.answer (.errno .ebadf)
      | some index => fileIndex index >>= body) (¬ IsOpen k (args 0)) ↔
      CutOffAgrees k (args 0) := by
  rw [descriptor]
  cases hfd : fdIndex (asI32 (args 0)) with
  | none =>
    refine iff_of_true ((reports_ebadf k).mpr (not_isOpen_of_none hfd)) fun fd index hfd' => ?_
    rw [hfd] at hfd'
    cases hfd'
  | some fd =>
    rw [isOpen_iff_of_some hfd, Option.bind_some]
    cases htable : k.table fd with
    | none =>
      refine iff_of_true ((reports_ebadf k).mpr fun h => h.2 rfl) fun fd' index hfd' hindex => ?_
      rw [hfd] at hfd'
      cases hfd'
      rw [htable] at hindex
      cases hindex
    | some index =>
      obtain ⟨i, rfl, hi⟩ := hk.fileIndex hc htable
      have hagrees : CutOffAgrees k (args 0) ↔
          ((k.files i).isUsed = true ↔ (args 0 : ℕ) = fd) := by
        rw [← k.entry_val]
        constructor
        · exact fun h => h fd i hfd htable
        · intro h fd' index hfd' hindex
          rw [hfd] at hfd'
          cases hfd'
          rw [htable] at hindex
          cases hindex
          exact h
      simp only [hi]
      rw [hagrees]
      change Reports (body i) _ ↔ _
      cases hfile : (k.files i).isUsed with
      | false =>
        rw [hunused i hfile, reports_ebadf]
        simp
      | true =>
        obtain ⟨r, hr, hne⟩ := hused i hfile
        rw [hr, reports_of_ne hne]
        simp

section

variable (hk : Bounded k) (hc : k.Caller c)

include hk hc

theorem sysGetdents64_reports :
    Reports (sysGetdents64 k args) (¬ IsOpen k (args 0)) ↔ FdCondition k args .getdents64 := by
  refine cutOff_reports args _ hk hc (fun i hi => if_pos hi) fun i hi => ?_
  simp only [hi, Bool.true_eq_false, if_false]
  split_ifs
  · exact ⟨_, rfl, success_value_ne le_rfl⟩
  · exact ⟨_, rfl, errno_value_ne nofun⟩
  · exact ⟨_, rfl, direntLoop_value_ne _ _ _ _ _ _ _⟩

theorem sysLseek_reports :
    Reports (sysLseek k args) (¬ IsOpen k (args 0)) ↔ FdCondition k args .lseek := by
  refine cutOff_reports args _ hk hc (fun i hi => if_pos hi) fun i hi => ?_
  simp only [hi, Bool.true_eq_false, if_false]
  split
  · exact ⟨_, rfl, errno_value_ne nofun⟩
  split_ifs with htarget
  · exact ⟨_, rfl, errno_value_ne nofun⟩
  · exact ⟨_, rfl, success_value_ne (not_lt.mp htarget)⟩

theorem sysIoctl_reports :
    Reports (sysIoctl k args) (¬ IsOpen k (args 0)) ↔ FdCondition k args .ioctl := by
  have hagrees := cutOff_reports args (fun i =>
    if (k.files i).isUsed = false then k.answer (.errno .ebadf) else k.answer (.success 0)) hk hc
    (fun i hi => if_pos hi) fun i hi => ⟨_, if_neg (by rw [hi]; exact nofun),
      success_value_ne le_rfl⟩
  rw [descriptor] at hagrees
  rw [sysIoctl, FdCondition, ← hagrees]
  cases hfd : fdIndex (asI32 (args 0)) with
  | none =>
    refine (and_iff_left fun fd hfd' => ?_).symm
    cases hfd'
  | some fd =>
    simp only [Option.bind_some]
    cases htable : k.table fd with
    | none =>
      refine iff_of_false (fun h => ?_) fun h => h.2 fd rfl htable
      have hpanic : fileIndex ((none : Option ℕ).getD 9999) = .error .indexOutOfBounds := by decide
      simp only [hpanic] at h
      exact not_reports_error h
    | some index =>
      refine (and_iff_left fun fd' hfd' => ?_).symm
      cases hfd'
      rw [htable]
      exact nofun

theorem sysDup_reports :
    Reports (sysDup k args) (¬ IsOpen k (args 0)) ↔ FdCondition k args .dup := by
  rw [sysDup, descriptor, FdCondition]
  cases hfd : fdIndex (asI32 (args 0)) with
  | none => exact iff_of_true ((reports_ebadf k).mpr (not_isOpen_of_none hfd)) (by simp)
  | some fd =>
    rw [isOpen_iff_of_some hfd, Option.bind_some]
    cases htable : k.table fd with
    | none =>
      refine iff_of_true ((reports_ebadf k).mpr fun h => h.2 rfl) fun fd' hfd' hopen => ?_
      cases hfd'
      exact absurd htable hopen
    | some index =>
      obtain ⟨i, rfl, hi⟩ := hk.fileIndex hc htable
      have hcond : (∀ fd', some fd = some fd' → k.table fd' ≠ none → (args 0 : ℕ) = fd') ↔
          (args 0 : ℕ) = fd := by
        refine ⟨fun h => h fd rfl (htable.trans_ne (by simp)), fun h fd' hfd' _ => ?_⟩
        cases hfd'
        exact h
      rw [hcond]
      simp only
      split
      · rw [reports_answer k (errno_value_ne (e := .emfile) (by simp))]
        simp
      · simp only [hi, bind, Except.bind]
        rw [reports_answer _ (success_value_ne (Int.natCast_nonneg _))]
        simp

theorem sysDup2_reports (hnew : (args 1 : ℕ) < maxProcessFds) :
    Reports (sysDup2 k args) (¬ IsOpen k (args 0)) ↔ FdCondition k args .dup2 := by
  have hnewFd : fdIndex (asI32 (args 1)) = some ⟨args 1, hnew⟩ :=
    fdIndex_asI32_natCast ⟨args 1, hnew⟩
  rw [sysDup2, FdCondition, hnewFd]
  cases hfd : fdIndex (asI32 (args 0)) with
  | none => exact iff_of_true ((reports_ebadf k).mpr (not_isOpen_of_none hfd)) (by simp)
  | some fd =>
    have hforall (p : Fin maxProcessFds → Prop) :
        (∀ fd', some fd = some fd' → p fd') ↔ p fd :=
      ⟨fun h => h fd rfl, fun h fd' hfd' => Option.some.inj hfd' ▸ h⟩
    rw [hforall]
    simp only [Fin.ext_iff]
    split_ifs with heq
    · rw [reports_answer k (success_value_ne (Int.natCast_nonneg _)), not_not]
    · rw [isOpen_iff_of_some hfd]
      cases htable : k.table fd with
      | none => exact iff_of_true ((reports_ebadf k).mpr fun h => h.2 rfl) fun h => absurd rfl h
      | some index =>
        obtain ⟨i, rfl, hi⟩ := hk.fileIndex hc htable
        have hrelease : ∃ k', releaseReplaced k ⟨args 1, hnew⟩ = .ok k' := by
          rw [releaseReplaced]
          cases hreplaced : k.table ⟨args 1, hnew⟩ with
          | none => exact ⟨k, rfl⟩
          | some j =>
            obtain ⟨j, rfl, hj⟩ := hk.fileIndex hc hreplaced
            simp only [hj]
            exact ⟨_, rfl⟩
        obtain ⟨k', hk'⟩ := hrelease
        simp only [hk', hi, bind, Except.bind]
        rw [reports_answer _ (success_value_ne (Int.natCast_nonneg _))]
        simp

end

end Handlers

/-- The calls that take a descriptor. -/
def FileCall.takesFd : FileCall → Bool
  | .read | .close | .fstat | .getdents64 | .ioctl | .lseek | .dup | .dup2 => true
  | .open | .openat | .pipe | .exitGroup => false

/-- **Which calls check their descriptor.** In every state that a run reaches, and for all arguments, a
call finishes and answers `EBADF` exactly for the numbers that are not open, if and only if its
condition holds. `close` does so always. -/
theorem checksFd_iff {P : Platform} {k₀ k : Kernel} {events : List FileEvent} {c : Slot}
    {call : FileCall} (vfs : Vfs) (memory : UserMemory) (args : Args) (hboot : Booted P k₀)
    (hrun : Run (FileStep P) k₀ events k) (hc : k.Caller c) (hcall : call.takesFd = true)
    (hnew : call = .dup2 → (args 1 : ℕ) < maxProcessFds) :
    Reports (call.exec vfs (k.setMemory memory) args) (¬ IsOpen k (args 0)) ↔
      FdCondition k args call := by
  have hbounded : Bounded k := .of_run hboot hrun
  have hk : Bounded (k.setMemory memory) := hbounded
  have hc' : (k.setMemory memory).Caller c := ⟨hc.current, hc.alive⟩
  cases call with
  | read => exact readFromFd_reports hk hc'
  | close => exact iff_of_true (closeFd_reports hk hc') trivial
  | fstat => exact sysFstat_reports (k := k.setMemory memory)
  | getdents64 => exact sysGetdents64_reports hk hc'
  | ioctl => exact sysIoctl_reports hk hc'
  | lseek => exact sysLseek_reports hk hc'
  | dup => exact sysDup_reports hk hc'
  | dup2 => exact sysDup2_reports hk hc' (hnew rfl)
  | «open» | openat | pipe | exitGroup => cases hcall

/-- The bootstrap thread has a file open as descriptor 3 and closes it. -/
theorem checksFd_iff_close : ∃ k₀ k, Booted examplePlatform k₀ ∧
    Run (FileStep examplePlatform) k₀ [openExample "/a"] k ∧ k.Caller 0 ∧
    Reports (FileCall.close.exec exampleVfs (k.setMemory (exampleMemory "")) (exampleArgs 3 0))
      (¬ IsOpen k (exampleArgs 3 0 0)) := by
  obtain ⟨k₀, k, hboot, hrun, hc⟩ := exists_of_evaluateFiles examplePlatform 3 (fun _ _ => true)
    [openExample "/a"] (Q := (·.Caller 0)) (by decide +kernel)
  have hrun' : Run (FileStep examplePlatform) k₀ [openExample "/a"] k :=
    hrun.mono fun _ _ _ h => h.2
  have hnew : FileCall.close = .dup2 → (exampleArgs 3 0 1 : ℕ) < maxProcessFds := nofun
  exact ⟨k₀, k, hboot, hrun', hc, (checksFd_iff exampleVfs _ _ hboot hrun' hc rfl hnew).mpr trivial⟩

/-- **Descriptors are not checked alike.** After boot no descriptor is open. `ioctl` on descriptor 5
runs past the table of open files, and `fstat` on it succeeds. -/
theorem descriptors_unchecked : ∃ k, Booted examplePlatform k ∧ k.Caller 0 ∧
    ¬ IsOpen k (exampleArgs 5 0x2000 0) ∧
    FileCall.ioctl.exec exampleVfs k (exampleArgs 5 0x2000) = .error .indexOutOfBounds ∧
    ∃ k', FileCall.fstat.exec exampleVfs k (exampleArgs 5 0x2000) = .ok (.success 0, k') := by
  obtain ⟨k, hboot, hc⟩ := exists_caller
  have htable (fd : Fin maxProcessFds) : k.table fd = none := by
    rw [Kernel.table_of_current hc.1, hboot.ref_eq_none]
  have hfd : fdIndex (asI32 (exampleArgs 5 0x2000 0)) = some 5 := by decide
  refine ⟨k, hboot, hc, ?_, ?_, ?_⟩
  · rintro ⟨fd, -, hopen⟩
    exact hopen (htable fd)
  · rw [FileCall.exec, sysIoctl, hfd]
    simp only [htable]
    rfl
  · have hvalid : validateUserRange (exampleArgs 5 0x2000 1) (statBytes 0o100644 4096 1).length =
        .ok () := by decide +kernel
    rw [FileCall.exec, sysFstat, hfd]
    simp only [copyoutStruct, UserMemory.copyout, hvalid]
    exact ⟨_, rfl⟩

end Hxnu.Syscall
