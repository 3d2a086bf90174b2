import SystemFirmware.TtBootFs.Device

/-!
# Boot filesystem — listing the descriptors

`tt_boot_fs_ls` reads descriptors until the end of the table or until it has as many as it
was asked for. Its documentation lets it count the files when there is no array to store
them in, whatever the other two parameters are; the code counts only what it would have
stored (`ttBootFsLs_documented`).
-/

namespace SystemFirmware.TtBootFs

open Lib

def fdAt (f : Flash) (i : ℕ) : Fd := Fd.ofBytes (fdBytesAt f i)

/-- **Descriptor table.** `n` valid descriptors with correct checksums, and then one that
is marked invalid. -/
structure ValidTable (f : Flash) (n : ℕ) : Prop where
  valid : ∀ i < n, flagInvalid (fdAt f i).flags = false ∧
    checksumOk ((fdBytesAt f i).take (fdSize - 4)) (fdAt f i).fdCrc = true
  sentinel : flagInvalid (fdAt f n).flags = true

/-- The elements of the array after `count` descriptors from `offset` on were stored. -/
def storedFrom (f : Flash) (offset count : ℕ) : List (ℕ × Fd) :=
  (List.range count).map fun k => (k, fdAt f (offset + k))

theorem storedFrom_succ {f : Flash} {offset count : ℕ} :
    storedFrom f offset (count + 1) =
      storedFrom f offset count ++ [(count, fdAt f (offset + count))] := by
  rw [storedFrom, List.range_succ, List.map_append]
  rfl

section

variable {f : Flash} {ioOk : ℕ → Bool} {n i : ℕ}

theorem ValidTable.read_valid (h : ValidTable f n) (hio : ∀ i, ioOk i = true) (hi : i < n) :
    readAndValidateFd f ioOk i = .ok (some (fdAt f i)) := by
  obtain ⟨hinvalid, hcrc⟩ := h.valid i hi
  unfold fdAt at hinvalid hcrc ⊢
  simp [readAndValidateFd, hio i, hinvalid, hcrc]

theorem ValidTable.read_sentinel (h : ValidTable f n) (hio : ∀ i, ioOk i = true) :
    readAndValidateFd f ioOk n = .ok none := by
  have hinvalid := h.sentinel
  unfold fdAt at hinvalid
  simp [readAndValidateFd, hio n, hinvalid]

variable {fuel : ℕ}

theorem lsFrom_eq (h : ValidTable f n) (hio : ∀ i, ioOk i = true) (hasFds : Bool)
    {nfds offset : ℕ} (hi : i ≤ n) (hfound : i - offset < nfds) (hfuel : n - i < fuel) :
    lsFrom f ioOk hasFds nfds offset fuel i (i - offset)
        (if hasFds then storedFrom f offset (i - offset) else []) =
      some (.ok (min nfds (n - offset)),
        if hasFds then storedFrom f offset (min nfds (n - offset)) else []) := by
  induction fuel generalizing i with
  | zero => omega
  | succ fuel ih =>
    unfold lsFrom
    by_cases hend : i = n
    · subst hend
      rw [h.read_sentinel hio, Nat.min_eq_right (Nat.le_of_lt hfound)]
    · rw [h.read_valid hio (by omega)]
      dsimp only
      by_cases hoffset : i ≥ offset
      · have hnext : i + 1 - offset = i - offset + 1 := by omega
        have hstored : (if hasFds = true ∧ i - offset < nfds then
            (if hasFds then storedFrom f offset (i - offset) else []) ++ [(i - offset, fdAt f i)]
            else if hasFds then storedFrom f offset (i - offset) else []) =
            if hasFds then storedFrom f offset (i + 1 - offset) else [] := by
          rw [hnext, storedFrom_succ, show offset + (i - offset) = i by omega]
          cases hasFds <;> simp [hfound]
        rw [if_pos hoffset, hstored, ← hnext]
        by_cases hfull : i + 1 - offset = nfds
        · rw [if_pos hfull, Nat.min_eq_left (by omega), hfull]
        · rw [if_neg hfull]
          exact ih (by omega) (by omega) (by omega)
      · rw [if_neg hoffset]
        have hsame := ih (show i + 1 ≤ n by omega) (by omega) (by omega)
        rw [show i + 1 - offset = i - offset by omega] at hsame
        exact hsame

theorem ttBootFsLs_eq (h : ValidTable f n) (hio : ∀ i, ioOk i = true) (hfuel : n < fuel)
    (hasFds : Bool) (nfds offset : ℕ) :
    ttBootFsLs true f ioOk hasFds nfds offset fuel =
      some (.ok (min nfds (n - offset)),
        if hasFds then storedFrom f offset (min nfds (n - offset)) else []) := by
  unfold ttBootFsLs
  by_cases hzero : nfds = 0
  · subst hzero
    cases hasFds <;> simp [storedFrom]
  · have hloop := lsFrom_eq h hio hasFds (Nat.zero_le n)
      (show 0 - offset < nfds by omega) (show n - 0 < fuel by omega)
    rw [Nat.zero_sub, show (if hasFds = true then storedFrom f offset 0 else []) = [] by
      cases hasFds <;> rfl] at hloop
    simpa [hzero] using hloop

end

/-- What the documentation of `tt_boot_fs_ls` says that a call returns and stores: an array gets
the descriptors from `offset` on, at most `nfds` of them; without one, all files are counted. -/
def documentedLs (f : Flash) (n : ℕ) (hasFds : Bool) (nfds offset : ℕ) :
    Except Errno ℕ × List (ℕ × Fd) :=
  if hasFds then (.ok (min nfds (n - offset)), storedFrom f offset (min nfds (n - offset)))
  else (.ok n, [])

/-- **When a call does what its documentation says**: exactly if there is an array, or what is left
of the files from `offset` on, up to `nfds`, is all of them. -/
theorem ttBootFsLs_documented {f : Flash} {ioOk : ℕ → Bool} {hasFds : Bool}
    {n nfds offset fuel : ℕ} (htable : ValidTable f n) (hio : ∀ i, ioOk i = true)
    (hfuel : n < fuel) :
    ttBootFsLs true f ioOk hasFds nfds offset fuel = some (documentedLs f n hasFds nfds offset) ↔
      hasFds = true ∨ min nfds (n - offset) = n := by
  rw [ttBootFsLs_eq htable hio hfuel hasFds nfds offset, documentedLs]
  cases hasFds <;> simp

def twoFiles : Flash := fun a => if a < 2 * fdSize then 0 else 0xFF

theorem validTable_twoFiles : ValidTable twoFiles 2 where
  valid := by decide
  sentinel := by decide

theorem ttBootFsLs_documented_twoFiles :
    ttBootFsLs true twoFiles (fun _ => true) true 5 1 3 = some (.ok 1, storedFrom twoFiles 1 1) :=
  (ttBootFsLs_documented validTable_twoFiles (fun _ => rfl) (by decide)).mpr (.inl rfl)

/-- Without an array the limit and the offset are not ignored: of two files none or one is
counted. -/
theorem ttBootFsLs_count_limited :
    ValidTable twoFiles 2 ∧
      ttBootFsLs true twoFiles (fun _ => true) false 0 0 3 = some (.ok 0, []) ∧
      ttBootFsLs true twoFiles (fun _ => true) false 5 1 3 = some (.ok 1, []) := by
  refine ⟨validTable_twoFiles, by decide, by decide⟩

end SystemFirmware.TtBootFs
