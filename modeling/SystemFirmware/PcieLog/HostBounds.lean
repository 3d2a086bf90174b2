import SystemFirmware.PcieLog.HostMemory

/-!
# PCIe log backend — the bounds of the host's buffer

What a flush stores is clamped to the host's buffer in bytes, but stored in words, and in a
window of 16 MiB that wraps. So the stores stay inside the buffer
(`pcie_log_writes_in_buffer`) if

* the data area, rounded up to whole words, does (a buffer of 29 bytes has room for 13
  bytes of data, and four words are stored), and
* it ends in the window that the buffer begins in.

`wordEnd` is where the stores for a buffer end.
-/

namespace SystemFirmware.PcieLog

open Lib

-- ---
-- Stores

/-- What the access changes in the host's memory, whatever is there, lies in the buffer. -/
def HostOp.Inside (iova : UInt64) (size : UInt32) (op : HostOp) : Prop :=
  ∀ (memory : Flash) (x : ℕ), op.apply iova memory x ≠ memory x →
    iova.toNat ≤ x ∧ x < iova.toNat + size.toNat

/-- The end of the last word that is stored for a buffer, from its beginning. -/
def wordEnd (bufferSize : ℕ) (size : UInt32) : ℕ :=
  bufferHeaderSize + (min bufferSize (size.toNat - bufferHeaderSize) + 3) / 4 * 4

section

variable {iova : UInt64} {size : UInt32} {bufferSize : ℕ}

variable {data : UInt32}

theorem write32_inside {offset : ℕ} (hsize : offset + 4 ≤ size.toNat)
    (hwindow : iova.toNat % 2 ^ 24 + offset + 4 ≤ 2 ^ 24) :
    HostOp.Inside iova size (.write32 ((iova.toNat + offset) % 2 ^ 24) data) := by
  intro memory x hchanged
  have haddr : hostAddr iova ((iova.toNat + offset) % 2 ^ 24) = iova.toNat + offset :=
    hostAddr_mod (by omega)
  by_contra houtside
  refine hchanged (Flash.program_outside ?_)
  rw [haddr, length_le32]
  omega

variable {offset : UInt64}

theorem windowAddr_add : windowAddr (iova + offset) = (iova.toNat + offset.toNat) % 2 ^ 24 := by
  rw [windowAddr, UInt64.toNat_add]
  omega

theorem header_inside (hoffset : offset.toNat ≤ 12) (hsize : bufferHeaderSize ≤ size.toNat)
    (hwindow : iova.toNat % 2 ^ 24 + bufferHeaderSize ≤ 2 ^ 24) :
    HostOp.Inside iova size (.write32 (windowAddr (iova + offset)) data) := by
  rw [bufferHeaderSize] at hsize hwindow
  rw [windowAddr_add]
  exact write32_inside (by omega) (by omega)

theorem noWrite_inside {ops : List HostOp} (h : NoWrite ops) : ∀ op ∈ ops, op.Inside iova size := by
  intro op hop memory x hchanged
  cases op with
  | read32 addr value => exact absurd rfl hchanged
  | write32 addr data => exact absurd hop (h addr data)
  | msi => exact absurd rfl hchanged

theorem handoverOps_inside {owner : UInt32} {batch : List UInt8}
    (hbatch : batch.length ≤ min bufferSize (size.toNat - bufferHeaderSize))
    (hsize : wordEnd bufferSize size ≤ size.toNat)
    (hwindow : iova.toNat % 2 ^ 24 + wordEnd bufferSize size ≤ 2 ^ 24) :
    ∀ op ∈ handoverOps iova owner batch, op.Inside iova size := by
  have hend : bufferHeaderSize + 4 * (wordsOf batch).length ≤ wordEnd bufferSize size := by
    have := @length_wordsOf batch
    rw [wordEnd]
    omega
  have hheader : ∀ {offset : UInt64} {data : UInt32}, offset.toNat ≤ 12 →
      HostOp.Inside iova size (.write32 (windowAddr (iova + offset)) data) :=
    fun hoffset => header_inside hoffset (by omega) (by omega)
  intro op hop
  rw [handoverOps, List.mem_append, List.mem_append] at hop
  obtain (hread | hdata) | hlast := hop
  · refine noWrite_inside ?_ op hread
    simp [NoWrite]
  · obtain ⟨k, hk, rfl⟩ := List.mem_mapIdx.mp hdata
    rw [Nat.add_assoc]
    exact write32_inside (by omega) (by omega)
  · simp only [List.mem_cons, List.not_mem_nil, or_false] at hlast
    obtain rfl | rfl | rfl := hlast
    · have hfirst := @hheader 0 (UInt32.ofNat (bufferHeaderSize + batch.length)) (by decide)
      rwa [UInt64.add_zero] at hfirst
    · exact hheader (by decide)
    · exact fun memory x hchanged => absurd rfl hchanged

end

-- ---
-- Runs

def Action.IsLog : Action → Prop
  | .process _ _ _ _ => True
  | .flush _ _ => True
  | _ => False

/-- The accesses of a run so far to a buffer that is set up, and what may come next. -/
structure Bounded (bufferSize : ℕ) (iova : UInt64) (size : UInt32) (s : State)
    (accesses : List Access) : Prop where
  iova_eq : s.logBufferIova = iova
  size_eq : s.logBufferSize = size
  pos_le : s.framedBufferPos ≤ bufferSize
  inside : ∀ a ∈ accesses, a.iova = iova ∧ ∀ op ∈ a.ops, op.Inside iova size

namespace Bounded

variable {bufferSize : ℕ} {iova : UInt64} {size : UInt32} {s s' : State} {accesses : List Access}

theorem flush {ops : List HostOp} {origin : Origin} (h : Bounded bufferSize iova size s accesses)
    (hsize : wordEnd bufferSize size ≤ size.toNat)
    (hwindow : iova.toNat % 2 ^ 24 + wordEnd bufferSize size ≤ 2 ^ 24) (hflush : FlushResult s ops s') :
    Bounded bufferSize iova size s' (accesses ++ [s'.access origin ops]) := by
  have haccess := hflush.access_eq
  have hbatch : s.batch.length ≤ min bufferSize (size.toNat - bufferHeaderSize) := by
    have := h.pos_le
    rw [State.batch, Flash.length_read, h.size_eq]
    omega
  have hinside : ∀ op ∈ ops, op.Inside iova size := by
    obtain hnone | ⟨owner, -, rfl⟩ := hflush.ops
    · exact noWrite_inside hnone
    · rw [h.iova_eq]
      exact handoverOps_inside hbatch hsize hwindow
  have hall : ∀ a ∈ accesses ++ [s'.access origin ops],
      a.iova = iova ∧ ∀ op ∈ a.ops, op.Inside iova size := by
    intro a ha
    rw [List.mem_append, List.mem_singleton, haccess] at ha
    obtain ha | rfl := ha
    · exact h.inside a ha
    · exact ⟨h.iova_eq, hinside⟩
  obtain rfl | rfl := hflush.state
  · exact ⟨h.iova_eq, h.size_eq, h.pos_le, hall⟩
  · exact ⟨h.iova_eq, h.size_eq, Nat.zero_le _, hall⟩

theorem keep (h : Bounded bufferSize iova size s accesses)
    (haccess : s'.access = s.access) (hpos : s'.framedBufferPos ≤ bufferSize) :
    Bounded bufferSize iova size s' accesses := by
  have hsame := congrFun (congrFun haccess .flush) []
  exact ⟨(congrArg Access.iova hsame).trans h.iova_eq, (congrArg Access.bufferSize hsame).trans h.size_eq,
    hpos, h.inside⟩

end Bounded

section

variable {bufferSize : ℕ} {iova : UInt64} {size : UInt32}

theorem FlushResult.pos_le {s s' : State} {ops : List HostOp} (h : FlushResult s ops s')
    (hs : s.framedBufferPos ≤ bufferSize) : s'.framedBufferPos ≤ bufferSize := by
  obtain rfl | rfl := h.state
  · exact hs
  · exact Nat.zero_le _

theorem frameEntry_pos_le {s : State} {msg : Message}
    (hroom : s.framedBufferPos + entryHeaderSize + 1 ≤ bufferSize) :
    (frameEntry bufferSize msg s).framedBufferPos ≤ bufferSize := by
  rw [(@frameEntry_spec bufferSize s msg).1.pos_eq]
  exact pos_add_length_entryOf_le hroom

variable {w : World} {old : List Access}

theorem step_bounded {accesses : List Access} {a : Action}
    (h : Bounded bufferSize iova size w.state accesses) (hold : w.accesses = old ++ accesses)
    (ha : a.IsLog) (hsize : wordEnd bufferSize size ≤ size.toNat)
    (hwindow : iova.toNat % 2 ^ 24 + wordEnd bufferSize size ≤ 2 ^ 24) :
    ∃ accesses', (step bufferSize w a).accesses = old ++ accesses' ∧
      Bounded bufferSize iova size (step bufferSize w a).state accesses' := by
  have hflush : ∀ {s s' : State} {ops : List HostOp} {accesses : List Access},
      Bounded bufferSize iova size s accesses → FlushResult s ops s' →
        Bounded bufferSize iova size s' (accesses ++ [s'.access .flush ops]) :=
    fun h hresult => h.flush hsize hwindow hresult
  cases a with
  | flush locked host =>
    cases locked with
    | false => exact ⟨accesses, hold, h⟩
    | true =>
      refine ⟨_, ?_, hflush h (flushBufferToHost_result host w.state)⟩
      rw [← List.append_assoc, ← hold]
      rfl
  | process msg locked early late =>
    have htwo : ∀ x y : Access, w.accesses ++ [x, y] = old ++ (accesses ++ [x] ++ [y]) := by
      intro x y
      rw [hold, List.append_assoc, List.append_assoc]
      rfl
    rw [step]
    obtain heq | ⟨ops, s₁, hearly, heq⟩ | ⟨entry, ops, s₁, ops', s₂, hearly, hroom, hlate, -, heq⟩ :=
      @backendProcess_cases bufferSize msg locked early late w.state
    · rw [heq]
      exact ⟨_, htwo _ _, hflush (hflush h (.refl _)) (.refl _)⟩
    · rw [heq]
      have hfirst := hflush h hearly
      have hnext := hflush (@Bounded.keep _ _ _ _
        { s₁ with sequenceNumber := s₁.sequenceNumber + 1 } _ hfirst rfl hfirst.pos_le) (.refl _)
      exact ⟨_, htwo _ _, hnext⟩
    · rw [heq]
      have hfirst := hflush h hearly
      obtain ⟨happends, -⟩ := @frameEntry_spec bufferSize s₁ msg
      have hnext := hflush (hfirst.keep happends.access_eq (frameEntry_pos_le hroom)) hlate
      have haccess : s₁.access = s₂.access := by rw [hlate.access_eq, happends.access_eq]
      rw [haccess] at hnext
      exact ⟨_, htwo _ _, hnext⟩
  | setup bufferAddrLo bufferAddrHi hostBufferSize locked => exact ha.elim
  | release locked => exact ha.elim

theorem run_bounded {accesses : List Access} {actions : List Action}
    (h : Bounded bufferSize iova size w.state accesses) (hold : w.accesses = old ++ accesses)
    (hlogs : ∀ a ∈ actions, a.IsLog) (hsize : wordEnd bufferSize size ≤ size.toNat)
    (hwindow : iova.toNat % 2 ^ 24 + wordEnd bufferSize size ≤ 2 ^ 24) :
    ∃ accesses', (run bufferSize w actions).accesses = old ++ accesses' ∧
      Bounded bufferSize iova size (run bufferSize w actions).state accesses' := by
  induction actions generalizing w accesses with
  | nil => exact ⟨accesses, hold, h⟩
  | cons a actions ih =>
    obtain ⟨hfirst, hrest⟩ := List.forall_mem_cons.mp hlogs
    obtain ⟨accesses', hold', h'⟩ := step_bounded h hold hfirst hsize hwindow
    exact ih h' hold' hrest

theorem step_pos_le (h : w.state.framedBufferPos ≤ bufferSize) (a : Action) :
    (step bufferSize w a).state.framedBufferPos ≤ bufferSize := by
  cases a with
  | process msg locked early late =>
    rw [step]
    obtain heq | ⟨ops, s₁, hearly, heq⟩ | ⟨entry, ops, s₁, ops', s₂, hearly, hroom, hlate, -, heq⟩ :=
      @backendProcess_cases bufferSize msg locked early late w.state
    · rw [heq]
      exact h
    · rw [heq]
      exact hearly.pos_le h
    · rw [heq]
      exact hlate.pos_le (frameEntry_pos_le hroom)
  | flush locked host =>
    cases locked with
    | false => exact h
    | true => exact (flushBufferToHost_result host w.state).pos_le h
  | setup bufferAddrLo bufferAddrHi hostBufferSize locked =>
    show (setupTtPcieLogBackend bufferAddrLo bufferAddrHi hostBufferSize locked
      w.state).2.framedBufferPos ≤ bufferSize
    rw [setupTtPcieLogBackend]
    split <;> exact h
  | release locked =>
    rw [step, releaseTtPcieLogBackend]
    split <;> exact h

theorem run_pos_le {w : World} (h : w.state.framedBufferPos ≤ bufferSize) (actions : List Action) :
    (run bufferSize w actions).state.framedBufferPos ≤ bufferSize := by
  induction actions generalizing w with
  | nil => exact h
  | cons a actions ih => exact ih (step_pos_le h a)

theorem setup_bounded {lo hi : UInt32} (hpos : w.state.framedBufferPos ≤ bufferSize)
    (haccepted : bufferHeaderSize + entryHeaderSize + 1 ≤ size.toNat)
    (hiova : iova = (hi.toUInt64 <<< 32) ||| lo.toUInt64)
    (hwindow : iova.toNat % 2 ^ 24 + bufferHeaderSize ≤ 2 ^ 24) :
    ∃ accesses, (step bufferSize w (.setup lo hi size true)).accesses = w.accesses ++ accesses ∧
      Bounded bufferSize iova size (step bufferSize w (.setup lo hi size true)).state accesses := by
  have hheader : ∀ {offset : UInt64} {data : UInt32}, offset.toNat ≤ 12 →
      HostOp.Inside iova size (.write32 (windowAddr (iova + offset)) data) :=
    fun hoffset => header_inside hoffset (by omega) hwindow
  rw [step, setupTtPcieLogBackend, if_neg (by simp; omega), ← hiova]
  refine ⟨_, rfl, rfl, rfl, hpos, ?_⟩
  intro a ha
  rw [List.mem_singleton] at ha
  subst ha
  refine ⟨rfl, fun op hop => ?_⟩
  simp only [State.access, List.mem_cons, List.not_mem_nil, or_false] at hop
  obtain rfl | rfl | rfl | rfl := hop
  · have hfirst := @hheader 0 (UInt32.ofNat bufferHeaderSize) (by decide)
    rwa [UInt64.add_zero] at hfirst
  · exact hheader (by decide)
  · exact hheader (by decide)
  · exact hheader (by decide)

end

/-- **The host's memory changes only inside its buffer**, from the setup through any log messages
and flushes, if the words that are stored for the buffer end within it and within the window it
begins in. -/
theorem pcie_log_writes_in_buffer {bufferSize : ℕ} (before : List Action) {lo hi size : UInt32}
    {iova : UInt64} {actions : List Action}
    (haccepted : bufferHeaderSize + entryHeaderSize + 1 ≤ size.toNat)
    (hiova : iova = (hi.toUInt64 <<< 32) ||| lo.toUInt64) (hlogs : ∀ a ∈ actions, a.IsLog)
    (hsize : wordEnd bufferSize size ≤ size.toNat)
    (hwindow : iova.toNat % 2 ^ 24 + wordEnd bufferSize size ≤ 2 ^ 24) :
    let w := run bufferSize {} before
    let w' := run bufferSize w (.setup lo hi size true :: actions)
    ∀ a ∈ w'.accesses.drop w.accesses.length, a.iova = iova ∧
      ∀ op ∈ a.ops, ∀ (memory : Flash) (x : ℕ), op.apply a.iova memory x ≠ memory x →
        iova.toNat ≤ x ∧ x < iova.toNat + size.toNat := by
  intro w w' a ha
  have hheader : iova.toNat % 2 ^ 24 + bufferHeaderSize ≤ 2 ^ 24 := by
    rw [wordEnd] at hwindow
    omega
  obtain ⟨accesses, hold, hsetup⟩ :=
    setup_bounded (@run_pos_le bufferSize {} (Nat.zero_le _) before) haccepted hiova hheader
  obtain ⟨accesses', hold', h⟩ := run_bounded hsetup hold hlogs hsize hwindow
  have hdrop : w'.accesses.drop w.accesses.length = accesses' := by
    rw [show w'.accesses = w.accesses ++ accesses' from hold', List.drop_left]
  rw [hdrop] at ha
  obtain ⟨heq, hinside⟩ := h.inside a ha
  rw [heq]
  exact ⟨rfl, hinside⟩

def emptyError : Action :=
  .process ⟨logLevelErr, true, 0, []⟩ true ⟨fwLogBufferMagic, ownerFw⟩ ⟨fwLogBufferMagic, ownerFw⟩

theorem pcie_log_writes_in_page :
    (run 4096 {} [.setup 0x1000 0 0x2000 true, emptyError]).accesses.length = 3 ∧
      ∀ a ∈ (run 4096 {} [.setup 0x1000 0 0x2000 true, emptyError]).accesses, a.iova = 0x1000 ∧
        ∀ op ∈ a.ops, ∀ (memory : Flash) (x : ℕ), op.apply a.iova memory x ≠ memory x →
          (0x1000 : UInt64).toNat ≤ x ∧
            x < (0x1000 : UInt64).toNat + (0x2000 : UInt32).toNat := by
  refine ⟨by decide +kernel, ?_⟩
  exact pcie_log_writes_in_buffer [] (by decide) rfl (by simp [emptyError, Action.IsLog])
    (by decide) (by decide)

/-- **Stores behind and in front of the buffer.** A buffer of 29 bytes, the smallest, has byte 29
written. If its header ends the window, the data goes to its beginning. -/
theorem pcie_log_writes_outside :
    (∃ a ∈ (run 4096 {} [.setup 0x1000 0 29 true, emptyError]).accesses, ∃ op ∈ a.ops,
      op.apply a.iova (fun _ => 0xFF) (0x1000 + 29) ≠ 0xFF) ∧
    ∃ a ∈ (run 4096 {} [.setup 0xFFFFF0 0 0x2000 true, emptyError]).accesses, ∃ op ∈ a.ops,
      op.apply a.iova (fun _ => 0xFF) 0 ≠ 0xFF := by
  decide +kernel

end SystemFirmware.PcieLog
