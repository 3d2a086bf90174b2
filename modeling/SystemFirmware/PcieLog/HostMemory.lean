import SystemFirmware.PcieLog.Handover

/-!
# What the host finds in its buffer

`handoverOps` are accesses in the TLB window. Here they are stores to the host's
memory: the TLB has the bits of the address above the low 24, and an access in the
window has the others.
-/

namespace SystemFirmware.PcieLog

open Lib

-- ---
-- Stores

/-- Where in the host's memory an access goes, if the TLB is set up for `iova`. -/
def hostAddr (iova : UInt64) (addr : ℕ) : ℕ := iova.toNat / 2 ^ 24 * 2 ^ 24 + addr

def HostOp.apply (iova : UInt64) (memory : Flash) : HostOp → Flash
  | .read32 _ _ => memory
  | .write32 addr data => memory.program (hostAddr iova addr) (le32 data)
  | .msi => memory

-- ---
-- Words

theorem length_wordsOf {bytes : List UInt8} : 4 * (wordsOf bytes).length < bytes.length + 4 := by
  fun_induction wordsOf bytes with
  | case1 => decide
  | case2 a b c d rest ih =>
    simp only [List.length_cons]
    omega
  | case3 rest hne _ =>
    have : rest.length ≠ 0 := by simpa using hne
    simp only [List.length_cons, List.length_nil]
    omega

-- ---
-- The handover

section

variable {iova : UInt64} {memory : Flash}

theorem hostAddr_mod {addr : ℕ} (h : addr / 2 ^ 24 = iova.toNat / 2 ^ 24) :
    hostAddr iova (addr % 2 ^ 24) = addr := by
  rw [hostAddr]
  omega

end

end SystemFirmware.PcieLog
