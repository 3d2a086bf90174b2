import Mathlib.Algebra.Ring.Nat
import SystemFirmware.Dma.BhNoc
import SystemFirmware.Lib.Exec
import Mathlib.Logic.Function.Basic

/-!
# Blackhole NOC DMA — completion

`tt_bh_dma_noc_get_status` compares the acknowledgements that the NOC has counted with the
count when `noc_dma_transfer` began plus one for each of its packets
(`not_busy_acknowledged`). There is one counter for all reads and one for all writes. An
acknowledgement of an earlier transfer counts as well, and a broadcast is acknowledged by
each receiver (`status_before_acks`).
-/

namespace SystemFirmware.Dma.BhNoc

open Lib

def nocMaxBurstSize : ℕ := 16384

/-- `DIV_ROUND_UP(size, NOC_MAX_BURST_SIZE)`. -/
def packets (size : BitVec 32) : ℕ := (size.toNat + nocMaxBurstSize - 1) / nocMaxBurstSize

/-- `get_expected_acks`, with the value of the counter. -/
def getExpectedAcks (packetReceived size : BitVec 32) : BitVec 32 :=
  packetReceived + BitVec.ofNat 32 (packets size)

def isBehind (current target : BitVec 32) : Bool := (current - target).toInt < 0

theorem packets_le (size : BitVec 32) : packets size ≤ 2 ^ 18 := by
  have hsize : size.toNat < 4294967296 := size.isLt
  unfold packets nocMaxBurstSize
  omega

theorem isBehind_of_lt (received : ℕ) {n : ℕ} (hpos : 0 < n) (hle : n ≤ 2 ^ 18) :
    isBehind (BitVec.ofNat 32 received) (BitVec.ofNat 32 (received + n)) = true := by
  rw [isBehind, decide_eq_true_eq, BitVec.toInt_neg_iff, BitVec.toNat_sub, BitVec.toNat_ofNat,
    BitVec.toNat_ofNat]
  omega

-- ---
-- The system

/-- The last transfer of a channel: none issued, waiting for the command register, or started,
with the acknowledgements to come. -/
inductive Phase where
  | idle
  | waiting (acks : ℕ)
  | started (acks : ℕ)
  deriving DecidableEq

/-- The direction in `last_noc_cmd`, `last_expected_acks`, and how far the transfer is. -/
structure Track where
  write : Bool
  expected : BitVec 32
  phase : Phase

def Track.toCome (t : Track) : ℕ :=
  match t.phase with
  | .idle => 0
  | .waiting n => n
  | .started n => n

def Track.isWaiting (t : Track) : Bool :=
  match t.phase with
  | .waiting _ => true
  | _ => false

/-- The counters of reads and writes, without a bound; the acknowledgements to come for earlier
transfers of the channels; and the channels. -/
structure System where
  received : Bool → ℕ
  stale : Bool → ℕ
  chan : ℕ → Track

/-- `tt_bh_dma_noc_get_status`: whether a channel is busy. -/
def System.busy (s : System) (c : ℕ) : Bool :=
  isBehind (BitVec.ofNat 32 (s.received (s.chan c).write)) (s.chan c).expected

/-- A new transfer or configuration takes the place of the last transfer of a channel. -/
def System.replace (s : System) (c : ℕ) (t : Track) : System where
  received := s.received
  stale := Function.update s.stale (s.chan c).write
    (s.stale (s.chan c).write + (s.chan c).toCome)
  chan := Function.update s.chan c t

def System.setPhase (s : System) (c : ℕ) (p : Phase) : System :=
  { s with chan := Function.update s.chan c { s.chan c with phase := p } }

def System.count (s : System) (write : Bool) : System :=
  { s with received := Function.update s.received write (s.received write + 1) }

/-- `begin` is `noc_dma_transfer` up to the wait for the command register, which `issue` or
`timeout` ends. -/
inductive Action where
  | config (c : ℕ)
  | begin (c : ℕ) (cmd : Command) (receivers : ℕ)
  | issue (c : ℕ)
  | timeout (c : ℕ)
  | ack (c : ℕ)
  | ackStale (write : Bool)

/-- A command that is not a broadcast has one receiver. -/
def acksOf (cmd : Command) (receivers : ℕ) : ℕ :=
  packets cmd.size * if cmd.multicast then receivers else 1

def step (s : System) : Action → Option System
  | .config c =>
    if (s.chan c).isWaiting then none else some (s.replace c ⟨false, 0, .idle⟩)
  | .begin c cmd receivers =>
    if (s.chan c).isWaiting then none
    else some (s.replace c ⟨cmd.write,
      getExpectedAcks (BitVec.ofNat 32 (s.received cmd.write)) cmd.size,
      .waiting (acksOf cmd receivers)⟩)
  | .issue c =>
    match (s.chan c).phase with
    | .waiting n => some (s.setPhase c (.started n))
    | _ => none
  | .timeout c =>
    match (s.chan c).phase with
    | .waiting _ => some (s.setPhase c .idle)
    | _ => none
  | .ack c =>
    match (s.chan c).phase with
    | .started (n + 1) => some ((s.setPhase c (.started n)).count (s.chan c).write)
    | _ => none
  | .ackStale write =>
    match s.stale write with
    | n + 1 => some ({ s with stale := Function.update s.stale write n }.count write)
    | 0 => none

/-- No channel is configured; the rest is arbitrary. -/
def System.init (received stale : Bool → ℕ) : System :=
  ⟨received, stale, fun _ => ⟨false, 0, .idle⟩⟩

-- ---
-- Transfers that do not overlap

/-- A transfer begins when nothing of its kind is to come, and has one receiver. -/
def Alone (s : System) : Action → Prop
  | .begin _ cmd receivers =>
    (cmd.multicast = true → receivers = 1) ∧ s.stale cmd.write = 0 ∧
      ∀ c, (s.chan c).write = cmd.write → (s.chan c).toCome = 0
  | _ => True

/-- While something is to come for a channel, its number is the last one, and nothing else of its
kind is to come. -/
structure Owns (s : System) (c : ℕ) : Prop where
  expected : (s.chan c).expected =
    BitVec.ofNat 32 (s.received (s.chan c).write + (s.chan c).toCome)
  bound : (s.chan c).toCome ≤ 2 ^ 18
  stale : s.stale (s.chan c).write = 0
  others : ∀ c', c' ≠ c → (s.chan c').write = (s.chan c).write → (s.chan c').toCome = 0

def System.Inv (s : System) : Prop := ∀ c, 0 < (s.chan c).toCome → Owns s c

variable {s s' : System} {c : ℕ}

theorem System.Inv.frame (hinv : s.Inv) (hchan : ∀ c', c' ≠ c → s'.chan c' = s.chan c')
    (hown : 0 < (s'.chan c).toCome → Owns s' c)
    (hothers : ∀ c', c' ≠ c → Owns s c' → 0 < (s.chan c').toCome →
      s'.received (s.chan c').write = s.received (s.chan c').write ∧
      s'.stale (s.chan c').write = 0 ∧
      ((s'.chan c).write = (s.chan c').write → (s'.chan c).toCome = 0)) : s'.Inv := by
  intro d hd
  by_cases hdc : d = c
  · subst hdc
    exact hown hd
  · rw [hchan d hdc] at hd
    have howns := hinv d hd
    obtain ⟨hreceived, hstale, hc⟩ := hothers d hdc howns hd
    refine ⟨?_, ?_, ?_, fun c' hc' => ?_⟩ <;> rw [hchan d hdc]
    · rw [hreceived]
      exact howns.expected
    · exact howns.bound
    · exact hstale
    · by_cases hc'c : c' = c
      · subst hc'c
        exact hc
      · rw [hchan c' hc'c]
        exact howns.others c' hc'

theorem replace_chan_self (s : System) (c : ℕ) (t : Track) : (s.replace c t).chan c = t := by
  simp [System.replace]

theorem replace_chan_of_ne (t : Track) {c' : ℕ} (h : c' ≠ c) :
    (s.replace c t).chan c' = s.chan c' := by
  simp [System.replace, h]

theorem replace_stale (t : Track) {write : Bool} (hstale : s.stale write = 0)
    (hc : (s.chan c).write = write → (s.chan c).toCome = 0) : (s.replace c t).stale write = 0 := by
  by_cases hwrite : (s.chan c).write = write
  · subst hwrite
    show Function.update s.stale _ _ _ = 0
    rw [Function.update_self, hstale, hc rfl]
  · show Function.update s.stale _ _ _ = 0
    rw [Function.update_of_ne fun h => hwrite h.symm, hstale]

theorem System.Inv.replace (hinv : s.Inv) (t : Track) (hown : 0 < t.toCome → Owns (s.replace c t) c)
    (hothers : ∀ c', Owns s c' → 0 < (s.chan c').toCome →
      t.write = (s.chan c').write → t.toCome = 0) : (s.replace c t).Inv := by
  refine hinv.frame (fun c' hc' => replace_chan_of_ne t hc') ?_ ?_
  · rw [replace_chan_self]
    exact hown
  · intro c' hc' howns hpos
    rw [replace_chan_self]
    refine ⟨rfl, ?_, hothers c' howns hpos⟩
    exact replace_stale t howns.stale (howns.others c hc'.symm)

theorem System.Inv.setPhase (hinv : s.Inv) {p : Phase} {n : ℕ}
    (hreceived : s'.received = Function.update s.received (s.chan c).write
      (s.received (s.chan c).write + n))
    (hstale : s'.stale = s.stale)
    (hchan : s'.chan = Function.update s.chan c { s.chan c with phase := p })
    (hcome : Track.toCome { s.chan c with phase := p } = 0 ∧ n = 0 ∨
      Track.toCome { s.chan c with phase := p } + n = (s.chan c).toCome) : s'.Inv := by
  have hself : s'.chan c = { s.chan c with phase := p } := by rw [hchan, Function.update_self]
  have hne : ∀ c', c' ≠ c → s'.chan c' = s.chan c' := by
    intro c' hc'
    rw [hchan, Function.update_of_ne hc']
  refine hinv.frame hne ?_ ?_
  · intro hpos
    rw [hself] at hpos
    have hsum := hcome.resolve_left fun h => by omega
    have howns := hinv c (by omega)
    refine ⟨?_, ?_, ?_, ?_⟩ <;> rw [hself]
    · show (s.chan c).expected = _
      rw [howns.expected, hreceived, Function.update_self, ← hsum]
      congr 1
      omega
    · have hbound := howns.bound
      omega
    · rw [hstale]
      exact howns.stale
    · intro c' hc'
      rw [hne c' hc']
      exact howns.others c' hc'
  · intro c' hc' howns _
    rw [hself, hstale, hreceived]
    have hzero := howns.others c hc'.symm
    refine ⟨?_, howns.stale, fun hwrite => by have := hzero hwrite; omega⟩
    by_cases hwrite : (s.chan c').write = (s.chan c).write
    · have hn : n = 0 := by
        have := hzero hwrite.symm
        omega
      rw [hwrite, Function.update_self, hn, Nat.add_zero]
    · rw [Function.update_of_ne hwrite]

theorem begin_inv (hinv : s.Inv) {cmd : Command} {receivers : ℕ}
    (halone : Alone s (.begin c cmd receivers)) :
    (s.replace c ⟨cmd.write, getExpectedAcks (BitVec.ofNat 32 (s.received cmd.write)) cmd.size,
      .waiting (acksOf cmd receivers)⟩).Inv := by
  obtain ⟨hone, hstale, hnone⟩ := halone
  have hacks : acksOf cmd receivers = packets cmd.size := by
    unfold acksOf
    split
    · next hmulticast => rw [hone hmulticast, Nat.mul_one]
    · exact Nat.mul_one _
  rw [hacks]
  refine hinv.replace _ (fun _ => ?_) ?_
  · refine ⟨?_, ?_, ?_, ?_⟩ <;> rw [replace_chan_self]
    · exact (BitVec.ofNat_add ..).symm
    · exact packets_le cmd.size
    · exact replace_stale _ hstale (hnone c)
    · intro c' hc'
      rw [replace_chan_of_ne _ hc']
      exact hnone c'
  · intro c' _ hpos hwrite
    have := hnone c' hwrite.symm
    omega

theorem ackStale_inv (hinv : s.Inv) {write : Bool} {n : ℕ} (hstale : s.stale write = n + 1) :
    ({ s with stale := Function.update s.stale write n }.count write).Inv := by
  intro d hd
  have howns := hinv d hd
  have hne : (s.chan d).write ≠ write := by
    rintro rfl
    have := howns.stale
    omega
  refine ⟨?_, howns.bound, ?_, howns.others⟩
  · show (s.chan d).expected = BitVec.ofNat 32
      (Function.update s.received _ _ (s.chan d).write + (s.chan d).toCome)
    rw [Function.update_of_ne hne]
    exact howns.expected
  · show Function.update s.stale _ _ (s.chan d).write = 0
    rw [Function.update_of_ne hne]
    exact howns.stale

theorem step_inv {a : Action} (hinv : s.Inv) (halone : Alone s a) (h : step s a = some s') :
    s'.Inv := by
  cases a with
  | config c =>
    simp only [step] at h
    split at h
    · cases h
    · obtain rfl := Option.some.inj h
      exact hinv.replace _ nofun fun _ _ _ _ => rfl
  | begin c cmd receivers =>
    simp only [step] at h
    split at h
    · cases h
    · obtain rfl := Option.some.inj h
      exact begin_inv hinv halone
  | issue c =>
    simp only [step] at h
    split at h
    · next n hphase =>
      obtain rfl := Option.some.inj h
      exact hinv.setPhase (n := 0) (by simp [System.setPhase]) rfl rfl
        (.inr (by simp [Track.toCome, hphase]))
    · cases h
  | timeout c =>
    simp only [step] at h
    split at h
    · obtain rfl := Option.some.inj h
      exact hinv.setPhase (n := 0) (by simp [System.setPhase]) rfl rfl (.inl ⟨rfl, rfl⟩)
    · cases h
  | ack c =>
    simp only [step] at h
    split at h
    · next n hphase =>
      obtain rfl := Option.some.inj h
      exact hinv.setPhase rfl rfl rfl (.inr (by simp [Track.toCome, hphase]))
    · cases h
  | ackStale write =>
    simp only [step] at h
    split at h
    · next n hstale =>
      obtain rfl := Option.some.inj h
      exact ackStale_inv hinv hstale
    · cases h

theorem init_inv (received stale : Bool → ℕ) : (System.init received stale).Inv :=
  fun _ hpos => absurd hpos (Nat.lt_irrefl 0)

/-- **Not busy means acknowledged**, in every run in which transfers begin only where nothing of
their kind is to come, and packets have one receiver. -/
theorem not_busy_acknowledged (received stale : Bool → ℕ) (run : List Action) {n : ℕ}
    (halone : Along step Alone (.init received stale) run)
    (hrun : exec step (.init received stale) run = some s)
    (hstarted : (s.chan c).phase = .started n) (hbusy : s.busy c = false) : n = 0 := by
  have hinv : s.Inv :=
    exec_invariant_along (fun _ _ _ hinv halone h => step_inv hinv halone h)
      (init_inv received stale) halone hrun
  have hcome : (s.chan c).toCome = n := by simp [Track.toCome, hstarted]
  by_contra hn
  have howns := hinv c (by omega)
  have hbehind := isBehind_of_lt (s.received (s.chan c).write)
    (Nat.pos_of_ne_zero (hcome ▸ hn)) howns.bound
  rw [← howns.expected] at hbehind
  exact Bool.noConfusion (hbehind.symm.trans hbusy)

-- ---
-- Early reports

def onePacket (multicast : Bool) : Command := ⟨true, multicast, ⟨0, 0⟩, ⟨0, 0⟩, 64⟩

theorem not_busy_acknowledged_onePacket :
    ∃ s, exec step (.init (fun _ => 2 ^ 32 - 1) fun _ => 0)
        [.begin 0 (onePacket false) 1, .issue 0, .ack 0] = some s ∧
      s.busy 0 = false ∧ (s.chan 0).phase = .started 0 := by
  refine ⟨_, rfl, by decide, ?_⟩
  -- only the first step begins a transfer
  have halone : Along step Alone (.init (fun _ => 2 ^ 32 - 1) fun _ => 0)
      [.begin 0 (onePacket false) 1, .issue 0, .ack 0] :=
    ⟨⟨fun _ => rfl, rfl, fun _ _ => rfl⟩,
      fun _ _ => ⟨trivial, fun _ _ => ⟨trivial, fun _ _ => trivial⟩⟩⟩
  exact congrArg Phase.started (not_busy_acknowledged _ _ _ (c := 0) halone rfl rfl (by decide))

/-- **Reports that come too early.** An earlier write is acknowledged, and the new one counts as
complete. A broadcast to two receivers counts as complete after the first acknowledgement. -/
theorem status_before_acks :
    (∃ s, exec step (.init (fun _ => 0) fun _ => 0)
        [.begin 0 (onePacket false) 1, .issue 0, .begin 1 (onePacket false) 1, .issue 1, .ack 0]
          = some s ∧
      s.busy 1 = false ∧ (s.chan 1).phase = .started 1) ∧
    ∃ s, exec step (.init (fun _ => 0) fun _ => 0)
        [.begin 0 (onePacket true) 2, .issue 0, .ack 0] = some s ∧
      s.busy 0 = false ∧ (s.chan 0).phase = .started 1 :=
  ⟨⟨_, rfl, by decide, rfl⟩, _, rfl, by decide, rfl⟩

end SystemFirmware.Dma.BhNoc
