import SystemFirmware.Vuart.Fifo

/-!
# Virtual UART — writing to a full ring

What becomes of a byte that is written to a full ring, for the three functions that
write: `tt_vuart_poll_out` in the role of the device and of the host, and `vuart_putc`
of the host's tool `scripts/tooling/vuart.c`. The calls are taken as a whole here;
`pollOut_outSteps` and `pollIn_inSteps` say that the accesses of `Vuart.Definitions`
come to the same.

The documentation says that the byte is discarded. Only the device does that. The host
role of `tt_vuart_poll_out` does not look whether the ring is full; `vuart_putc` stores
the byte first. In a full ring the next byte goes where the oldest unread one is.
-/

namespace SystemFirmware.Vuart

open Lib

-- ---
-- Whole calls

def bufSpace (head tail cap : UInt32) : UInt32 := cap - bufSize head tail

section

variable (cap : Dir → UInt32)

/-- `tt_vuart_poll_out` without `CONFIG_UART_TT_VIRT_TX_BLOCK`; the device writes to `tx`, the
host to `rx`. -/
def pollOut (d : Dir) (outChar : UInt8) (s : World) : World :=
  let r := s.ring d
  if d = .tx ∧ bufFull r.head r.tail (cap d) = true then { s with txOflow := s.txOflow + 1 }
  else { s.set d { r with tail := r.tail + 1, accepted := r.accepted ++ [outChar] } with
    buf := Function.update s.buf (index cap d r.tail) outChar }

/-- `vuart_putc`; `found` is whether the magic number is. Its 64-bit pointer makes no difference
for buffers that fit in 32. -/
def vuartPutc (found : Bool) (ch : UInt8) (s : World) : World :=
  let r := s.ring .rx
  if found then
    { s.set .rx { r with
        tail := if bufSpace r.head r.tail (cap .rx) > 0 then r.tail + 1 else r.tail } with
      buf := Function.update s.buf (index cap .rx r.tail) ch }
  else s

/-- `tt_vuart_poll_in`; `none` is the result -1. -/
def pollIn (d : Dir) (s : World) : Option UInt8 × World :=
  let r := s.ring d
  if bufEmpty r.head r.tail then (none, s)
  else
    let ch := s.buf (index cap d r.head)
    (some ch, s.set d { r with head := r.head + 1, returned := r.returned ++ [ch] })

def pollInMany (d : Dir) : ℕ → World → List (Option UInt8)
  | 0, _ => []
  | n + 1, s => (pollIn cap d s).1 :: pollInMany d n (pollIn cap d s).2

def unread (d : Dir) (s : World) (k : ℕ) : UInt8 :=
  s.buf (index cap d ((s.ring d).head + UInt32.ofNat k))

def queued (d : Dir) (s : World) : List UInt8 :=
  (List.range (bufSize (s.ring d).head (s.ring d).tail).toNat).map (unread cap d s)

end

section

variable {cap : Dir → UInt32} {d : Dir} {s : World} {outChar : UInt8}

theorem set_set {r r' : Ring} : (s.set d r).set d r' = s.set d r' := by
  rw [World.set, World.set, World.set, Function.update_idem]

theorem set_out_idle (hidle : (s.ring d).out = .idle) :
    s.set d { s.ring d with out := .idle } = s := by
  rw [← hidle]
  exact congrArg (fun ring => { s with ring := ring }) (Function.update_eq_self d s.ring)

theorem set_inp_idle (hidle : (s.ring d).inp = .idle) :
    s.set d { s.ring d with inp := .idle } = s := by
  rw [← hidle]
  exact congrArg (fun ring => { s with ring := ring }) (Function.update_eq_self d s.ring)

theorem pollOut_outSteps (hidle : (s.ring d).out = .idle) : ∃ n,
    exec (fun s (_ : Unit) => outStep cap d true s)
        (s.set d { s.ring d with out := .loadTail outChar }) (List.replicate n ()) =
      some (pollOut cap d outChar s) := by
  by_cases hfull : d = .tx ∧ bufFull (s.ring d).head (s.ring d).tail (cap d) = true
  · refine ⟨3, ?_⟩
    simp only [List.replicate, exec, outStep, ring_set_self, set_set, Option.bind_some, if_true,
      if_pos hfull, pollOut, set_out_idle hidle]
    rfl
  · refine ⟨4, ?_⟩
    simp only [List.replicate, exec, outStep, Option.bind_some, if_neg hfull, pollOut, hidle,
      World.set, Function.update_idem, Function.update_self]

theorem pollIn_inSteps (hidle : (s.ring d).inp = .idle) : ∃ n,
    exec (fun s (_ : Unit) => inStep cap d s)
        (s.set d { s.ring d with inp := .loadHead }) (List.replicate n ()) =
      some (pollIn cap d s).2 := by
  by_cases hempty : bufEmpty (s.ring d).head (s.ring d).tail = true
  · refine ⟨2, ?_⟩
    simp only [List.replicate, exec, inStep, ring_set_self, set_set, Option.bind_some,
      if_pos hempty, pollIn, set_inp_idle hidle]
  · refine ⟨4, ?_⟩
    simp only [List.replicate, exec, inStep, ring_set_self, set_set, Option.bind_some,
      if_neg hempty, pollIn, hidle, if_true]
    rfl

-- ---
-- Reading

theorem pollIn_nonempty (hne : bufSize (s.ring d).head (s.ring d).tail ≠ 0) :
    (pollIn cap d s).1 = some (unread cap d s 0) ∧
      ((pollIn cap d s).2.ring d).head = (s.ring d).head + 1 ∧
      ((pollIn cap d s).2.ring d).tail = (s.ring d).tail ∧ (pollIn cap d s).2.buf = s.buf := by
  have hempty : ¬bufEmpty (s.ring d).head (s.ring d).tail = true := fun h => hne (eq_of_beq h)
  unfold pollIn unread
  dsimp only
  rw [if_neg hempty, show UInt32.ofNat 0 = 0 from rfl, UInt32.add_zero]
  refine ⟨rfl, ?_, ?_, rfl⟩
  · rw [ring_set_self]
  · rw [ring_set_self]

theorem pollInMany_unread {n : ℕ} (hn : n ≤ (bufSize (s.ring d).head (s.ring d).tail).toNat) :
    pollInMany cap d n s = (List.range n).map fun k => some (unread cap d s k) := by
  induction n generalizing s with
  | zero => rfl
  | succ n ih =>
    have hne : bufSize (s.ring d).head (s.ring d).tail ≠ 0 := by
      intro h
      rw [h, UInt32.toNat_zero] at hn
      omega
    obtain ⟨hfirst, hhead, htail, hbuf⟩ := @pollIn_nonempty cap d s hne
    have hsize : (bufSize ((pollIn cap d s).2.ring d).head ((pollIn cap d s).2.ring d).tail).toNat =
        (bufSize (s.ring d).head (s.ring d).tail).toNat - 1 := by
      have hlt := (s.ring d).head.toNat_lt
      have hlt' := (s.ring d).tail.toNat_lt
      have hpred : bufSize ((s.ring d).head + 1) (s.ring d).tail =
          bufSize (s.ring d).head (s.ring d).tail - 1 := by
        rw [← UInt32.toNat_inj, bufSize, bufSize, UInt32.toNat_sub, UInt32.toNat_sub,
          UInt32.toNat_sub, UInt32.toNat_add, UInt32.toNat_one]
        omega
      rw [hhead, htail, hpred]
      exact UInt32.toNat_sub_of_le _ _ (UInt32.le_iff_toNat_le.mpr (by rw [UInt32.toNat_one]; omega))
    have hnext : ∀ k, unread cap d (pollIn cap d s).2 k = unread cap d s (k + 1) := by
      intro k
      rw [unread, unread, hhead, hbuf, UInt32.add_assoc, UInt32.add_comm 1, ofNat_add_one]
    rw [pollInMany, hfirst, ih (by rw [hsize]; omega), List.range_succ_eq_map, List.map_cons,
      List.map_map]
    exact congrArg _ (List.map_congr_left fun k _ => congrArg some (hnext k))

theorem pollInMany_queued :
    pollInMany cap d (bufSize (s.ring d).head (s.ring d).tail).toNat s =
      (queued cap d s).map some := by
  rw [pollInMany_unread le_rfl, queued, List.map_map]
  rfl

end

-- ---
-- Writing to a full ring

/-- The functions that write. -/
inductive Writer where
  | device
  | host
  /-- `vuart_putc`, and whether it finds the magic number. -/
  | tool (found : Bool)
  deriving DecidableEq

def Writer.dir : Writer → Dir
  | .device => .tx
  | _ => .rx

def Writer.write (cap : Dir → UInt32) (ch : UInt8) (s : World) : Writer → World
  | .device => pollOut cap .tx ch s
  | .host => pollOut cap .rx ch s
  | .tool found => vuartPutc cap found ch s

/-- What of a full ring a call is to leave: the tail, and every unread byte. -/
structure Keeps (cap : Dir → UInt32) (d : Dir) (s after : World) : Prop where
  tail : (after.ring d).tail = (s.ring d).tail
  bytes : ∀ k < (cap d).toNat, unread cap d after k = unread cap d s k
  read : pollInMany cap d (cap d).toNat after = (queued cap d s).map some

/-- The device always discards the byte, the host role never does, and `vuart_putc` if its byte goes
where no unread one is, or the same one. -/
def Writer.Discards (cap : Dir → UInt32) (ch : UInt8) (s : World) : Writer → Prop
  | .device => True
  | .host => False
  | .tool found => found = false ∨ s.buf (index cap .rx (s.ring .rx).tail) = ch ∨
      ∀ k < (cap .rx).toNat, index cap .rx ((s.ring .rx).head + UInt32.ofNat k) ≠
        index cap .rx (s.ring .rx).tail

section

variable {cap : Dir → UInt32} {d : Dir} {s after : World} {ch : UInt8}

theorem keeps_iff (hfull : (s.ring d).tail - (s.ring d).head = cap d)
    (hhead : (after.ring d).head = (s.ring d).head) (htail : (after.ring d).tail = (s.ring d).tail) :
    Keeps cap d s after ↔ ∀ k < (cap d).toNat, unread cap d after k = unread cap d s k := by
  refine ⟨Keeps.bytes, fun hbytes => ⟨htail, hbytes, ?_⟩⟩
  have hsize : bufSize (s.ring d).head (s.ring d).tail = cap d := hfull
  have hread := @pollInMany_queued cap d after
  rw [hhead, htail, hsize] at hread
  rw [hread, queued, queued, hhead, htail, hsize]
  exact congrArg _ (List.map_congr_left fun k hk => hbytes k (List.mem_range.mp hk))

theorem keeps_putc (hfull : (s.ring .rx).tail - (s.ring .rx).head = cap .rx) :
    Keeps cap .rx s (vuartPutc cap true ch s) ↔
      s.buf (index cap .rx (s.ring .rx).tail) = ch ∨ ∀ k < (cap .rx).toNat,
        index cap .rx ((s.ring .rx).head + UInt32.ofNat k) ≠ index cap .rx (s.ring .rx).tail := by
  have hspace : ¬ bufSpace (s.ring .rx).head (s.ring .rx).tail (cap .rx) > 0 := by
    rw [bufSpace, bufSize, hfull, UInt32.sub_self]
    decide
  have hring : (vuartPutc cap true ch s).ring .rx = s.ring .rx := by
    simp only [vuartPutc, if_true, if_neg hspace, ring_set_self]
  have hbuf : (vuartPutc cap true ch s).buf =
      Function.update s.buf (index cap .rx (s.ring .rx).tail) ch := rfl
  rw [keeps_iff hfull (congrArg Ring.head hring) (congrArg Ring.tail hring)]
  simp only [unread, hring, hbuf, Function.update_apply]
  by_cases hsame : s.buf (index cap .rx (s.ring .rx).tail) = ch
  · refine iff_of_true (fun k _ => ?_) (.inl hsame)
    split
    · rename_i hslot
      rw [hslot, hsame]
    · rfl
  · rw [or_iff_right hsame]
    refine forall₂_congr fun k _ => ⟨fun h hslot => ?_, fun hslot => if_neg hslot⟩
    rw [if_pos hslot, hslot] at h
    exact hsame h.symm

end

/-- **Which writes to a full ring lose only the new byte**, for all counters that are the capacity
apart: the tail, the unread bytes and so what the reader gets are as before, exactly where the byte
is discarded. The device always does that, and it counts the overflow. -/
theorem device_overflow_discards (cap : Dir → UInt32) (s : World) (ch : UInt8) (w : Writer)
    (hfull : (s.ring w.dir).tail - (s.ring w.dir).head = cap w.dir) :
    (Keeps cap w.dir s (w.write cap ch s) ↔ w.Discards cap ch s) ∧
      (queued cap w.dir s).length = (cap w.dir).toNat ∧
      (w = .device → (w.write cap ch s).buf = s.buf ∧
        (w.write cap ch s).txOflow = s.txOflow + 1) := by
  have hsize : bufSize (s.ring w.dir).head (s.ring w.dir).tail = cap w.dir := hfull
  refine ⟨?_, by rw [queued, List.length_map, List.length_range, hsize], ?_⟩
  · cases w with
    | device =>
      have hout : pollOut cap .tx ch s = { s with txOflow := s.txOflow + 1 } :=
        if_pos ⟨rfl, beq_iff_eq.mpr hfull⟩
      show Keeps cap .tx s (pollOut cap .tx ch s) ↔ True
      rw [hout]
      have hkeeps := @keeps_iff cap .tx s { s with txOflow := s.txOflow + 1 } hfull rfl rfl
      exact iff_of_true (hkeeps.mpr fun _ _ => rfl) trivial
    | host =>
      refine iff_of_false (fun h => ?_) not_false
      have htail : ((pollOut cap .rx ch s).ring .rx).tail = (s.ring .rx).tail + 1 := by
        rw [pollOut, if_neg (fun h => Dir.noConfusion h.1)]
        dsimp only
        rw [ring_set_self]
      have hsame : (s.ring .rx).tail + 1 = (s.ring .rx).tail := htail.symm.trans h.tail
      rw [← UInt32.toNat_inj, UInt32.toNat_add, UInt32.toNat_one] at hsame
      have hlt := (s.ring .rx).tail.toNat_lt
      omega
    | tool found =>
      cases found with
      | false => exact iff_of_true ((keeps_iff hfull rfl rfl).mpr fun _ _ => rfl) (.inl rfl)
      | true => exact (keeps_putc hfull).trans (or_iff_right (by simp)).symm
  · rintro rfl
    have hout : pollOut cap .tx ch s = { s with txOflow := s.txOflow + 1 } :=
      if_pos ⟨rfl, beq_iff_eq.mpr hfull⟩
    show (pollOut cap .tx ch s).buf = s.buf ∧ (pollOut cap .tx ch s).txOflow = s.txOflow + 1
    rw [hout]
    exact ⟨rfl, rfl⟩

def fullWorld : World :=
  ⟨fun _ => ⟨10, 14, .idle, .idle, [], []⟩, 0, fun i => UInt8.ofNat (i.toNat + 0x40)⟩

theorem device_overflow_four :
    pollInMany fourBytes .tx 4 (pollOut fourBytes .tx 0x7A fullWorld) =
      (queued fourBytes .tx fullWorld).map some :=
  ((device_overflow_discards fourBytes fullWorld 0x7A .device rfl).1.mpr trivial).read

/-- In a full ring of four bytes the new byte takes the place of the first one, from either
function; the first one leaves five bytes to read. -/
theorem host_overwrites_four :
    queued fourBytes .rx fullWorld = [0x46, 0x47, 0x44, 0x45] ∧
      ((pollOut fourBytes .rx 0x7A fullWorld).ring .rx).tail = 15 ∧
      pollInMany fourBytes .rx 4 (pollOut fourBytes .rx 0x7A fullWorld) =
        [some 0x7A, some 0x47, some 0x44, some 0x45] ∧
      pollInMany fourBytes .rx 4 (vuartPutc fourBytes true 0x7A fullWorld) =
        [some 0x7A, some 0x47, some 0x44, some 0x45] := by
  decide +kernel

end SystemFirmware.Vuart
