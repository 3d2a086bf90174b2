import SystemFirmware.MsgQueue.Definitions
import SystemFirmware.Lib.Ring

/-!
# Host message queue — the invariant of the interleaved machine

`Inv base s`: both rings represent their histories (`Ring.Holds`), the firmware answered
a prefix of what the host pushed and the host took a prefix of what the firmware
published, with what the locals of either side still guarantee (`FwInv`, `HostInv`).

Every access preserves it but one: a pop that samples `response_queue_wptr` between the two
stores of `ptr += 1; ptr %= MSG_QUEUE_POINTER_WRAP`. `PopSeesReduced` excludes exactly that
(`step_inv`).
-/

namespace SystemFirmware.MsgQueue

open Lib Lib.Ring

-- ---
-- Pointer arithmetic

theorem entryIndex_eq_slot (ptr : UInt32) : entryIndex ptr = slot msgQueueSize ptr.toNat := rfl

theorem toNat_wrap (ptr : UInt32) : (ptr % msgQueuePointerWrap).toNat = ptr.toNat % 8 := by
  simp [msgQueuePointerWrap, UInt32.toNat_mod]

theorem toNat_wrap_lt (ptr : UInt32) : (ptr % msgQueuePointerWrap).toNat < 8 := by
  rw [toNat_wrap]
  exact Nat.mod_lt _ (by decide)

theorem toNat_wrap_mod (ptr : UInt32) :
    (ptr % msgQueuePointerWrap).toNat % 8 = ptr.toNat % 8 := by
  rw [toNat_wrap, Nat.mod_mod]

variable {ptr : UInt32}

theorem toNat_bump (h : ptr.toNat ≤ 8) : (ptr + 1).toNat = ptr.toNat + 1 := by
  rw [UInt32.toNat_add]
  simp only [UInt32.toNat_one]
  omega

theorem wrap_mod (h : ptr.toNat < 8) :
    ((ptr + 1) % msgQueuePointerWrap).toNat % (2 * msgQueueSize) =
      (ptr.toNat + 1) % (2 * msgQueueSize) := by
  rw [toNat_wrap, toNat_bump h.le]
  exact Nat.mod_mod _ 8

theorem occupancy_spec (wptr rptr : UInt32) :
    (rptr.toNat + (occupancy wptr rptr).toNat) % (2 * msgQueueSize) =
      wptr.toNat % (2 * msgQueueSize) ∧
    (occupancy wptr rptr).toNat < 2 * msgQueueSize := by
  have hw := wptr.toNat_lt
  have hr := rptr.toNat_lt
  rw [occupancy, toNat_wrap, UInt32.toNat_sub]
  simp only [msgQueueSize]
  omega

-- ---
-- Logical positions

/-- 1 while a request is released from the ring but not yet handled. -/
def FwPc.inFlight : FwPc → ℕ
  | .popReload _ | .popWrap _ _ | .handle _ => 1
  | _ => 0

/-- 1 while the newest response is produced but not yet published. -/
def FwPc.unpublished : FwPc → ℕ
  | .pushIndex _ _ | .pushEntry _ _ _ | .pushLoad _ | .pushBump _ _ => 1
  | _ => 0

def World.taken (s : World) : ℕ := s.trace.answered.length + s.fw.inFlight

def World.published (s : World) : List Response :=
  (s.trace.answered.map Prod.snd).take (s.trace.answered.length - s.fw.unpublished)

def World.HasRequest (s : World) : Prop := s.taken < s.trace.pushed.length

def World.HasRoom (s : World) : Prop :=
  s.published.length < s.trace.popped.length + msgQueueSize

/-- Largest value of `request_queue_rptr`: 8 only between its two stores. -/
def FwPc.requestRptrMax : FwPc → ℕ
  | .popReload _ | .popWrap _ _ => 8
  | _ => 7

/-- Largest value of `response_queue_wptr`: 8 only between its two stores. -/
def FwPc.responseWptrMax : FwPc → ℕ
  | .pushReload _ | .pushWrap _ _ => 8
  | _ => 7

-- ---
-- The invariant

def FwInv (base : ℕ) (s : World) : Prop :=
  let header := s.queue.header
  match s.fw with
  | .loadRequestWptr | .pushReload _ | .serialLoad _ | .serialStore _ => True
  | .loadRequestRptr requestWptr =>
    -- a write pointer sampled earlier: the host may have pushed since
    ∃ n, s.taken ≤ n ∧ n ≤ s.trace.pushed.length ∧ requestWptr.toNat = (base + n) % 8
  | .loadResponseWptr _ _ => s.HasRequest
  | .loadResponseRptr _ _ responseWptr =>
    s.HasRequest ∧ responseWptr = header.responseQueueWptr
  | .popIndex => s.HasRequest ∧ s.HasRoom
  | .popEntry ptr => s.HasRequest ∧ s.HasRoom ∧ ptr = header.requestQueueRptr
  | .popLoad request =>
    s.HasRequest ∧ s.HasRoom ∧ s.trace.pushed[s.trace.answered.length]? = some request
  | .popBump request ptr =>
    s.HasRequest ∧ s.HasRoom ∧ s.trace.pushed[s.trace.answered.length]? = some request ∧
      ptr = header.requestQueueRptr
  | .popReload request | .handle request =>
    s.HasRoom ∧ s.trace.pushed[s.trace.answered.length]? = some request
  | .popWrap request ptr =>
    s.HasRoom ∧ s.trace.pushed[s.trace.answered.length]? = some request ∧
      ptr = header.requestQueueRptr
  | .pushIndex request response =>
    s.HasRoom ∧ s.trace.answered.getLast? = some (request, response)
  | .pushEntry request response ptr =>
    s.HasRoom ∧ s.trace.answered.getLast? = some (request, response) ∧
      ptr = header.responseQueueWptr
  | .pushLoad request =>
    s.HasRoom ∧ s.trace.answered.getLast? =
      some (request, s.queue.responseQueue (entryIndex header.responseQueueWptr))
  | .pushBump request ptr =>
    s.HasRoom ∧ s.trace.answered.getLast? =
      some (request, s.queue.responseQueue (entryIndex header.responseQueueWptr)) ∧
      ptr = header.responseQueueWptr
  | .pushWrap _ ptr => ptr = header.responseQueueWptr

def HostInv (s : World) : Prop :=
  match s.host with
  | .idle => True
  | .pushEntry _ => s.trace.pushed.length < s.taken + msgQueueSize
  | .pushWptr request =>
    s.trace.pushed.length < s.taken + msgQueueSize ∧
      s.queue.requestQueue (entryIndex s.queue.header.requestQueueWptr) = request
  | .popEntry => s.trace.popped.length < s.published.length
  | .popRptr response =>
    s.trace.popped.length < s.published.length ∧
      s.published[s.trace.popped.length]? = some response

structure Inv (base : ℕ) (s : World) : Prop where
  requests : Holds msgQueueSize base s.queue.header.requestQueueWptr.toNat
    s.queue.header.requestQueueRptr.toNat s.queue.requestQueue s.trace.pushed s.taken
  responses : Holds msgQueueSize base s.queue.header.responseQueueWptr.toNat
    s.queue.header.responseQueueRptr.toNat s.queue.responseQueue s.published
    s.trace.popped.length
  answered : s.trace.answered.map Prod.fst <+: s.trace.pushed
  popped : s.trace.popped <+: s.published
  requestWptr_lt : s.queue.header.requestQueueWptr.toNat < 8
  responseRptr_lt : s.queue.header.responseQueueRptr.toNat < 8
  requestRptr_le : s.queue.header.requestQueueRptr.toNat ≤ s.fw.requestRptrMax
  responseWptr_le : s.queue.header.responseQueueWptr.toNat ≤ s.fw.responseWptrMax
  fw : FwInv base s
  host : HostInv s

theorem start_inv {serial : UInt32} {requestQueue : Fin msgQueueSize → Request}
    {responseQueue : Fin msgQueueSize → Response} (hptr : ptr < msgQueuePointerWrap) :
    Inv ptr.toNat (World.start ptr serial requestQueue responseQueue) := by
  have hlt : ptr.toNat < 8 := UInt32.lt_iff_toNat_lt.mp hptr
  refine ⟨Holds.init .., Holds.init .., List.prefix_refl _, List.prefix_refl _, hlt, hlt, ?_, ?_,
    trivial, trivial⟩
  · exact Nat.le_of_lt_succ hlt
  · exact Nat.le_of_lt_succ hlt

-- ---
-- Firmware accesses

section

variable {base : ℕ} {s : World}

theorem Inv.load (h : Inv base s) {pc : FwPc}
    (hflight : pc.inFlight = s.fw.inFlight) (hunpub : pc.unpublished = s.fw.unpublished)
    (hrmax : pc.requestRptrMax = s.fw.requestRptrMax)
    (hwmax : pc.responseWptrMax = s.fw.responseWptrMax)
    (hfw : FwInv base { s with fw := pc }) : Inv base { s with fw := pc } := by
  have htaken : World.taken { s with fw := pc } = s.taken := by
    simp only [World.taken, hflight]
  have hpub : World.published { s with fw := pc } = s.published := by
    simp only [World.published, hunpub]
  refine ⟨?_, ?_, h.answered, ?_, h.requestWptr_lt, h.responseRptr_lt, ?_, ?_, hfw, ?_⟩
  · rw [htaken]
    exact h.requests
  · rw [hpub]
    exact h.responses
  · rw [hpub]
    exact h.popped
  · rw [hrmax]
    exact h.requestRptr_le
  · rw [hwmax]
    exact h.responseWptr_le
  · have hhost := h.host
    simp only [HostInv, htaken, hpub] at hhost ⊢
    exact hhost

/-- A sampled write pointer that differs from the read pointer means that a
request is waiting, even if the sample is old. -/
theorem hasRequest_of_sample (h : Inv base s) {requestWptr : UInt32}
    (hrmax : s.fw.requestRptrMax = 7)
    (hsample : ∃ n, s.taken ≤ n ∧ n ≤ s.trace.pushed.length ∧
      requestWptr.toNat = (base + n) % 8)
    (hne : requestWptr ≠ s.queue.header.requestQueueRptr) : s.HasRequest := by
  obtain ⟨n, hlo, hhi, hw⟩ := hsample
  rcases Nat.lt_or_ge s.taken n with hlt | hge
  · exact lt_of_lt_of_le hlt hhi
  · exfalso
    apply hne
    have hn : n = s.taken := by omega
    have hr := h.requests.rptr_mod
    have hrle := h.requestRptr_le
    rw [hrmax] at hrle
    rw [← UInt32.toNat_inj, hw, hn]
    simp only [msgQueueSize] at hr
    omega

theorem hasRoom_of_startNextMessageOk (h : Inv base s)
    {requestWptr requestRptr : UInt32}
    (hok : startNextMessageOk requestWptr requestRptr s.queue.header.responseQueueWptr
      s.queue.header.responseQueueRptr = true) : s.HasRoom := by
  have hne : occupancy s.queue.header.responseQueueWptr s.queue.header.responseQueueRptr ≠ 4 := by
    intro heq
    unfold startNextMessageOk at hok
    rw [if_pos (by exact heq)] at hok
    exact Bool.false_ne_true hok
  obtain ⟨hmod, hlt⟩ := occupancy_spec s.queue.header.responseQueueWptr
    s.queue.header.responseQueueRptr
  have hocc := h.responses.occupancy hmod hlt
  have hne' : s.published.length - s.trace.popped.length ≠ 4 := by
    rw [← hocc]
    intro heq
    exact hne (UInt32.toNat_inj.mp heq)
  have hb := h.responses.bounded
  have hle := h.responses.taken_le
  simp only [World.HasRoom, msgQueueSize] at hb ⊢
  omega

theorem concat_initial {α : Type*} {l m : List α} {x : α} (h : l <+: m)
    (hget : m[l.length]? = some x) : l ++ [x] <+: m := by
  obtain ⟨rest, rfl⟩ := h
  rw [List.getElem?_append_right le_rfl, Nat.sub_self] at hget
  cases rest with
  | nil => simp at hget
  | cons y rest =>
    rw [List.getElem?_cons_zero, Option.some.injEq] at hget
    subst hget
    exact ⟨rest, by simp⟩

theorem published_of_unpublished_zero (h : s.fw.unpublished = 0) :
    s.published = s.trace.answered.map Prod.snd := by
  rw [World.published, h, Nat.sub_zero, List.take_of_length_le (by simp)]

variable {request : Request}

theorem map_snd_eq_take_append {l : List (Request × Response)} {response : Response}
    (h : l.getLast? = some (request, response)) :
    l.map Prod.snd = (l.map Prod.snd).take (l.length - 1) ++ [response] := by
  obtain ⟨ini, rfl⟩ := List.getLast?_eq_some_iff.mp h
  simp

theorem hostInv_publish {q q' : MessageQueue} {fw fw' : FwPc} {host : HostPc} {trace : Trace}
    {response : Response} (hq : q'.requestQueue = q.requestQueue)
    (hw : q'.header.requestQueueWptr = q.header.requestQueueWptr)
    (hflight : fw'.inFlight = fw.inFlight)
    (hpub : World.published ⟨q', fw', host, trace⟩ =
      World.published ⟨q, fw, host, trace⟩ ++ [response])
    (h : HostInv ⟨q, fw, host, trace⟩) : HostInv ⟨q', fw', host, trace⟩ := by
  cases host with
  | idle => trivial
  | pushEntry _ | pushWptr _ =>
    simp only [HostInv, World.taken, hq, hw, hflight] at h ⊢
    exact h
  | popEntry =>
    simp only [HostInv, hpub, List.length_append] at h ⊢
    exact Nat.lt_add_right _ h
  | popRptr _ =>
    simp only [HostInv, hpub, List.length_append] at h ⊢
    exact ⟨Nat.lt_add_right _ h.1, by rw [List.getElem?_append_left h.1]; exact h.2⟩

variable {q : MessageQueue} {ptr : UInt32} {host : HostPc} {trace : Trace}

/-- A request is released with the first store to `request_queue_rptr`, and is in flight from
then on. -/
theorem popBump_inv (messageHandlers : MessageHandlers)
    (h : Inv base ⟨q, .popBump request ptr, host, trace⟩) :
    Inv base (fwStep messageHandlers ⟨q, .popBump request ptr, host, trace⟩) := by
  obtain ⟨hreq, hroom, hget, (rfl : ptr = q.header.requestQueueRptr)⟩ := h.fw
  have hle : q.header.requestQueueRptr.toNat ≤ 7 := h.requestRptr_le
  have hbump : (q.header.requestQueueRptr + 1).toNat = q.header.requestQueueRptr.toNat + 1 :=
    toNat_bump (by omega)
  refine { h with
    requests := h.requests.release hreq (congrArg (· % 8) hbump)
    requestRptr_le := ?_
    fw := ⟨hroom, hget⟩
    host := ?_ }
  · show (q.header.requestQueueRptr + 1).toNat ≤ 8
    omega
  · have hhost := h.host
    cases host with
    | pushEntry request => exact Nat.lt_of_lt_of_le hhost (Nat.le_add_right _ 1)
    | pushWptr request => exact ⟨Nat.lt_of_lt_of_le hhost.1 (Nat.le_add_right _ 1), hhost.2⟩
    | _ => exact hhost

theorem handle_inv (messageHandlers : MessageHandlers)
    (h : Inv base ⟨q, .handle request, host, trace⟩) :
    Inv base (fwStep messageHandlers ⟨q, .handle request, host, trace⟩) := by
  obtain ⟨hroom, hget⟩ := h.fw
  let response :=
    (processQueuedMessage messageHandlers q.header.lastSerial request Response.zero).2
  have hpub : World.published (fwStep messageHandlers ⟨q, .handle request, host, trace⟩) =
      World.published ⟨q, .handle request, host, trace⟩ := by
    simp [World.published, fwStep, FwPc.unpublished, List.take_of_length_le]
  have htaken : World.taken (fwStep messageHandlers ⟨q, .handle request, host, trace⟩) =
      World.taken ⟨q, .handle request, host, trace⟩ := by
    simp [World.taken, fwStep, FwPc.inFlight]
  refine ⟨?_, ?_, ?_, ?_, h.requestWptr_lt, h.responseRptr_lt, h.requestRptr_le,
    h.responseWptr_le, ⟨?_, List.getLast?_concat⟩, ?_⟩
  · rw [htaken]
    exact h.requests
  · rw [hpub]
    exact h.responses
  · show (trace.answered ++ [(request, response)]).map Prod.fst <+: trace.pushed
    rw [List.map_append]
    exact concat_initial h.answered (by rw [List.length_map]; exact hget)
  · rw [hpub]
    exact h.popped
  · rw [World.HasRoom, hpub]
    exact hroom
  · have hhost := h.host
    cases host with
    | idle => trivial
    | pushEntry _ | pushWptr _ =>
      simp only [HostInv, htaken] at hhost ⊢
      exact hhost
    | popEntry | popRptr _ =>
      simp only [HostInv, hpub] at hhost ⊢
      exact hhost

/-- The response the firmware produced last becomes visible with the first store to
`response_queue_wptr`. -/
theorem pushBump_inv (messageHandlers : MessageHandlers)
    (h : Inv base ⟨q, .pushBump request ptr, host, trace⟩) :
    Inv base (fwStep messageHandlers ⟨q, .pushBump request ptr, host, trace⟩) := by
  obtain ⟨hroom, hlast, (rfl : ptr = q.header.responseQueueWptr)⟩ := h.fw
  have hle : q.header.responseQueueWptr.toNat ≤ 7 := h.responseWptr_le
  have hbump : (q.header.responseQueueWptr + 1).toNat = q.header.responseQueueWptr.toNat + 1 :=
    toNat_bump (by omega)
  have hpub : World.published ⟨q, .pushReload request, host, trace⟩ =
      World.published ⟨q, .pushBump request q.header.responseQueueWptr, host, trace⟩ ++
        [q.responseQueue (entryIndex q.header.responseQueueWptr)] := by
    rw [published_of_unpublished_zero rfl]
    exact map_snd_eq_take_append hlast
  have hresponses := h.responses.publish hroom rfl (congrArg (· % 8) hbump)
  refine { h with responses := ?_, popped := ?_, responseWptr_le := ?_, fw := trivial, host := ?_ }
  · rw [← entryIndex_eq_slot, ← hpub] at hresponses
    exact hresponses
  · exact h.popped.trans (hpub ▸ List.prefix_append _ _)
  · show (q.header.responseQueueWptr + 1).toNat ≤ 8
    omega
  · refine hostInv_publish ?_ ?_ ?_ hpub h.host <;> rfl

theorem fwStep_inv (messageHandlers : MessageHandlers)
    (h : Inv base s) : Inv base (fwStep messageHandlers s) := by
  obtain ⟨q, fw, host, trace⟩ := s
  have hfw := h.fw
  cases fw with
  | loadRequestWptr =>
    refine h.load rfl rfl rfl rfl ⟨trace.pushed.length, h.requests.taken_le, le_rfl, ?_⟩
    have hw : q.header.requestQueueWptr.toNat % 8 = _ := h.requests.wptr_mod
    exact (Nat.mod_eq_of_lt h.requestWptr_lt).symm.trans hw
  | loadRequestRptr requestWptr =>
    simp only [fwStep]
    split
    · exact h.load rfl rfl rfl rfl trivial
    · rename_i hne
      have hreq := hasRequest_of_sample h rfl hfw hne
      exact h.load rfl rfl rfl rfl hreq
  | loadResponseWptr requestWptr requestRptr =>
    exact h.load rfl rfl rfl rfl ⟨hfw, rfl⟩
  | loadResponseRptr requestWptr requestRptr responseWptr =>
    obtain ⟨hreq, (rfl : responseWptr = q.header.responseQueueWptr)⟩ := hfw
    simp only [fwStep]
    split
    · rename_i hok
      have hroom := hasRoom_of_startNextMessageOk h hok
      exact h.load rfl rfl rfl rfl ⟨hreq, hroom⟩
    · exact h.load rfl rfl rfl rfl trivial
  | popIndex => exact h.load rfl rfl rfl rfl ⟨hfw.1, hfw.2, rfl⟩
  | popEntry ptr =>
    obtain ⟨hreq, hroom, (rfl : ptr = q.header.requestQueueRptr)⟩ := hfw
    exact h.load rfl rfl rfl rfl ⟨hreq, hroom, h.requests.read hreq⟩
  | popLoad request => exact h.load rfl rfl rfl rfl ⟨hfw.1, hfw.2.1, hfw.2.2, rfl⟩
  | popBump request ptr => exact popBump_inv messageHandlers h
  | popReload request => exact h.load rfl rfl rfl rfl ⟨hfw.1, hfw.2, rfl⟩
  | popWrap request ptr =>
    obtain ⟨hroom, hget, (rfl : ptr = q.header.requestQueueRptr)⟩ := hfw
    exact { h with
      requests := h.requests.congr rfl (toNat_wrap_mod q.header.requestQueueRptr)
      requestRptr_le := Nat.le_of_lt_succ (toNat_wrap_lt _)
      fw := ⟨hroom, hget⟩ }
  | handle request => exact handle_inv messageHandlers h
  | pushIndex request response => exact h.load rfl rfl rfl rfl ⟨hfw.1, hfw.2, rfl⟩
  | pushEntry request response ptr =>
    obtain ⟨hroom, hlast, (rfl : ptr = q.header.responseQueueWptr)⟩ := hfw
    refine { h with responses := h.responses.write hroom response, fw := ⟨hroom, ?_⟩ }
    show trace.answered.getLast? = some (request, Function.update q.responseQueue
      (entryIndex q.header.responseQueueWptr) response (entryIndex q.header.responseQueueWptr))
    rw [Function.update_self]
    exact hlast
  | pushLoad request => exact h.load rfl rfl rfl rfl ⟨hfw.1, hfw.2, rfl⟩
  | pushBump request ptr => exact pushBump_inv messageHandlers h
  | pushReload request => exact h.load rfl rfl rfl rfl rfl
  | pushWrap request ptr =>
    obtain (rfl : ptr = q.header.responseQueueWptr) := hfw
    exact { h with
      responses := h.responses.congr (toNat_wrap_mod q.header.responseQueueWptr) rfl
      responseWptr_le := Nat.le_of_lt_succ (toNat_wrap_lt _)
      fw := trivial }
  | serialLoad request =>
    simp only [fwStep]
    split
    · exact h.load rfl rfl rfl rfl trivial
    · exact h.load rfl rfl rfl rfl trivial
  | serialStore serial =>
    exact { h with fw := trivial }

-- ---
-- Host accesses

/-- A pop does not sample `response_queue_wptr` while it holds 8, not yet
reduced, and the host's own pointer is 0. -/
def PopSeesReduced (s : World) : Action → Prop
  | .hostPop => ¬ (s.queue.header.responseQueueWptr = msgQueuePointerWrap ∧
      s.queue.header.responseQueueRptr = 0)
  | _ => True

instance (s : World) : ∀ a, Decidable (PopSeesReduced s a)
  | .hostPop => inferInstanceAs (Decidable (¬ _))
  | .fw _ | .hostPush _ | .host => .isTrue trivial

theorem push_room (h : Inv base s)
    (hguard : occupancy s.queue.header.requestQueueWptr s.queue.header.requestQueueRptr
      < msgQueueSize.toUInt32) :
    s.trace.pushed.length < s.taken + msgQueueSize := by
  obtain ⟨hmod, hlt⟩ := occupancy_spec s.queue.header.requestQueueWptr
    s.queue.header.requestQueueRptr
  have hocc := h.requests.occupancy hmod hlt
  have hfour : (occupancy s.queue.header.requestQueueWptr
      s.queue.header.requestQueueRptr).toNat < 4 := UInt32.lt_iff_toNat_lt.mp hguard
  have hle := h.requests.taken_le
  simp only [msgQueueSize]
  omega

/-- The guard of a pop means that a response waits, unless the pointer it saw
was not reduced. -/
theorem pop_nonempty (h : Inv base s)
    (hguard : s.queue.header.responseQueueWptr ≠ s.queue.header.responseQueueRptr)
    (hreduced : PopSeesReduced s .hostPop) :
    s.trace.popped.length < s.published.length := by
  have hle := h.responses.taken_le
  rcases Nat.lt_or_ge s.trace.popped.length s.published.length with hlt | hge
  · exact hlt
  · exfalso
    have hmod := h.responses.empty_iff.mpr (by omega)
    have hrptr := h.responseRptr_lt
    have hwptr : s.queue.header.responseQueueWptr.toNat ≤ 8 := by
      refine h.responseWptr_le.trans ?_
      cases s.fw <;> simp [FwPc.responseWptrMax]
    simp only [msgQueueSize] at hmod
    -- equal modulo 8 but different: the only such pair in range is (8, 0)
    have hne : s.queue.header.responseQueueWptr.toNat ≠
        s.queue.header.responseQueueRptr.toNat := fun heq => hguard (UInt32.toNat_inj.mp heq)
    apply hreduced
    constructor
    · apply UInt32.toNat_inj.mp
      show s.queue.header.responseQueueWptr.toNat = 8
      omega
    · apply UInt32.toNat_inj.mp
      show s.queue.header.responseQueueRptr.toNat = 0
      omega

variable {t : World}

theorem fwInv_mono (h : FwInv base s) (hfw : t.fw = s.fw)
    (hrptr : t.queue.header.requestQueueRptr = s.queue.header.requestQueueRptr)
    (hwptr : t.queue.header.responseQueueWptr = s.queue.header.responseQueueWptr)
    (hslots : t.queue.responseQueue = s.queue.responseQueue)
    (hanswered : t.trace.answered = s.trace.answered)
    (hpushed : s.trace.pushed <+: t.trace.pushed)
    (hpopped : s.trace.popped.length ≤ t.trace.popped.length) : FwInv base t := by
  have htaken : t.taken = s.taken := by rw [World.taken, World.taken, hfw, hanswered]
  have hpub : t.published = s.published := by rw [World.published, World.published, hfw, hanswered]
  have hlen := hpushed.length_le
  have hreq : s.HasRequest → t.HasRequest := by
    simp only [World.HasRequest, htaken]
    omega
  have hroom : s.HasRoom → t.HasRoom := by
    simp only [World.HasRoom, hpub]
    omega
  have hget : ∀ {i : ℕ} {request : Request}, s.trace.pushed[i]? = some request →
      t.trace.pushed[i]? = some request := by
    intro i request hi
    obtain ⟨rest, hrest⟩ := hpushed
    rw [← hrest, List.getElem?_append_left (List.getElem?_eq_some_iff.mp hi).1]
    exact hi
  simp only [FwInv, hfw, hrptr, hwptr, hslots, hanswered, htaken] at h ⊢
  generalize s.fw = pc at h ⊢
  cases pc with
  | loadRequestWptr | pushReload _ | serialLoad _ | serialStore _ => trivial
  | loadRequestRptr requestWptr =>
    obtain ⟨n, hlo, hhi, hw⟩ := h
    exact ⟨n, hlo, hhi.trans hlen, hw⟩
  | pushWrap _ _ => exact h
  | loadResponseWptr _ _ => exact hreq h
  | loadResponseRptr _ _ _ => exact ⟨hreq h.1, h.2⟩
  | popIndex => exact ⟨hreq h.1, hroom h.2⟩
  | popEntry _ => exact ⟨hreq h.1, hroom h.2.1, h.2.2⟩
  | popLoad _ => exact ⟨hreq h.1, hroom h.2.1, hget h.2.2⟩
  | popBump _ _ => exact ⟨hreq h.1, hroom h.2.1, hget h.2.2.1, h.2.2.2⟩
  | popReload _ | handle _ => exact ⟨hroom h.1, hget h.2⟩
  | popWrap _ _ => exact ⟨hroom h.1, hget h.2.1, h.2.2⟩
  | pushIndex _ _ | pushEntry _ _ _ | pushLoad _ | pushBump _ _ => exact ⟨hroom h.1, h.2⟩

theorem hostStep_inv (h : Inv base s) (hstep : hostStep s = some t) : Inv base t := by
  obtain ⟨q, fw, host, trace⟩ := s
  have hhost := h.host
  cases host with
  | idle => simp [hostStep] at hstep
  | pushEntry request =>
    rw [hostStep, Option.some.injEq] at hstep
    subst hstep
    exact { h with
      requests := h.requests.write hhost request
      host := ⟨hhost, Function.update_self ..⟩ }
  | pushWptr request =>
    rw [hostStep, Option.some.injEq] at hstep
    subst hstep
    obtain ⟨hroom, hslot⟩ := hhost
    exact { h with
      requests := h.requests.publish hroom hslot (wrap_mod h.requestWptr_lt)
      answered := h.answered.trans (List.prefix_append _ _)
      requestWptr_lt := toNat_wrap_lt _
      fw := fwInv_mono h.fw rfl rfl rfl rfl rfl (List.prefix_append _ _) le_rfl
      host := trivial }
  | popEntry =>
    rw [hostStep, Option.some.injEq] at hstep
    subst hstep
    exact { h with host := ⟨hhost, h.responses.read hhost⟩ }
  | popRptr response =>
    rw [hostStep, Option.some.injEq] at hstep
    subst hstep
    obtain ⟨hne, hget⟩ := hhost
    have hresponses := h.responses.release hne (wrap_mod h.responseRptr_lt)
    rw [← List.length_concat (a := response), List.concat_eq_append] at hresponses
    exact { h with
      responses := hresponses
      popped := concat_initial h.popped hget
      responseRptr_lt := toNat_wrap_lt _
      fw := fwInv_mono h.fw rfl rfl rfl rfl rfl (List.prefix_refl _) (by simp)
      host := trivial }

/-- **One step.** Whoever moves, the invariant is kept, as long as no pop
samples an unreduced pointer. -/
theorem step_inv {a : Action} (h : Inv base s) (hreduced : PopSeesReduced s a)
    (hstep : step s a = some t) : Inv base t := by
  cases a with
  | fw messageHandlers =>
    rw [step, Option.some.injEq] at hstep
    exact hstep ▸ fwStep_inv messageHandlers h
  | host => exact hostStep_inv h hstep
  | hostPush request =>
    obtain ⟨q, fw, host, trace⟩ := s
    cases host with
    | idle =>
      simp only [step, Option.ite_none_right_eq_some, Option.some.injEq] at hstep
      obtain ⟨hguard, rfl⟩ := hstep
      have hroom := push_room h hguard
      exact { h with host := hroom }
    | _ => simp [step] at hstep
  | hostPop =>
    obtain ⟨q, fw, host, trace⟩ := s
    cases host with
    | idle =>
      simp only [step, Option.ite_none_right_eq_some, Option.some.injEq] at hstep
      obtain ⟨hguard, rfl⟩ := hstep
      have hne := pop_nonempty h hguard hreduced
      exact { h with host := hne }
    | _ => simp [step] at hstep

/-- **Whole runs.** From equal pointers, every run in which no pop samples an
unreduced pointer keeps the invariant. -/
theorem exec_inv {ptr serial : UInt32} {requestQueue : Fin msgQueueSize → Request}
    {responseQueue : Fin msgQueueSize → Response} {acts : List Action}
    (hptr : ptr < msgQueuePointerWrap)
    (hreduced : Along step PopSeesReduced (World.start ptr serial requestQueue responseQueue) acts)
    (h : exec step (World.start ptr serial requestQueue responseQueue) acts = some s) :
    Inv ptr.toNat s :=
  exec_invariant_along (fun _ _ _ hi hc hs => step_inv hi hc hs) (start_inv hptr) hreduced h

end

end SystemFirmware.MsgQueue
