import SystemFirmware.MsgQueue.Invariant

/-!
# Host message queue — exactly-once FIFO

`ExactlyOnceFifo` is the contract of one queue in one state of a run: requests are answered
once and in push order, responses come back in that order, neither ring ever holds more
than `MSG_QUEUE_SIZE` entries and no unread entry is written over
(`exactlyOnceFifo_of_reduced_pops`).
-/

namespace SystemFirmware.MsgQueue

open Lib Lib.Ring

-- ---
-- The contract

/-- The contract of one queue whose pointers started at `base`. -/
structure ExactlyOnceFifo (base : ℕ) (s : World) : Prop where
  /-- Requests are handled in push order, each at most once. -/
  handled : s.trace.answered.map Prod.fst <+: s.trace.pushed
  /-- The `i`-th response taken was produced for the `i`-th request pushed. -/
  responses : ∀ (i : ℕ) (response : Response), s.trace.popped[i]? = some response →
    ∃ request, s.trace.pushed[i]? = some request ∧
      s.trace.answered[i]? = some (request, response)
  requestOccupancy : occupancy s.queue.header.requestQueueWptr
    s.queue.header.requestQueueRptr ≤ msgQueueSize.toUInt32
  responseOccupancy : occupancy s.queue.header.responseQueueWptr
    s.queue.header.responseQueueRptr ≤ msgQueueSize.toUInt32
  /-- Every request the firmware has not released is still in its slot. -/
  requestsIntact : ∀ i, s.taken ≤ i → i < s.trace.pushed.length →
    s.trace.pushed[i]? = some (s.queue.requestQueue (slot msgQueueSize (base + i)))
  /-- Every published response the host has not released is still in its slot. -/
  responsesIntact : ∀ i, s.trace.popped.length ≤ i → i < s.published.length →
    s.published[i]? = some (s.queue.responseQueue (slot msgQueueSize (base + i)))
  /-- A host about to store an entry stores it in no slot of an unread request. -/
  requestStore : ∀ request, s.host = .pushEntry request → ∀ i, s.taken ≤ i →
    i < s.trace.pushed.length →
    slot msgQueueSize (base + i) ≠ entryIndex s.queue.header.requestQueueWptr
  /-- A firmware about to store an entry stores it in no slot of an unread response. -/
  responseStore : ∀ request response ptr, s.fw = .pushEntry request response ptr →
    ∀ i, s.trace.popped.length ≤ i → i < s.published.length →
    slot msgQueueSize (base + i) ≠ entryIndex ptr

theorem published_initial (s : World) : s.published <+: s.trace.answered.map Prod.snd :=
  List.take_prefix _ _

theorem occupancy_le {base wptr' rptr' taken : ℕ} {wptr rptr : UInt32} {α : Type*}
    {slots : Fin msgQueueSize → α} {hist : List α} (hw : wptr' = wptr.toNat)
    (hr : rptr' = rptr.toNat) (h : Holds msgQueueSize base wptr' rptr' slots hist taken) :
    occupancy wptr rptr ≤ msgQueueSize.toUInt32 := by
  subst hw hr
  obtain ⟨hmod, hlt⟩ := occupancy_spec wptr rptr
  have hocc := h.occupancy hmod hlt
  have hb := h.bounded
  apply UInt32.le_iff_toNat_le.mpr
  show (occupancy wptr rptr).toNat ≤ 4
  simp only [msgQueueSize] at hb
  omega

theorem Inv.exactlyOnceFifo {base : ℕ} {s : World} (h : Inv base s) : ExactlyOnceFifo base s where
  handled := h.answered
  responses := by
    intro i response hget
    obtain ⟨rest, hrest⟩ := h.popped.trans (published_initial s)
    have hlt := (List.getElem?_eq_some_iff.mp hget).1
    have hsnd : (s.trace.answered.map Prod.snd)[i]? = some response := by
      rw [← hrest, List.getElem?_append_left hlt]
      exact hget
    rw [List.getElem?_map, Option.map_eq_some_iff] at hsnd
    obtain ⟨⟨request, _⟩, hans, rfl⟩ := hsnd
    refine ⟨request, ?_, hans⟩
    obtain ⟨rest', hrest'⟩ := h.answered
    have hfst : (s.trace.answered.map Prod.fst)[i]? = some request := by
      rw [List.getElem?_map, hans]
      rfl
    rw [← hrest', List.getElem?_append_left (List.getElem?_eq_some_iff.mp hfst).1]
    exact hfst
  requestOccupancy := occupancy_le rfl rfl h.requests
  responseOccupancy := occupancy_le rfl rfl h.responses
  requestsIntact := h.requests.entries
  responsesIntact := h.responses.entries
  requestStore := by
    intro request hpc i hlo hhi
    have hhost := h.host
    simp only [HostInv, hpc] at hhost
    exact h.requests.write_slot_free hhost hlo hhi
  responseStore := by
    intro request response ptr hpc i hlo hhi
    have hfw := h.fw
    simp only [FwInv, hpc] at hfw
    obtain ⟨hroom, -, rfl⟩ := hfw
    exact h.responses.write_slot_free hroom hlo hhi

-- ---
-- Every pushed request can still be answered

/-- Accesses left until the firmware is back at the loop head. -/
def FwPc.rank : FwPc → ℕ
  | .loadRequestWptr => 0
  | .loadRequestRptr _ => 18
  | .loadResponseWptr _ _ => 17
  | .loadResponseRptr _ _ _ => 16
  | .popIndex => 15
  | .popEntry _ => 14
  | .popLoad _ => 13
  | .popBump _ _ => 12
  | .popReload _ => 11
  | .popWrap _ _ => 10
  | .handle _ => 9
  | .pushIndex _ _ => 8
  | .pushEntry _ _ _ => 7
  | .pushLoad _ => 6
  | .pushBump _ _ => 5
  | .pushReload _ => 4
  | .pushWrap _ _ => 3
  | .serialLoad _ => 2
  | .serialStore _ => 1

/-- 1 from the moment a request is accepted until it is handled. -/
def FwPc.accepted : FwPc → ℕ
  | .popIndex | .popEntry _ | .popLoad _ | .popBump _ _ | .popReload _ | .popWrap _ _
  | .handle _ => 1
  | _ => 0

section Drain

variable {messageHandlers : MessageHandlers}

/-- The moves of a run that pushes nothing and in which the handlers answer as
`messageHandlers` does. -/
def Drainage (messageHandlers : MessageHandlers) (a : Action) : Prop :=
  a = .fw messageHandlers ∨ a = .hostPop ∨ a = .host

/-- `t` is reached from `s` by such moves, every pop seeing a reduced pointer. -/
def Drains (messageHandlers : MessageHandlers) (s : World) (acts : List Action) (t : World) :
    Prop :=
  (∀ a ∈ acts, Drainage messageHandlers a) ∧ Along step PopSeesReduced s acts ∧
    exec step s acts = some t

theorem Drains.refl (s : World) : Drains messageHandlers s [] s := ⟨by simp, trivial, rfl⟩

theorem Drains.cons {s t u : World} {a : Action} {acts : List Action}
    (ha : Drainage messageHandlers a) (hreduced : PopSeesReduced s a)
    (hstep : step s a = some t) (h : Drains messageHandlers t acts u) :
    Drains messageHandlers s (a :: acts) u := by
  refine ⟨?_, ⟨hreduced, ?_⟩, exec_cons_some.mpr ⟨t, hstep, h.2.2⟩⟩
  · intro b hmem
    rcases List.mem_cons.mp hmem with rfl | hmem
    · exact ha
    · exact h.1 b hmem
  · intro t' ht'
    rw [hstep, Option.some.injEq] at ht'
    exact ht' ▸ h.2.1

variable {base : ℕ} {s t : World} {acts : List Action}

theorem Drains.inv (h : Drains messageHandlers s acts t) (hs : Inv base s) : Inv base t :=
  exec_invariant_along (fun _ _ _ hi hc hstep => step_inv hi hc hstep) hs h.2.1 h.2.2

theorem Drains.append {u : World} {as bs : List Action} (h : Drains messageHandlers s as t)
    (h' : Drains messageHandlers t bs u) : Drains messageHandlers s (as ++ bs) u := by
  induction as generalizing s with
  | nil =>
    obtain ⟨-, -, hrun⟩ := h
    rw [exec_nil, Option.some.injEq] at hrun
    exact hrun ▸ h'
  | cons a as ih =>
    obtain ⟨hmem, ⟨hreduced, hrest⟩, hrun⟩ := h
    obtain ⟨m, hstep, hrun⟩ := exec_cons_some.mp hrun
    have htail := ih ⟨fun b hb => hmem b (List.mem_cons_of_mem _ hb), hrest m hstep, hrun⟩
    exact htail.cons (hmem a (List.mem_cons_self ..)) hreduced hstep

theorem Drains.fw (h : Drains messageHandlers (fwStep messageHandlers s) acts t) :
    Drains messageHandlers s (.fw messageHandlers :: acts) t :=
  h.cons (.inl rfl) trivial rfl

theorem Drains.host {u : World} (hstep : hostStep s = some t)
    (h : Drains messageHandlers t acts u) : Drains messageHandlers s (.host :: acts) u :=
  h.cons (.inr (.inr rfl)) trivial hstep

section

variable (messageHandlers)

theorem fwStep_rank_lt (hpc : s.fw ≠ .loadRequestWptr) :
    (fwStep messageHandlers s).fw.rank < s.fw.rank := by
  obtain ⟨q, fw, host, trace⟩ := s
  cases fw with
  | loadRequestWptr => exact absurd rfl hpc
  | loadRequestRptr _ | loadResponseRptr _ _ _ | serialLoad _ =>
    simp only [fwStep]
    split <;> simp [FwPc.rank]
  | _ => simp [fwStep, FwPc.rank]

theorem fwStep_frame (s : World) :
    (fwStep messageHandlers s).host = s.host ∧
      (fwStep messageHandlers s).trace.pushed = s.trace.pushed ∧
      (fwStep messageHandlers s).trace.popped = s.trace.popped := by
  obtain ⟨q, fw, host, trace⟩ := s
  cases fw with
  | loadRequestRptr _ | loadResponseRptr _ _ _ | serialLoad _ =>
    simp only [fwStep]
    split <;> exact ⟨rfl, rfl, rfl⟩
  | _ => exact ⟨rfl, rfl, rfl⟩

/-- An accepted request is answered, and no other: from `popIndex` on, the
number of answers and acceptances together is kept. -/
theorem fwStep_answers_le (hpc : s.fw ≠ .loadRequestWptr) :
    s.trace.answered.length + s.fw.accepted ≤
      (fwStep messageHandlers s).trace.answered.length +
        (fwStep messageHandlers s).fw.accepted := by
  obtain ⟨q, fw, host, trace⟩ := s
  cases fw with
  | loadRequestWptr => exact absurd rfl hpc
  | loadRequestRptr _ | loadResponseRptr _ _ _ | serialLoad _ =>
    simp only [fwStep]
    split <;> simp [FwPc.accepted]
  | _ => simp [fwStep, FwPc.accepted]

theorem fw_to_loop_head (s : World) :
    ∃ acts t, Drains messageHandlers s acts t ∧ t.fw = .loadRequestWptr ∧ t.host = s.host ∧
      t.trace.pushed = s.trace.pushed ∧ t.trace.popped = s.trace.popped ∧
      s.trace.answered.length + s.fw.accepted ≤ t.trace.answered.length := by
  induction hn : s.fw.rank using Nat.strong_induction_on generalizing s with
  | _ n ih =>
    by_cases hpc : s.fw = .loadRequestWptr
    · exact ⟨[], s, Drains.refl s, hpc, rfl, rfl, rfl, by simp [hpc, FwPc.accepted]⟩
    · obtain ⟨acts, t, hrun, hfw, hhost, hpushed, hpopped, hans⟩ :=
        ih _ (hn ▸ fwStep_rank_lt messageHandlers hpc) (fwStep messageHandlers s) rfl
      have hkeep := fwStep_answers_le messageHandlers hpc
      obtain ⟨hhost', hpushed', hpopped'⟩ := fwStep_frame messageHandlers s
      refine ⟨_, t, hrun.fw, hfw, hhost.trans hhost', hpushed.trans hpushed',
        hpopped.trans hpopped', ?_⟩
      omega

theorem host_to_idle (s : World) :
    ∃ acts t, Drains messageHandlers s acts t ∧ t.host = .idle ∧ s.trace.pushed <+: t.trace.pushed := by
  obtain ⟨q, fw, host, trace⟩ := s
  cases host with
  | idle => exact ⟨[], _, Drains.refl _, rfl, List.prefix_refl _⟩
  | pushEntry request =>
    exact ⟨_, _, Drains.host rfl (Drains.host rfl (Drains.refl _)), rfl, List.prefix_append _ _⟩
  | pushWptr request =>
    exact ⟨_, _, Drains.host rfl (Drains.refl _), rfl, List.prefix_append _ _⟩
  | popEntry =>
    exact ⟨_, _, Drains.host rfl (Drains.host rfl (Drains.refl _)), rfl, List.prefix_refl _⟩
  | popRptr response =>
    exact ⟨_, _, Drains.host rfl (Drains.refl _), rfl, List.prefix_refl _⟩

theorem drain_one_response (h : Inv base s)
    (hfw : s.fw = .loadRequestWptr) (hhost : s.host = .idle)
    (hwait : s.trace.popped.length < s.trace.answered.length) :
    ∃ acts t, Drains messageHandlers s acts t ∧ t.fw = .loadRequestWptr ∧ t.host = .idle ∧
      t.trace.pushed = s.trace.pushed ∧ t.trace.answered = s.trace.answered ∧
      t.trace.popped.length = s.trace.popped.length + 1 := by
  obtain ⟨q, fw, host, trace⟩ := s
  obtain (rfl : fw = _) := hfw
  obtain (rfl : host = _) := hhost
  have hlen : World.published ⟨q, .loadRequestWptr, .idle, trace⟩ =
      trace.answered.map Prod.snd := published_of_unpublished_zero rfl
  have hne : q.header.responseQueueWptr ≠ q.header.responseQueueRptr := by
    intro heq
    have hempty := h.responses.empty_iff.mp (congrArg (fun p => p.toNat % 8) heq)
    rw [hlen, List.length_map] at hempty
    exact Nat.ne_of_lt hwait hempty
  have hle : q.header.responseQueueWptr.toNat ≤ 7 := h.responseWptr_le
  have hreduced : PopSeesReduced ⟨q, .loadRequestWptr, .idle, trace⟩ .hostPop := by
    rintro ⟨hw, -⟩
    rw [show q.header.responseQueueWptr = msgQueuePointerWrap from hw] at hle
    exact absurd hle (by decide)
  refine ⟨_, _, Drains.cons (.inr (.inl rfl)) hreduced (if_pos hne)
    (Drains.host rfl (Drains.host rfl (Drains.refl _))), rfl, rfl, rfl, rfl, ?_⟩
  simp

end

theorem startNextMessageOk_of_inv (h : Inv base s) (hfw : s.fw = .loadRequestWptr)
    (hempty : s.trace.popped.length = s.trace.answered.length) :
    startNextMessageOk s.queue.header.requestQueueWptr s.queue.header.requestQueueRptr
      s.queue.header.responseQueueWptr s.queue.header.responseQueueRptr = true := by
  have hpub : s.published = s.trace.answered.map Prod.snd :=
    published_of_unpublished_zero (by rw [hfw]; rfl)
  obtain ⟨hmod, hlt⟩ := occupancy_spec s.queue.header.responseQueueWptr
    s.queue.header.responseQueueRptr
  have hocc := h.responses.occupancy hmod hlt
  rw [hpub, List.length_map, hempty, Nat.sub_self] at hocc
  have hne : ¬ occupancy s.queue.header.responseQueueWptr s.queue.header.responseQueueRptr = 4 := by
    intro heq
    rw [heq] at hocc
    exact absurd hocc (by decide)
  have hrptr := h.requestRptr_le
  have hwptr := h.responseWptr_le
  rw [hfw] at hrptr hwptr
  have hlt8 : ∀ {p : UInt32}, p.toNat ≤ 7 → ¬ msgQueuePointerWrap ≤ p := by
    intro p hp hge
    have : 8 ≤ p.toNat := UInt32.le_iff_toNat_le.mp hge
    omega
  unfold startNextMessageOk
  rw [if_neg (by exact hne)]
  simp [hlt8 (Nat.le_of_lt_succ h.requestWptr_lt), hlt8 hrptr, hlt8 hwptr]

theorem drain_one_request (messageHandlers : MessageHandlers) (h : Inv base s)
    (hfw : s.fw = .loadRequestWptr) (hhost : s.host = .idle)
    (hempty : s.trace.popped.length = s.trace.answered.length)
    (hwait : s.trace.answered.length < s.trace.pushed.length) :
    ∃ acts t, Drains messageHandlers s acts t ∧ t.fw = .loadRequestWptr ∧ t.host = .idle ∧
      t.trace.pushed = s.trace.pushed ∧ t.trace.popped = s.trace.popped ∧
      s.trace.answered.length < t.trace.answered.length := by
  obtain ⟨q, fw, host, trace⟩ := s
  obtain (rfl : fw = _) := hfw
  obtain (rfl : host = _) := hhost
  have hne : q.header.requestQueueWptr ≠ q.header.requestQueueRptr := by
    intro heq
    have := h.requests.empty_iff.mp (congrArg (fun p => p.toNat % 8) heq)
    exact Nat.ne_of_lt hwait this
  have hok : startNextMessageOk q.header.requestQueueWptr q.header.requestQueueRptr
      q.header.responseQueueWptr q.header.responseQueueRptr = true := by
    have := startNextMessageOk_of_inv h rfl hempty
    exact this
  -- four loads bring the firmware to `popIndex`, from where the rest follows
  obtain ⟨acts, t, hrun, htfw, hthost, hpushed, hpopped, hans⟩ :=
    fw_to_loop_head messageHandlers ⟨q, .popIndex, .idle, trace⟩
  have hload : fwStep messageHandlers ⟨q, .loadResponseRptr q.header.requestQueueWptr
      q.header.requestQueueRptr q.header.responseQueueWptr, .idle, trace⟩ =
      ⟨q, .popIndex, .idle, trace⟩ := by
    simp [fwStep, hok]
  have hcheck : fwStep messageHandlers ⟨q, .loadRequestRptr q.header.requestQueueWptr, .idle,
      trace⟩ = ⟨q, .loadResponseWptr q.header.requestQueueWptr q.header.requestQueueRptr, .idle,
      trace⟩ := by
    simp [fwStep, hne]
  have h4 := Drains.fw (hload ▸ hrun)
  have h3 : Drains messageHandlers ⟨q, .loadResponseWptr q.header.requestQueueWptr q.header.requestQueueRptr,
      .idle, trace⟩ _ t := Drains.fw h4
  have h2 := Drains.fw (hcheck ▸ h3)
  have h1 : Drains messageHandlers ⟨q, .loadRequestWptr, .idle, trace⟩ _ t := Drains.fw h2
  exact ⟨_, t, h1, htfw, hthost, hpushed, hpopped, Nat.lt_of_lt_of_le (Nat.lt_succ_self _) hans⟩

theorem drain_all (messageHandlers : MessageHandlers) (h : Inv base s)
    (hfw : s.fw = .loadRequestWptr) (hhost : s.host = .idle) :
    ∃ acts t, Drains messageHandlers s acts t ∧ t.trace.pushed = s.trace.pushed ∧
      t.trace.answered.length = t.trace.pushed.length ∧
      t.trace.popped.length = t.trace.pushed.length := by
  -- answering leaves one request less and one response more, taking one response less
  induction hn : 2 * (s.trace.pushed.length - s.trace.answered.length) +
      (s.trace.answered.length - s.trace.popped.length)
      using Nat.strong_induction_on generalizing s with
  | _ n ih =>
    have hans : s.trace.answered.length ≤ s.trace.pushed.length := by
      simpa using h.answered.length_le
    have hpop : s.trace.popped.length ≤ s.trace.answered.length := by
      simpa using (h.popped.trans (published_initial s)).length_le
    by_cases hresp : s.trace.popped.length < s.trace.answered.length
    · obtain ⟨acts, t, hrun, htfw, hthost, hpushed, hanswered, hpopped⟩ :=
        drain_one_response messageHandlers h hfw hhost hresp
      obtain ⟨acts', u, hrun', hu, hdone⟩ :=
        ih _ (by rw [hpushed, hanswered, hpopped]; omega) (hrun.inv h) htfw hthost rfl
      exact ⟨acts ++ acts', u, hrun.append hrun', hu.trans hpushed, hdone⟩
    · by_cases hreq : s.trace.answered.length < s.trace.pushed.length
      · obtain ⟨acts, t, hrun, htfw, hthost, hpushed, hpopped, hanswered⟩ :=
          drain_one_request messageHandlers h hfw hhost (by omega) hreq
        have htans : t.trace.answered.length ≤ t.trace.pushed.length := by
          simpa using (hrun.inv h).answered.length_le
        obtain ⟨acts', u, hrun', hu, hdone⟩ :=
          ih _ (by rw [hpushed, hpopped]; rw [hpushed] at htans; omega) (hrun.inv h) htfw hthost rfl
        exact ⟨acts ++ acts', u, hrun.append hrun', hu.trans hpushed, hdone⟩
      · exact ⟨[], s, Drains.refl s, rfl, by omega, by omega⟩

end Drain

-- ---
-- The results

/-- **Exactly-once FIFO.** In every run in which no pop samples an unreduced
`response_queue_wptr`, every state meets the contract, and from every state all requests pushed so
far can be answered and their responses taken without any further push. -/
theorem exactlyOnceFifo_of_reduced_pops {ptr serial : UInt32}
    {requestQueue : Fin msgQueueSize → Request} {responseQueue : Fin msgQueueSize → Response}
    {acts : List Action} {s : World} (hptr : ptr < msgQueuePointerWrap)
    (hreduced : Along step PopSeesReduced (World.start ptr serial requestQueue responseQueue) acts)
    (h : exec step (World.start ptr serial requestQueue responseQueue) acts = some s) :
    ExactlyOnceFifo ptr.toNat s ∧
    ∀ messageHandlers : MessageHandlers, ∃ acts' t,
      (∀ a ∈ acts', Drainage messageHandlers a) ∧ exec step s acts' = some t ∧
      ExactlyOnceFifo ptr.toNat t ∧ s.trace.pushed <+: t.trace.pushed ∧
      t.trace.answered.map Prod.fst = t.trace.pushed ∧
      t.trace.popped = t.trace.answered.map Prod.snd := by
  have hinv := exec_inv hptr hreduced h
  refine ⟨hinv.exactlyOnceFifo, fun messageHandlers => ?_⟩
  obtain ⟨acts₁, s₁, hrun₁, hhost₁, hpushed₁⟩ := host_to_idle messageHandlers s
  obtain ⟨acts₂, s₂, hrun₂, hfw₂, hhost₂, hpushed₂, -, -⟩ := fw_to_loop_head messageHandlers s₁
  have hinv₂ := hrun₂.inv (hrun₁.inv hinv)
  obtain ⟨acts₃, t, hrun₃, hpushed₃, hans, hpop⟩ :=
    drain_all messageHandlers hinv₂ hfw₂ (hhost₂.trans hhost₁)
  have hrun := hrun₁.append (hrun₂.append hrun₃)
  have hinvt := hrun.inv hinv
  refine ⟨_, t, hrun.1, hrun.2.2, hinvt.exactlyOnceFifo, ?_, ?_, ?_⟩
  · rw [hpushed₃, hpushed₂]
    exact hpushed₁
  · exact hinvt.answered.eq_of_length (by rw [List.length_map, hans])
  · exact (hinvt.popped.trans (published_initial t)).eq_of_length
      (by rw [List.length_map, hpop, hans])

def noHandlers : MessageHandlers := fun _ => none

def startAtSeven : World :=
  World.start 7 0 (fun _ => ⟨fun _ => 0⟩) (fun _ => Response.zero)

def twoRequests : List Action :=
  [.hostPush ⟨fun _ => 1⟩, .host, .host, .hostPush ⟨fun _ => 2⟩, .host, .host] ++
    List.replicate 38 (.fw noHandlers) ++ [.hostPop, .host, .host, .hostPop, .host, .host]

theorem twoRequests_exactlyOnceFifo :
    ∃ s, exec step startAtSeven twoRequests = some s ∧ ExactlyOnceFifo 7 s ∧
      s.trace.popped.length = 2 := by
  have hreduced : Along step PopSeesReduced startAtSeven twoRequests := by decide +kernel
  have hrun : (exec step startAtSeven twoRequests).map (·.trace.popped.length) = some 2 := by
    decide +kernel
  obtain ⟨s, hs, hlen⟩ := Option.map_eq_some_iff.mp hrun
  exact ⟨s, hs, (exactlyOnceFifo_of_reduced_pops (by decide) hreduced hs).1, hlen⟩

/-- The firmware has stored 8 in `response_queue_wptr`; the host takes the one response, its
pointer becomes 0, and it samples 8 again. -/
def popBetweenStores : List Action :=
  [.hostPush ⟨fun _ => 0⟩, .host, .host] ++ List.replicate 15 (.fw noHandlers) ++
    [.hostPop, .host, .host] ++ [.hostPop, .host, .host]

/-- **Counterexample.** One request was pushed and two responses are taken. -/
theorem pop_between_stores_not_fifo :
    ∃ s, exec step startAtSeven popBetweenStores = some s ∧ ¬ ExactlyOnceFifo 7 s := by
  have hrun : (exec step startAtSeven popBetweenStores).map
      (fun s => (s.trace.pushed.length, s.trace.popped.length)) = some (1, 2) := by
    decide +kernel
  obtain ⟨s, hs, hlen⟩ := Option.map_eq_some_iff.mp hrun
  refine ⟨s, hs, fun hfifo => ?_⟩
  simp only [Prod.mk.injEq] at hlen
  obtain ⟨hpushed, hpopped⟩ := hlen
  obtain ⟨request, hget, -⟩ := hfifo.responses 1 (s.trace.popped[1]) (List.getElem?_eq_getElem _)
  have := (List.getElem?_eq_some_iff.mp hget).1
  omega

end SystemFirmware.MsgQueue
