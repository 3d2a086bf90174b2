import SystemFirmware.Aiclk.Definitions
import SystemFirmware.Lib.Linearizable

/-!
# The counters of the DVFS loop

`atomic_max_u32` and `dvfs_counter_handler` (`dvfs.c`) at the grain of single atomic
operations, in any interleaving: the work handler's thread makes any sequence of calls
of `atomic_max_u32`, any number of threads serve COUNTER messages, and the timer's
interrupt counts dropped ticks.

An operation takes effect at its last atomic operation (`dvfs_maxima_linearizable`): a call
of `atomic_max_u32` that ends without a swap has just read a value no lower than its own. A
swap fails only after a clear, which bounds the rounds of a call (`atomicMaxU32_returns`).
-/

namespace SystemFirmware.Dvfs.Counters

open Lib
open Aiclk (CounterCmd)

inductive Maximum where
  | periodUs
  | passUs
  deriving DecidableEq

inductive Counter where
  | droppedTicks
  | maximum (m : Maximum)
  deriving DecidableEq

def dvfsCounters : List Counter := [.droppedTicks, .maximum .periodUs, .maximum .passUs]

/-- `atomic_get` or `atomic_clear`. -/
inductive Access where
  | get
  | clear

/-- The status and the atomic operations of `dvfs_counter_handler`; the response to GET is what is
read. Other commands are refused as FREEZE is. -/
def dvfsCounterHandler : CounterCmd → UInt8 × List (Counter × Access)
  | .get bankIndex =>
    match dvfsCounters[bankIndex.toNat]? with
    | none => (1, [])
    | some c => (0, [(c, .get)])
  | .clear mask =>
    (0, (dvfsCounters.zipIdx.filter fun p => mask.toBitVec.getLsbD p.2).map fun p => (p.1, .clear))
  | .freeze _ => (1, [])

/-- A completed operation on a counter, with what `atomic_get` returned. -/
inductive Op where
  | max (value : UInt32)
  | get (result : UInt32)
  | clear
  deriving DecidableEq

/-- A call inside its loop: `old` is what it read, unless its `atomic_cas` failed and it reads
again. -/
structure Call where
  target : Maximum
  value : UInt32
  first : ℕ
  old : Option UInt32

def Call.counter (call : Call) : Counter := .maximum call.target

/-- The counters and the operations completed on each, after `time` atomic operations. -/
structure Memory where
  counters : Counter → UInt32
  time : ℕ
  done : Counter → List (Completed Op)

def Memory.set (s : Memory) (c : Counter) (v : UInt32) : Memory :=
  { s with counters := Function.update s.counters c v }

def Memory.tick (s : Memory) : Memory := { s with time := s.time + 1 }

def Memory.record (s : Memory) (c : Counter) (op : Op) (first : ℕ) : Memory :=
  { s.tick with done := Function.update s.done c (s.done c ++ [⟨op, first, s.time⟩]) }

def Memory.access (s : Memory) (c : Counter) : Access → Memory
  | .get => s.record c (.get (s.counters c)) s.time
  | .clear => (s.set c 0).record c .clear s.time

/-- The worker's call, and the operations left to each thread that serves a message. -/
structure World where
  mem : Memory
  worker : Option Call
  handlers : ℕ → List (Counter × Access)

def World.start : World := ⟨⟨fun _ => 0, 0, fun _ => []⟩, none, fun _ => []⟩

/-- `atomic_get` in `atomic_max_u32`, and the test of the loop. -/
def World.load (w : World) (call : Call) : World :=
  let old := w.mem.counters call.counter
  if call.value > old then
    { w with mem := w.mem.tick, worker := some { call with old := some old } }
  else { w with mem := w.mem.record call.counter (.max call.value) call.first, worker := none }

/-- `atomic_cas` in `atomic_max_u32`. -/
def World.cas (w : World) (call : Call) (old : UInt32) : World :=
  if w.mem.counters call.counter = old then
    { w with
      mem := (w.mem.set call.counter call.value).record call.counter (.max call.value) call.first
      worker := none }
  else { w with mem := w.mem.tick, worker := some { call with old := none } }

inductive Action where
  /-- The worker calls `atomic_max_u32`, up to its first `atomic_get`. -/
  | call (target : Maximum) (value : UInt32)
  /-- The next atomic operation of that call. -/
  | work
  /-- A thread takes up a COUNTER message. -/
  | message (thread : ℕ) (cmd : CounterCmd)
  /-- The next atomic operation of its handler. -/
  | handler (thread : ℕ)
  /-- `atomic_inc(&dvfs_dropped_ticks)` in the timer's interrupt. -/
  | dropTick

def step (w : World) : Action → Option World
  | .call target value =>
    match w.worker with
    | none => some (w.load ⟨target, value, w.mem.time, none⟩)
    | some _ => none
  | .work =>
    match w.worker with
    | none => none
    | some call =>
      match call.old with
      | none => some (w.load call)
      | some old => some (w.cas call old)
  | .message thread cmd =>
    match w.handlers thread with
    | [] => some { w with
        handlers := Function.update w.handlers thread (dvfsCounterHandler cmd).2 }
    | _ :: _ => none
  | .handler thread =>
    match w.handlers thread with
    | [] => none
    | (c, access) :: rest =>
      some { w with
        mem := w.mem.access c access
        handlers := Function.update w.handlers thread rest }
  | .dropTick =>
    some { w with
      mem := (w.mem.set .droppedTicks (w.mem.counters .droppedTicks + 1)).tick }

-- ---
-- Completed operations in sequence

def Op.apply (v : UInt32) : Op → UInt32
  | .max value => Max.max value v
  | .get _ => v
  | .clear => 0

/-- The maximum of the values since the last clear, 0 if there are none. -/
def maxSinceClear (ops : List Op) : UInt32 := ops.foldl Op.apply 0

/-- Each get returns the maximum of the values before it, since the last clear. -/
def Legal (ops : List Op) : Prop :=
  ∀ i result, ops[i]? = some (.get result) → result = maxSinceClear (ops.take i)

theorem Legal.concat {ops : List Op} {op : Op} (h : Legal ops)
    (hop : ∀ result, op = .get result → result = maxSinceClear ops) : Legal (ops ++ [op]) := by
  intro i result hget
  rcases getElem?_concat_iff.mp hget with hold | ⟨rfl, hnew⟩
  · have hlt : i < ops.length := (List.getElem?_eq_some_iff.mp hold).1
    rw [List.take_append_of_le_length hlt.le]
    exact h i result hold
  · rw [List.take_left]
    exact hop result hnew

-- ---
-- One step

structure Keeps (s s' : Memory) (c : Counter) : Prop where
  done : s'.done c = s.done c
  counter : s'.counters c = s.counters c

/-- `op` completes and takes effect at this atomic operation. -/
structure Completes (s s' : Memory) (c : Counter) (op : Op) (first : ℕ) : Prop where
  start : first ≤ s.time
  done : s'.done c = s.done c ++ [⟨op, first, s.time⟩]
  counter : s'.counters c = op.apply (s.counters c)
  result : ∀ result, op = .get result → result = s.counters c

/-- All that a step can do to a counter. -/
def Effect (s s' : Memory) (c : Counter) : Prop :=
  s.time ≤ s'.time ∧ (Keeps s s' c ∨ ∃ op first, Completes s s' c op first)

/-- A call began no later than now, and swaps only for a larger value. -/
def Call.Valid (s : Memory) (call : Call) : Prop :=
  call.first ≤ s.time ∧ ∀ old ∈ call.old, old < call.value

variable {s s' : Memory} {w w' : World} {a : Action} {call : Call} {c : Counter}

theorem effect_tick : Effect s s.tick c := ⟨Nat.le_succ _, .inl ⟨rfl, rfl⟩⟩

theorem effect_record {op : Op} {first : ℕ} {v : UInt32} (hfirst : first ≤ s.time)
    (hv : v = op.apply (s.counters c)) (hget : ∀ result, op = .get result → result = s.counters c)
    (c' : Counter) : Effect s ((s.set c v).record c op first) c' := by
  refine ⟨Nat.le_succ _, ?_⟩
  by_cases hc : c' = c
  · subst hc
    refine .inr ⟨op, first, hfirst, ?_, ?_, hget⟩
    · simp [Memory.record, Memory.set]
    · simp [Memory.record, Memory.tick, Memory.set, hv]
  · refine .inl ⟨?_, ?_⟩ <;> simp [Memory.record, Memory.tick, Memory.set, hc]

theorem set_self : s.set c (s.counters c) = s := by rw [Memory.set, Function.update_eq_self]

theorem access_effect (access : Access) (c' : Counter) : Effect s (s.access c access) c' := by
  cases access with
  | get =>
    have hkeep : s.counters c = (Op.get (s.counters c)).apply (s.counters c) := rfl
    have heffect := effect_record le_rfl hkeep (by simp) c'
    rwa [set_self] at heffect
  | clear =>
    have hclear : (0 : UInt32) = Op.clear.apply (s.counters c) := rfl
    exact effect_record le_rfl hclear (by simp) c'

/-- What an atomic operation of a call does, with `w'` the world after it. -/
def Works (w w' : World) : Prop :=
  (∀ c, Effect w.mem w'.mem c) ∧ ∀ call ∈ w'.worker, call.Valid w'.mem

theorem works_tick {old : Option UInt32} (hfirst : call.first ≤ w.mem.time)
    (hlt : ∀ o ∈ old, o < call.value) :
    Works w { w with mem := w.mem.tick, worker := some { call with old := old } } := by
  refine ⟨fun c => effect_tick, ?_⟩
  rintro call' ⟨⟩
  exact ⟨Nat.le_succ_of_le hfirst, hlt⟩

theorem load_works (hfirst : call.first ≤ w.mem.time) : Works w (w.load call) := by
  simp only [World.load]
  split
  case isTrue hlt =>
    refine works_tick hfirst ?_
    rintro old ⟨⟩
    exact hlt
  case isFalse hle =>
    -- the value read is no lower, so the maximum stays as it is
    have hmax : w.mem.counters call.counter =
        (Op.max call.value).apply (w.mem.counters call.counter) :=
      (if_pos (UInt32.not_lt.mp hle)).symm
    have heffect := effect_record hfirst hmax (by simp)
    rw [set_self] at heffect
    exact ⟨heffect, by simp⟩

theorem cas_works {old : UInt32} (hfirst : call.first ≤ w.mem.time) (hlt : old < call.value) :
    Works w (w.cas call old) := by
  simp only [World.cas]
  split
  case isTrue hold =>
    have hmax : call.value = (Op.max call.value).apply (w.mem.counters call.counter) :=
      (if_neg (UInt32.not_le.mpr (hold ▸ hlt))).symm
    exact ⟨effect_record hfirst hmax (by simp), by simp⟩
  case isFalse => exact works_tick hfirst (by simp)

theorem step_cases (h : step w a = some w') :
    (∃ target value, w.worker = none ∧ w' = w.load ⟨target, value, w.mem.time, none⟩) ∨
    (∃ call, w.worker = some call ∧
      (call.old = none ∧ w' = w.load call ∨ ∃ old, call.old = some old ∧ w' = w.cas call old)) ∨
    (a ≠ .work ∧ w'.worker = w.worker ∧
      ((∃ c access, w'.mem = w.mem.access c access) ∨
        w.mem.time ≤ w'.mem.time ∧ ∀ m, Keeps w.mem w'.mem (.maximum m))) := by
  cases a with
  | call target value =>
    simp only [step] at h
    split at h
    case h_1 hidle => exact .inl ⟨target, value, hidle, (Option.some.inj h).symm⟩
    case h_2 => cases h
  | work =>
    simp only [step] at h
    split at h
    case h_1 => cases h
    case h_2 call hworker =>
      refine .inr (.inl ⟨call, hworker, ?_⟩)
      split at h
      case h_1 hold => exact .inl ⟨hold, (Option.some.inj h).symm⟩
      case h_2 old hold => exact .inr ⟨old, hold, (Option.some.inj h).symm⟩
  | message thread cmd =>
    simp only [step] at h
    split at h
    case h_1 =>
      cases h
      exact .inr (.inr ⟨by simp, rfl, .inr ⟨le_rfl, fun m => ⟨rfl, rfl⟩⟩⟩)
    case h_2 => cases h
  | handler thread =>
    simp only [step] at h
    split at h
    case h_1 => cases h
    case h_2 c access rest hleft =>
      cases h
      exact .inr (.inr ⟨by simp, rfl, .inl ⟨c, access, rfl⟩⟩)
  | dropTick =>
    cases h
    refine .inr (.inr ⟨by simp, rfl, .inr ⟨Nat.le_succ _, fun m => ⟨rfl, ?_⟩⟩⟩)
    simp [Memory.tick, Memory.set]

-- ---
-- Whole runs

/-- A counter is the maximum of what has completed on it, in the order of completion. -/
structure Tracks (s : Memory) (c : Counter) : Prop where
  counter : s.counters c = maxSinceClear ((s.done c).map Completed.op)
  started : ∀ a ∈ s.done c, a.first ≤ s.time
  linearizes : Linearizes Legal (s.done c) (s.done c)

structure Inv (w : World) : Prop where
  call : ∀ call ∈ w.worker, call.Valid w.mem
  tracks : ∀ m, Tracks w.mem (.maximum m)

theorem Tracks.step (h : Tracks s c) (heffect : Effect s s' c) : Tracks s' c := by
  obtain ⟨htime, hkeeps | ⟨op, first, hop⟩⟩ := heffect
  · obtain ⟨hdone, hcounter⟩ := hkeeps
    refine ⟨by rw [hcounter, hdone, h.counter], ?_, hdone ▸ h.linearizes⟩
    rw [hdone]
    intro a ha
    exact (h.started a ha).trans htime
  · refine ⟨?_, ?_, ?_⟩
    · rw [hop.counter, hop.done, h.counter, List.map_append, maxSinceClear, maxSinceClear,
        List.foldl_append]
      rfl
    · rw [hop.done]
      intro a ha
      rcases List.mem_append.mp ha with hold | hnew
      · exact (h.started a hold).trans htime
      · rw [List.mem_singleton.mp hnew]
        exact hop.start.trans htime
    · rw [hop.done]
      refine h.linearizes.concat h.started (h.linearizes.legal.concat ?_)
      intro result hget
      rw [hop.result result hget, h.counter]

theorem step_inv (h : Inv w) (hstep : step w a = some w') : Inv w' := by
  have hworks : Works w w' → Inv w' := by
    intro hw
    exact ⟨hw.2, fun m => (h.tracks m).step (hw.1 (.maximum m))⟩
  rcases step_cases hstep with ⟨target, value, -, rfl⟩ | ⟨call, hworker, hop⟩ | ⟨-, hsame, hother⟩
  · exact hworks (load_works le_rfl)
  · obtain ⟨hfirst, hlt⟩ := h.call call hworker
    rcases hop with ⟨-, rfl⟩ | ⟨old, hold, rfl⟩
    · exact hworks (load_works hfirst)
    · exact hworks (cas_works hfirst (hlt old hold))
  · have heffect : ∀ m, Effect w.mem w'.mem (.maximum m) := by
      intro m
      rcases hother with ⟨c, access, hmem⟩ | ⟨htime, hkeeps⟩
      · exact hmem ▸ access_effect access (.maximum m)
      · exact ⟨htime, .inl (hkeeps m)⟩
    refine ⟨?_, fun m => (h.tracks m).step (heffect m)⟩
    intro call hcall
    obtain ⟨hfirst, hlt⟩ := h.call call (hsame ▸ hcall)
    exact ⟨hfirst.trans (heffect .passUs).1, hlt⟩

theorem start_inv : Inv World.start := by
  refine ⟨by simp [World.start], fun m => ⟨rfl, by simp [World.start], .refl _, .nil, ?_⟩⟩
  intro i result hget
  simp [World.start] at hget

-- ---
-- Termination of `atomic_max_u32`

def Memory.clears (s : Memory) (m : Maximum) : ℕ :=
  (s.done (.maximum m)).countP fun a => a.op = .clear

def Call.Returned (s : Memory) (call : Call) : Prop :=
  ∃ last, ⟨.max call.value, call.first, last⟩ ∈ s.done call.counter

/-- How far a call is from its end if no clear intervenes. -/
def Call.distance (s : Memory) (call : Call) : ℕ :=
  match call.old with
  | none => 2
  | some old => if s.counters call.counter = old then 1 else 3

/-- A clear can undo a round of the call, but `k` bounds the clears. -/
def World.rank (k : ℕ) (w : World) : ℕ :=
  w.worker.elim 0 fun call => 3 * (k - w.mem.clears call.target) + call.distance w.mem

theorem distance_bounds (s : Memory) (call : Call) :
    1 ≤ call.distance s ∧ call.distance s ≤ 3 := by
  unfold Call.distance
  split
  · decide
  · split <;> decide

theorem access_clears (access : Access) (m : Maximum) :
    (s.access c access).counters (.maximum m) = s.counters (.maximum m) ∧
      (s.access c access).clears m = s.clears m ∨
    (s.access c access).clears m = s.clears m + 1 := by
  by_cases hc : .maximum m = c
  · subst hc
    cases access with
    | get => exact .inl ⟨rfl, by simp [Memory.access, Memory.record, Memory.clears]⟩
    | clear => exact .inr (by simp [Memory.access, Memory.record, Memory.clears, Memory.set])
  · refine .inl ?_
    cases access <;>
      simp [Memory.access, Memory.record, Memory.tick, Memory.set, Memory.clears, hc]

variable {k : ℕ}

theorem rank_le (hworker : w.worker = some call) (hsame : w'.worker = w.worker)
    (hk : w'.mem.clears call.target ≤ k)
    (h : w'.mem.counters call.counter = w.mem.counters call.counter ∧
        w'.mem.clears call.target = w.mem.clears call.target ∨
      w'.mem.clears call.target = w.mem.clears call.target + 1) : w'.rank k ≤ w.rank k := by
  simp only [World.rank, hsame, hworker, Option.elim]
  rcases h with ⟨hcounter, hclears⟩ | hclears
  · simp only [Call.distance, hcounter, hclears, le_refl]
  · have hlow := (distance_bounds w.mem call).1
    have hhigh := (distance_bounds w'.mem call).2
    omega

/-- A call goes on, nearer to its end. -/
def Advances (k : ℕ) (w w' : World) (call : Call) : Prop :=
  ∃ old, w'.worker = some { call with old := old } ∧ w'.rank k < w.rank k

theorem advances_tick {old : Option UInt32} (hworker : w.worker = some call)
    (hnext : w'.worker = some { call with old := old }) (hmem : w'.mem = w.mem.tick)
    (hlt : { call with old := old }.distance w.mem < call.distance w.mem) :
    Advances k w w' call := by
  refine ⟨old, hnext, ?_⟩
  simp only [World.rank, hnext, hworker, hmem, Option.elim]
  exact Nat.add_lt_add_left hlt _

theorem load_advances (hworker : w.worker = some call) (hold : call.old = none) :
    call.Returned (w.load call).mem ∨ Advances k w (w.load call) call := by
  simp only [World.load]
  split
  case isTrue =>
    refine .inr (advances_tick hworker rfl rfl ?_)
    simp [Call.distance, hold, Call.counter]
  case isFalse => exact .inl ⟨w.mem.time, by simp [Memory.record]⟩

theorem cas_advances {old : UInt32} (hworker : w.worker = some call) (hold : call.old = some old) :
    call.Returned (w.cas call old).mem ∨ Advances k w (w.cas call old) call := by
  simp only [World.cas]
  split
  case isTrue => exact .inl ⟨w.mem.time, by simp [Memory.record, Memory.set]⟩
  case isFalse hne =>
    refine .inr (advances_tick hworker rfl rfl ?_)
    simp [Call.distance, hold, hne]

/-- A call returns, or goes on at no higher a rank, which its own atomic operations
lower. -/
theorem step_progress (h : step w a = some w') (hworker : w.worker = some call)
    (hk : w'.mem.clears call.target ≤ k) :
    call.Returned w'.mem ∨ ∃ old, w'.worker = some { call with old := old } ∧
      w'.rank k ≤ w.rank k ∧ (a = .work → w'.rank k < w.rank k) := by
  rcases step_cases h with ⟨target, value, hidle, -⟩ | ⟨call', hcall', hop⟩ | ⟨hne, hsame, hother⟩
  · rw [hworker] at hidle
    cases hidle
  · obtain rfl : call = call' := Option.some.inj (hworker.symm.trans hcall')
    have hadvances : call.Returned w'.mem ∨ Advances k w w' call := by
      rcases hop with ⟨hold, rfl⟩ | ⟨old, hold, rfl⟩
      · exact load_advances hworker hold
      · exact cas_advances hworker hold
    refine hadvances.imp_right ?_
    rintro ⟨old, hnext, hlt⟩
    exact ⟨old, hnext, hlt.le, fun _ => hlt⟩
  · refine .inr ⟨call.old, hsame.trans hworker, rank_le hworker hsame hk ?_, fun ha => absurd ha hne⟩
    rcases hother with ⟨c, access, hmem⟩ | ⟨-, hkeeps⟩
    · rw [hmem]
      exact access_clears access call.target
    · obtain ⟨hdone, hcounter⟩ := hkeeps call.target
      exact .inl ⟨hcounter, by rw [Memory.clears, hdone, Memory.clears]⟩

theorem atomicMaxU32_returns {run : ℕ → World} {label : ℕ → Action}
    (hrun : ∀ n, step (run n) (label n) = some (run (n + 1)))
    (hclears : ∀ n, (run n).mem.clears call.target ≤ k)
    (hfair : ∀ n, (run n).worker ≠ none → ∃ i ≥ n, label i = .work)
    {n : ℕ} (hworker : (run n).worker = some call) : ∃ i ≥ n, call.Returned (run i).mem := by
  refine eventually_of_rank (fun i => ∃ old, (run i).worker = some { call with old := old })
    (fun i => label i = .work) (fun i => (run i).rank k) ?_ ?_ ⟨call.old, hworker⟩
  · rintro i ⟨old, hcall⟩
    refine (step_progress (hrun i) hcall (hclears (i + 1))).imp_right ?_
    rintro ⟨old', hnext, hrank⟩
    exact ⟨⟨old', hnext⟩, hrank⟩
  · rintro i ⟨old, hcall⟩
    exact hfair i (by simp [hcall])

/-- In every interleaving some order of the operations completed on a maximum keeps to
real time and explains every get. In every infinite run with finitely many clears
whose worker is scheduled while a call is in progress, every call returns. -/
theorem dvfs_maxima_linearizable (m : Maximum) :
    (∀ actions w, exec step .start actions = some w →
      ∃ order, Linearizes Legal (w.mem.done (.maximum m)) order) ∧
    ∀ (run : ℕ → World) (label : ℕ → Action),
      (∀ n, step (run n) (label n) = some (run (n + 1))) →
      (∃ k, ∀ n, (run n).mem.clears m ≤ k) →
      (∀ n, (run n).worker ≠ none → ∃ i ≥ n, label i = .work) →
      ∀ n call, (run n).worker = some call → call.target = m →
        ∃ i ≥ n, call.Returned (run i).mem := by
  constructor
  · intro actions w hexec
    have hinv : Inv w := exec_invariant (fun _ _ _ hi hs => step_inv hi hs) start_inv hexec
    exact ⟨_, (hinv.tracks m).linearizes⟩
  · rintro run label hrun ⟨k, hk⟩ hfair n call hworker rfl
    exact atomicMaxU32_returns hrun hk hfair hworker

/-- The second call is cleared between its read and its swap. -/
def racedActions : List Action :=
  [.call .passUs 7, .work, .call .passUs 9, .message 0 (.clear 4), .handler 0, .work, .work,
    .work, .message 1 (.get 2), .handler 1]

/-- One call, and then refused messages for ever. -/
def quietRun : ℕ → World
  | 0 => .start
  | 1 => World.load .start ⟨.passUs, 5, 0, none⟩
  | _ + 2 => (World.load .start ⟨.passUs, 5, 0, none⟩).cas ⟨.passUs, 5, 0, some 0⟩ 0

def quietLabel : ℕ → Action
  | 0 => .call .passUs 5
  | 1 => .work
  | _ + 2 => .message 0 (.freeze 0)

theorem quietRun_step (n : ℕ) : step (quietRun n) (quietLabel n) = some (quietRun (n + 1)) := by
  rcases n with _ | _ | n
  · rfl
  · rfl
  · exact congrArg some (congrArg (World.mk _ _) (Function.update_eq_self 0 _))

theorem quietRun_fair (n : ℕ) (h : (quietRun n).worker ≠ none) : ∃ i ≥ n, quietLabel i = .work := by
  rcases n with _ | _ | n
  · exact absurd rfl h
  · exact ⟨1, le_rfl, rfl⟩
  · exact absurd rfl h

theorem dvfs_maxima_linearizable_raced :
    ((exec step .start racedActions).map fun w =>
      (w.mem.done (.maximum .passUs)).map Completed.op) =
        some [.max 7, .clear, .max 9, .get 9] ∧
    (∀ w, exec step .start racedActions = some w →
      ∃ order, Linearizes Legal (w.mem.done (.maximum .passUs)) order) ∧
    ∃ i ≥ 1, Call.Returned (quietRun i).mem ⟨.passUs, 5, 0, some 0⟩ := by
  refine ⟨by decide, (dvfs_maxima_linearizable .passUs).1 racedActions, ?_⟩
  refine (dvfs_maxima_linearizable .passUs).2 quietRun quietLabel quietRun_step ⟨0, ?_⟩
    quietRun_fair 1 _ rfl rfl
  intro n
  rcases n with _ | _ | n <;> exact le_rfl

end SystemFirmware.Dvfs.Counters
