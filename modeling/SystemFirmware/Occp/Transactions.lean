import SystemFirmware.Occp.Definitions

/-!
# Open Chiplet Configuration Protocol — transactions and reads

A transaction is an attempt that is repeated while it fails. The parameter of
`occp_run_transaction` is the number of retries, but the loop lowers its counter before the
condition of the same round reads it, so that the last retry is never made
(`occpRunTransaction_retries`).
-/

namespace SystemFirmware.Occp

open Lib

section

variable {σ : Type} {backend : Backend σ} {cmd : List UInt8} {responseLen : ℕ} {s : Session σ}

/-- The results `occp_run_transaction` retries after. -/
def Failed (result : ℤ × List UInt8) : Prop := result.1 ≠ 0

instance : DecidablePred Failed := fun result => inferInstanceAs (Decidable (result.1 ≠ 0))

-- ---
-- One attempt

theorem occpTxRx_sent : (occpTxRx backend cmd responseLen s).2.sent = s.sent ++ [cmd] := by
  unfold occpTxRx
  dsimp only
  split_ifs <;> rfl

theorem occpTxRx_asked (backend : Backend σ) (cmd : List UInt8) (responseLen : ℕ)
    (s : Session σ) : (occpTxRx backend cmd responseLen s).2.asked = s.asked ∨
      (occpTxRx backend cmd responseLen s).2.asked = s.asked ++ [responseLen] := by
  unfold occpTxRx
  dsimp only
  split_ifs
  · exact .inl rfl
  all_goals exact .inr rfl

-- ---
-- Retries

theorem occpRunTransaction_eq_retry {retryCnt : ℕ} :
    occpRunTransaction backend retryCnt cmd responseLen s =
      retry (occpTxRx backend cmd responseLen) Failed (retryCnt - 1) s := by
  induction retryCnt generalizing s with
  | zero => rfl
  | succ n ih =>
    rcases n with _ | n
    · simp [occpRunTransaction, retry]
    · rw [occpRunTransaction, Nat.add_sub_cancel, retry]
      dsimp only
      by_cases hfailed : Failed (occpTxRx backend cmd responseLen s).1
      · rw [if_pos (c := Failed _) hfailed, if_pos ⟨hfailed, Nat.succ_pos n⟩]
        exact ih
      · rw [if_neg (c := Failed _) hfailed, if_neg (fun h => hfailed h.1)]

theorem afterAttempts_sent {k : ℕ} :
    (afterAttempts (occpTxRx backend cmd responseLen) k s).sent =
      s.sent ++ List.replicate k cmd := by
  induction k generalizing s with
  | zero => simp [afterAttempts]
  | succ k ih =>
    rw [afterAttempts, ih, occpTxRx_sent, List.append_assoc, List.replicate_succ,
      List.singleton_append]

end

/-- **When retries are made as documented.** A transaction stops at the first success, or makes one
attempt and `retryCnt` retries and returns what the last of them returned, exactly if no retry is
asked for or one of the first `retryCnt` attempts succeeds: the attempt that is left out is the
last one. -/
theorem occpRunTransaction_retries {σ : Type} {backend : Backend σ} {cmd : List UInt8}
    {responseLen retryCnt : ℕ} {s : Session σ} :
    (∃ m ≤ retryCnt,
      (occpRunTransaction backend retryCnt cmd responseLen s).1 =
        nthResult (occpTxRx backend cmd responseLen) m s ∧
      (occpRunTransaction backend retryCnt cmd responseLen s).2.sent =
        s.sent ++ List.replicate (1 + m) cmd ∧
      (∀ j < m, (nthResult (occpTxRx backend cmd responseLen) j s).1 ≠ 0) ∧
      ((nthResult (occpTxRx backend cmd responseLen) m s).1 = 0 ∨ m = retryCnt)) ↔
    retryCnt = 0 ∨
      ∃ j < retryCnt, (nthResult (occpTxRx backend cmd responseLen) j s).1 = 0 := by
  obtain ⟨m, hm, hretry, hbefore, hlast⟩ :=
    retry_spec (occpTxRx backend cmd responseLen) Failed (retryCnt - 1) s
  have hsent : (occpRunTransaction backend retryCnt cmd responseLen s).2.sent =
      s.sent ++ List.replicate (m + 1) cmd := by
    rw [occpRunTransaction_eq_retry, hretry]
    exact afterAttempts_sent
  constructor
  · rintro ⟨m', -, -, hsent', -, hend⟩
    -- the number of attempts is that of the commands sent
    have hsame : m' = m := by
      have hlength := congrArg List.length (hsent'.symm.trans hsent)
      simp only [List.length_append, List.length_replicate] at hlength
      omega
    subst hsame
    rcases Nat.eq_zero_or_pos retryCnt with hzero | hpos
    · exact .inl hzero
    · exact .inr ⟨m', by omega, hend.resolve_right (by omega)⟩
  · intro h
    refine ⟨m, by omega, ?_, by rw [hsent, Nat.add_comm], hbefore, ?_⟩
    · rw [occpRunTransaction_eq_retry, hretry]
    · by_contra hnot
      obtain ⟨hfailed, hm'⟩ := not_or.mp hnot
      -- the attempts are used up, so none of those before the last one succeeded
      have hall := hlast hfailed
      rcases h with hzero | ⟨j, hj, hsuccess⟩
      · omega
      · rcases Nat.lt_or_eq_of_le (show j ≤ m by omega) with hlt | rfl
        · exact hbefore j hlt hsuccess
        · exact hfailed hsuccess

/-- A target that takes every command, and what `receive` returns for each, at the end 0. -/
def scripted : Backend (List ℤ) where
  send := fun target _ => (0, target)
  receive := fun target len => (target.headD 0, List.replicate len 0, target.tail)

/-- With one retry allowed, none is made, though the second attempt would succeed. -/
theorem occpRunTransaction_missing_retry :
    (occpRunTransaction scripted 1 [] headerSize ⟨[-5], [], []⟩).1.1 = -5 ∧
      (occpRunTransaction scripted 1 [] headerSize ⟨[-5], [], []⟩).2.sent.length = 1 ∧
      (nthResult (occpTxRx scripted [] headerSize) 1 ⟨[-5], [], []⟩).1 = 0 := by
  decide

-- ---
-- Reads

section

variable {σ : Type} {backend : Backend σ} {s s' s'' : Session σ} {n : ℕ}

/-- Between two states of a session, `receive` was asked for at most `n` bytes at a time. -/
def AsksWithin (n : ℕ) (s s' : Session σ) : Prop :=
  ∃ new, s'.asked = s.asked ++ new ∧ ∀ len ∈ new, len ≤ n

theorem AsksWithin.refl : AsksWithin n s s := ⟨[], by simp, by simp⟩

theorem AsksWithin.trans (h : AsksWithin n s s') (h' : AsksWithin n s' s'') :
    AsksWithin n s s'' := by
  obtain ⟨new, hnew, hle⟩ := h
  obtain ⟨more, hmore, hle'⟩ := h'
  refine ⟨new ++ more, by rw [hmore, hnew, List.append_assoc], ?_⟩
  intro len hlen
  rcases List.mem_append.mp hlen with hmem | hmem
  · exact hle len hmem
  · exact hle' len hmem

theorem occpRunTransaction_asks {responseLen : ℕ} (retryCnt : ℕ) (cmd : List UInt8)
    (s : Session σ) (h : responseLen ≤ n) :
    AsksWithin n s (occpRunTransaction backend retryCnt cmd responseLen s).2 := by
  rw [occpRunTransaction_eq_retry]
  refine retry_rule _ _ (P := AsksWithin n s) (Q := fun _ t => AsksWithin n s t) ?_ ?_ .refl
  · intro t ht
    refine ht.trans ?_
    rcases occpTxRx_asked backend cmd responseLen t with hasked | hasked
    · exact ⟨[], by simp [hasked], by simp⟩
    · exact ⟨[responseLen], hasked, by simpa using h⟩
  · intro r t _ ht
    exact ht

theorem readLoop_asks {crc8 : Crc8} {retryCount : UInt8} {fuel length : ℕ} {req : DataRequest}
    {addr : UInt64} {data : List UInt8} (h : length ≤ 240) (haligned : 4 ∣ length)
    (hfuel : length < fuel) :
    ∃ r s', readLoop backend crc8 retryCount fuel req addr length data s = some (r, s') ∧
      AsksWithin maxMsgSize s s' := by
  induction fuel generalizing length req addr data s with
  | zero => omega
  | succ fuel ih =>
    rw [readLoop]
    by_cases hpos : length > 0
    · rw [if_pos hpos]
      -- one message takes all that is left
      have hchunk : min length maxMsgSize / 4 * 4 = length := by
        unfold maxMsgSize
        omega
      dsimp only
      rw [hchunk]
      have hlen : headerSize + length + (if length > 13 then 4 else 1) ≤ maxMsgSize := by
        unfold headerSize maxMsgSize
        split <;> omega
      generalize headerSize + length + (if length > 13 then 4 else 1) = responseLen at hlen ⊢
      have hasks := @occpRunTransaction_asks σ backend _ _ retryCount.toNat
        (req.fill crc8 baseMsgReadData (dataRequestSize - headerSize) addr length).bytes s hlen
      split
      · exact ⟨_, _, rfl, hasks⟩
      · obtain ⟨r, s', hread, hrest⟩ := ih (show length - length ≤ 240 by omega) (by simp) (by omega)
        exact ⟨r, s', hread, hasks.trans hrest⟩
    · rw [if_neg hpos]
      exact ⟨_, s, rfl, .refl⟩

end

/-- A target that takes every command and never answers. -/
def deaf : Backend Unit where
  send := fun _ _ => (0, ())
  receive := fun _ _ => (-5, [], ())

theorem deaf_asked {retryCnt responseLen : ℕ} {cmd : List UInt8} {s : Session Unit} :
    (occpRunTransaction deaf retryCnt cmd responseLen s).1.1 ≠ 0 ∧
      responseLen ∈ (occpRunTransaction deaf retryCnt cmd responseLen s).2.asked := by
  induction retryCnt generalizing s with
  | zero => simp [occpRunTransaction, occpTxRx, deaf]
  | succ n ih =>
    rw [occpRunTransaction]
    dsimp only
    split
    · exact ih
    · simp [occpTxRx, deaf]

/-- **When reads stay in the message buffer.** With every backend a read returns and never asks for
more than the message buffer holds, exactly if it is of at most 240 bytes. -/
theorem occpReadData_asks {crc8 : Crc8} {retryCount : UInt8} {fuel length : ℕ} {address : UInt64}
    (haddress : address % 4 = 0) (hlength : length % 4 = 0) (hfuel : length < fuel) :
    (∀ (σ : Type) (backend : Backend σ) (s : Session σ), ∃ r s',
      occpReadData backend crc8 retryCount fuel address length s = some (r, s') ∧
        AsksWithin maxMsgSize s s') ↔ length ≤ 240 := by
  simp only [occpReadData, haddress, hlength, ne_eq, not_true_eq_false, if_false]
  constructor
  · intro hasks
    by_contra hlong
    obtain ⟨r, s', hread, new, hnew, hwithin⟩ := hasks Unit deaf ⟨(), [], []⟩
    obtain ⟨fuel, rfl⟩ := Nat.exists_eq_succ_of_ne_zero (Nat.ne_of_gt (Nat.zero_lt_of_lt hfuel))
    rw [readLoop, if_pos (show length > 0 by omega)] at hread
    dsimp only at hread
    rw [if_pos deaf_asked.1] at hread
    cases hread
    -- the first chunk is of 244 or 252 bytes, and 12 bytes come on top of it
    have hasked := hwithin _ (hnew ▸ deaf_asked.2)
    unfold headerSize maxMsgSize at hasked
    split at hasked <;> omega
  · intro h σ backend s
    exact readLoop_asks h (Nat.dvd_of_mod_eq_zero hlength) hfuel

theorem occpReadData_asks_scripted : ∃ r s',
    occpReadData scripted (fun _ _ _ _ => 0) 10 241 0 240 ⟨[], [], []⟩ = some (r, s') ∧
      AsksWithin maxMsgSize ⟨[], [], []⟩ s' :=
  (occpReadData_asks rfl rfl (by decide)).mpr (by decide) _ _ _

/-- The next longer read: its only message is longer than the buffer. -/
theorem occpReadData_overruns :
    (occpReadData scripted (fun _ _ _ _ => 0) 10 2 0 244 ⟨[], [], []⟩).map (·.2.asked) =
      some [256] ∧ maxMsgSize < 256 := by
  decide

end SystemFirmware.Occp
