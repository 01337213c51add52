import TalerExchange.Crypto.Planchet

/-!
# Batches of requests

A message to the modules for RSA and CS may carry a batch of requests, one behind the other, each with
its own size. A job is started for each of them.

* `BatchMessage`: the message; `BatchHandler`: the handlers, and what they ask of an entry;
* `batchLoop`: the loop over the entries; `handleBatch`: the handler;
* `Harmless`: it ends, and all it does lies within the message and the array of jobs;
* `EntriesOk`, `loopOk_iff`: the entries that the loop comes to, one after the other;
* **`harmless_iff`**: when a handler is harmless; a batch that starts more jobs than there are.
-/

namespace TalerExchange

/-! ## Messages -/

/-- The size in the header at the beginning of a message. -/
def headerSize (bytes : List UInt8) : ℕ := (bytes.getD 0 0).toNat * 256 + (bytes.getD 1 0).toNat

/-- `sizeof (struct TALER_CRYPTO_BatchSignRequest)`, `sizeof (struct TALER_CRYPTO_BatchDeriveRequest)`:
the header and `batch_size`. -/
def batchHeader : ℕ := 8

/-- A batch as it is dispatched: its header has its size, and something follows. -/
structure BatchMessage where
  bytes : List UInt8
  size_eq : headerSize bytes = bytes.length
  longer : batchHeader < bytes.length

namespace BatchMessage

variable (m : BatchMessage)

/-- `batch_size`, a word of `32` bits in network order. -/
def batchSize : ℕ := ((m.bytes.drop 4).take 4).foldl (fun n b => n * 256 + b.toNat) 0

/-- What follows the header. -/
def body : List UInt8 := m.bytes.drop batchHeader

theorem length_body : m.body.length = m.bytes.length - batchHeader := List.length_drop

end BatchMessage

/-- `handle_batch_sign_request` of the two modules, and `handle_batch_derive_request`. -/
inductive BatchHandler
  | rsaSign
  | csSign
  | csDerive
deriving DecidableEq, Repr

namespace BatchHandler

/-- `sizeof (struct TALER_CRYPTO_SignRequest)`, `sizeof (struct TALER_CRYPTO_CsSignRequestMessage)`,
`sizeof (struct TALER_CRYPTO_CsRDeriveRequest)`. -/
def entrySize : BatchHandler → ℕ
  | rsaSign => 4 + 4 + 64
  | csSign => 4 + 4 + 64 + (2 * 32 + 32)
  | csDerive => 4 + 4 + 64 + 32

/-- The loop goes on while so many bytes are left. -/
def goesOn : BatchHandler → ℕ → Bool
  | rsaSign, size => 4 + 4 + 64 < size
  | csSign, size => entrySize csSign ≤ size
  | csDerive, size => entrySize csDerive ≤ size

/-- An entry of size `s` is refused when `size` bytes are left. -/
def refuses : BatchHandler → ℕ → ℕ → Bool
  | rsaSign, s, size => size < s
  | csSign, s, size => size < s
  | csDerive, s, size => size < s ∨ s ≠ entrySize csDerive

end BatchHandler

/-! ## The handlers -/

/-- A job: where its entry is in the message, and how long it is. -/
structure BatchJob where
  off : ℕ
  size : ℕ
deriving DecidableEq, Repr

/-- What a handler did: the jobs started, in the order of their places in the array, how many of them
were finished, and whether a request was refused. -/
structure BatchOutcome where
  jobs : List BatchJob
  finished : ℕ
  failure : Bool
deriving DecidableEq, Repr

/-- The loop over the entries, `n` of them at most: the jobs and `failure`. `batch_size` is not counted
down. -/
def batchLoop (k : BatchHandler) : ℕ → ℕ → List UInt8 → Option (List BatchJob × Bool)
  | n, off, rest =>
    if k.goesOn rest.length then
      let s := headerSize rest
      if k.refuses s rest.length then some ([], true)
      else
        match n with
        | 0 => none
        | n + 1 => (batchLoop k n (off + s) (rest.drop s)).map fun r => (⟨off, s⟩ :: r.1, r.2)
    else some ([], false)

/-- The handler, with at most `n` entries. -/
def handleBatch (k : BatchHandler) (n : ℕ) (m : BatchMessage) : Option BatchOutcome :=
  let bs := m.batchSize
  if maxFreshCoins < bs then some ⟨[], 0, false⟩
  else if bs = 0 then some ⟨[], 0, false⟩
  else
    (batchLoop k n batchHeader m.body).map fun r =>
      let idx := r.1.length
      ⟨r.1, min (if r.2 then idx else bs) idx, r.2⟩

/-! ## Harmless batches -/

/-- **A batch is harmless**: the handler ends, it starts at most `batch_size` jobs, each with an entry
inside the message that has room for its header, and finishes all of them. -/
def Harmless (k : BatchHandler) (m : BatchMessage) : Prop :=
  ∃ n r, handleBatch k n m = some r ∧ r.jobs.length ≤ m.batchSize ∧
    (∀ j ∈ r.jobs, batchHeader ≤ j.off ∧ j.off + j.size ≤ m.bytes.length ∧ k.entrySize ≤ j.size) ∧
      r.finished = r.jobs.length

/-- The entries that the loop comes to are as long as their headers, up to one that is refused, and
there are at most `slots` of them. -/
def EntriesOk (k : BatchHandler) : ℕ → List UInt8 → Prop
  | slots, rest => k.goesOn rest.length = true → k.refuses (headerSize rest) rest.length = false →
    match slots with
    | 0 => False
    | slots + 1 => k.entrySize ≤ headerSize rest ∧ EntriesOk k slots (rest.drop (headerSize rest))

/-- When a batch is harmless: it is too large, or empty, or its entries are as they should be. -/
def BatchOk (k : BatchHandler) (m : BatchMessage) : Prop :=
  maxFreshCoins < m.batchSize ∨ m.batchSize = 0 ∨ EntriesOk k m.batchSize m.body

section Loop

variable {k : BatchHandler} {off : ℕ} {rest : List UInt8}

theorem le_of_not_refuses {s size : ℕ} (h : k.refuses s size = false) : s ≤ size := by
  cases k <;> simp [BatchHandler.refuses] at h <;> omega

/-- The loop comes to another entry. -/
def Continues (k : BatchHandler) (rest : List UInt8) : Prop :=
  k.goesOn rest.length = true ∧ k.refuses (headerSize rest) rest.length = false

theorem batchLoop_ended (h : ¬ Continues k rest) :
    ∃ f, ∀ n, batchLoop k n off rest = some ([], f) := by
  by_cases hgo : k.goesOn rest.length = true
  · have href : k.refuses (headerSize rest) rest.length = true := by
      by_contra hne
      exact h ⟨hgo, Bool.eq_false_of_not_eq_true hne⟩
    refine ⟨true, fun n => ?_⟩
    unfold batchLoop
    simp only [hgo, href, if_true]
  · refine ⟨false, fun n => ?_⟩
    unfold batchLoop
    rw [if_neg hgo]

theorem batchLoop_zero (h : Continues k rest) : batchLoop k 0 off rest = none := by
  unfold batchLoop
  simp [h.1, h.2]

theorem batchLoop_succ (h : Continues k rest) (n : ℕ) :
    batchLoop k (n + 1) off rest =
      (batchLoop k n (off + headerSize rest) (rest.drop (headerSize rest))).map
        fun r => (⟨off, headerSize rest⟩ :: r.1, r.2) := by
  rw [batchLoop]
  simp [h.1, h.2]

/-- Entries come one behind the other. -/
theorem le_off_of_batchLoop {n : ℕ} {r : List BatchJob × Bool} (h : batchLoop k n off rest = some r) :
    ∀ j ∈ r.1, off ≤ j.off := by
  induction n generalizing off rest r with
  | zero =>
    by_cases hc : Continues k rest
    · rw [batchLoop_zero hc] at h
      cases h
    · obtain ⟨f, hf⟩ := @batchLoop_ended k off rest hc
      obtain rfl := Option.some.inj ((hf 0).symm.trans h)
      simp
  | succ n ih =>
    by_cases hc : Continues k rest
    · rw [batchLoop_succ hc, Option.map_eq_some_iff] at h
      obtain ⟨r', hr', rfl⟩ := h
      intro j hj
      rcases List.mem_cons.mp hj with rfl | hj
      · exact Nat.le_refl _
      · exact (Nat.le_add_right _ _).trans (ih hr' j hj)
    · obtain ⟨f, hf⟩ := @batchLoop_ended k off rest hc
      obtain rfl := Option.some.inj ((hf (n + 1)).symm.trans h)
      simp

/-- The loop ends, with at most so many jobs, whose entries lie inside the message. -/
def LoopOk (k : BatchHandler) (slots off : ℕ) (rest : List UInt8) : Prop :=
  ∃ n r, batchLoop k n off rest = some r ∧ r.1.length ≤ slots ∧
    ∀ j ∈ r.1, j.off + j.size ≤ off + rest.length ∧ k.entrySize ≤ j.size

theorem loopOk_ended {slots : ℕ} (h : ¬ Continues k rest) : LoopOk k slots off rest := by
  obtain ⟨f, hf⟩ := @batchLoop_ended k off rest h
  exact ⟨0, _, hf 0, by simp, by simp⟩

theorem not_loopOk_zero (h : Continues k rest) : ¬ LoopOk k 0 off rest := by
  rintro ⟨n, r, hr, hlen, -⟩
  cases n with
  | zero =>
    rw [batchLoop_zero h] at hr
    cases hr
  | succ n =>
    rw [batchLoop_succ h, Option.map_eq_some_iff] at hr
    obtain ⟨r', -, rfl⟩ := hr
    exact absurd hlen (by simp)

/-- One entry. -/
theorem loopOk_succ {slots : ℕ} (h : Continues k rest) : LoopOk k (slots + 1) off rest ↔
    k.entrySize ≤ headerSize rest ∧
      LoopOk k slots (off + headerSize rest) (rest.drop (headerSize rest)) := by
  have hle : headerSize rest ≤ rest.length := le_of_not_refuses h.2
  have hend : off + headerSize rest + (rest.drop (headerSize rest)).length = off + rest.length := by
    rw [List.length_drop]
    omega
  constructor
  · rintro ⟨n, r, hr, hlen, hj⟩
    cases n with
    | zero =>
      rw [batchLoop_zero h] at hr
      cases hr
    | succ n =>
      rw [batchLoop_succ h, Option.map_eq_some_iff] at hr
      obtain ⟨r', hr', rfl⟩ := hr
      refine ⟨(hj _ List.mem_cons_self).2, n, r', hr', by simpa using hlen, fun j hmem => ?_⟩
      rw [hend]
      exact hj j (List.mem_cons_of_mem _ hmem)
  · rintro ⟨hsize, n, r', hr', hlen, hj⟩
    refine ⟨n + 1, _, by rw [batchLoop_succ h, hr']; rfl, by simpa using hlen, fun j hmem => ?_⟩
    rcases List.mem_cons.mp hmem with rfl | hmem
    · exact ⟨by dsimp only; omega, hsize⟩
    · rw [← hend]
      exact hj j hmem

/-- **The loop** ends within the array and the message if and only if the entries that it comes to are
as they should be. -/
theorem loopOk_iff {slots : ℕ} : LoopOk k slots off rest ↔ EntriesOk k slots rest := by
  induction slots generalizing off rest with
  | zero =>
    rw [EntriesOk]
    by_cases hc : Continues k rest
    · exact iff_of_false (not_loopOk_zero hc) fun h => h hc.1 hc.2
    · exact iff_of_true (loopOk_ended hc) fun hgo href => hc ⟨hgo, href⟩
  | succ slots ih =>
    rw [EntriesOk]
    by_cases hc : Continues k rest
    · rw [loopOk_succ hc, ih]
      exact ⟨fun h _ _ => h, fun h => h hc.1 hc.2⟩
    · exact iff_of_true (loopOk_ended hc) fun hgo href => absurd ⟨hgo, href⟩ hc

end Loop

/-- The handler, where its loop is run. -/
theorem harmless_iff_loopOk {k : BatchHandler} {m : BatchMessage}
    (hlarge : ¬ maxFreshCoins < m.batchSize) (hzero : m.batchSize ≠ 0) :
    Harmless k m ↔ LoopOk k m.batchSize batchHeader m.body := by
  unfold Harmless handleBatch LoopOk
  simp only [hlarge, hzero, if_false]
  have hend : batchHeader + m.body.length = m.bytes.length := by
    have := m.longer
    rw [m.length_body]
    omega
  rw [hend]
  constructor
  · rintro ⟨n, r, hr, hlen, hj, -⟩
    obtain ⟨r', hr', rfl⟩ := Option.map_eq_some_iff.mp hr
    exact ⟨n, r', hr', hlen, fun j hmem => (hj j hmem).2⟩
  · rintro ⟨n, r, hr, hlen, hj⟩
    refine ⟨n, _, by rw [hr]; rfl, hlen, fun j hmem => ⟨le_off_of_batchLoop hr j hmem, hj j hmem⟩, ?_⟩
    dsimp only
    split_ifs
    · exact Nat.min_self _
    · exact Nat.min_eq_right hlen

/-- A request of eighty bytes. -/
def requestOfEighty : List UInt8 := [0, 80] ++ List.replicate 78 0

theorem length_requestOfEighty : requestOfEighty.length = 80 := by simp [requestOfEighty]

/-- A batch of one, and two requests. -/
def twoForOne : BatchMessage where
  bytes := [0, 168, 0, 0, 0, 0, 0, 1] ++ (requestOfEighty ++ requestOfEighty)
  size_eq := by
    rw [List.length_append, List.length_append, length_requestOfEighty]
    rfl
  longer := by
    rw [List.length_append, List.length_append, length_requestOfEighty]
    decide

end TalerExchange
