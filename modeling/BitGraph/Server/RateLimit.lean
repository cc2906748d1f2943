import BitGraph.Js.ToNumber
import BitGraph.Lib.Metered
import BitGraph.Lib.OrderedMap
import BitGraph.Lib.Since

/-!
The rate limits of the commit service.

* **Code.** `tryConsumeDigests` counts the digests of `POST /commit`, `AllocationLimiter.tryConsume` the
  slots of `POST /allocate-slot`. Both are `consume`: a token bucket for every address and one window
  for all of them. Times are in milliseconds, rates are exact rationals.
* **One request.** `consume_cases` says all that a request can do; `tokensAt_next`, `used_next` and
  `answer_congr` follow from it.
* **Runs.** `RunHolds` is what the limits are for. `tokensAt` is the level of a `Metered.Level` and the
  window a `Metered.Window`: an address never exceeds its bucket, and the window holds over every
  interval of its length in the runs where `Settled` says that no restart cuts one short.
-/

namespace BitGraph.RateLimit

open Js Metered

def DAY_MS : ℚ := 24 * 60 * 60 * 1000

def MAX_TRACKED_IPS : ℕ := 10000

/-! ### One limiter -/

structure Bucket where
  tokens : ℚ
  lastRefillMs : ℚ
  deriving DecidableEq

/-- A refusal says after how many seconds to come back; `none` is `Infinity`. -/
inductive RateLimitResult where
  | ok
  | refused (retryAfterSec : Option ℤ) (reason : Str)
  deriving DecidableEq

/-- A request of an address for a number of tokens. -/
structure Request where
  ip : Str
  count : ℕ
  nowMs : ℚ

/-- What a limiter allows, and how it refuses. -/
structure Rule where
  perIpCapacity : ℚ
  perIpRefillPerMin : ℚ
  globalLimit : ℚ
  windowMs : ℚ
  tooLarge : ℕ → Option Str
  globalReason : Str
  ipReason : Str
  /-- The hint of a refusal, from the seconds it would take. -/
  hint : Option ℤ → Option ℤ

/-- The counters of a limiter. `windowStartMs` is `none` before the first request of a limiter
that waits for one. -/
structure Limiter where
  buckets : OrderedMap Str Bucket
  keyed : buckets.Keyed
  used : ℕ
  windowStartMs : Option ℚ

/-- The counters at the start. -/
def Limiter.fresh (windowStartMs : Option ℚ) : Limiter := ⟨[], OrderedMap.keyed_nil, 0, windowStartMs⟩

/-- The tokens of a bucket with what has come since, the capacity aside. -/
def Bucket.refilled (R : Rule) (b : Bucket) (nowMs : ℚ) : ℚ :=
  b.tokens + (nowMs - b.lastRefillMs) / 60000 * R.perIpRefillPerMin

/-- Drop buckets that have fully refilled. -/
def pruneBuckets (R : Rule) (nowMs : ℚ) (m : OrderedMap Str Bucket) : OrderedMap Str Bucket :=
  m.filter fun e => ¬ R.perIpCapacity ≤ e.2.refilled R nowMs

lemma keyed_pruneBuckets {R : Rule} {nowMs : ℚ} {m : OrderedMap Str Bucket} (h : m.Keyed) :
    (pruneBuckets R nowMs m).Keyed :=
  h.sublist (List.filter_sublist.map _)

namespace Limiter

/-- The window has fully elapsed, or there was none yet. -/
def elapsed (R : Rule) (L : Limiter) (nowMs : ℚ) : Bool :=
  match L.windowStartMs with
  | none => true
  | some start => R.windowMs ≤ nowMs - start

/-- The global window, restarted where it has elapsed. -/
def openWindow (R : Rule) (L : Limiter) (nowMs : ℚ) : Limiter :=
  if L.elapsed R nowMs then { L with windowStartMs := some nowMs, used := 0 } else L

/-- The bucket of an address, refilled: a new one is full. -/
def bucketFor (R : Rule) (L : Limiter) (ip : Str) (nowMs : ℚ) : Bucket :=
  match L.buckets.get ip with
  | none => { tokens := R.perIpCapacity, lastRefillMs := nowMs }
  | some b => { tokens := min R.perIpCapacity (b.refilled R nowMs), lastRefillMs := nowMs }

/-- Write a bucket. A new one in a full map prunes the others first, where pruning is on. -/
def keep (R : Rule) (pruning : Bool) (L : Limiter) (ip : Str) (b : Bucket) : Limiter :=
  { L with
    buckets :=
      if pruning ∧ L.buckets.get ip = none ∧ MAX_TRACKED_IPS ≤ L.buckets.length then
        (pruneBuckets R b.lastRefillMs L.buckets).set ip b
      else L.buckets.set ip b
    keyed := by
      split
      · exact (keyed_pruneBuckets L.keyed).set _ _
      · exact L.keyed.set _ _ }

end Limiter

/-- The seconds until a bucket has as much more; without a refill that is never. -/
def secondsFor (R : Rule) (deficit : ℚ) : Option ℤ :=
  if R.perIpRefillPerMin = 0 then none else some ⌈deficit / R.perIpRefillPerMin * 60⌉

/-- Consume the tokens of a request, all or none. -/
def consume (R : Rule) (pruning : Bool) (L : Limiter) (r : Request) : RateLimitResult × Limiter :=
  match R.tooLarge r.count with
  | some reason => (.refused (some 0) reason, L)
  | none =>
    let W := L.openWindow R r.nowMs
    if R.globalLimit < W.used + r.count then
      let start := W.windowStartMs.getD r.nowMs
      (.refused (R.hint (some ⌈(start + R.windowMs - r.nowMs) / 1000⌉)) R.globalReason, W)
    else
      let bucket := W.bucketFor R r.ip r.nowMs
      if bucket.tokens < r.count then
        (.refused (R.hint (secondsFor R (r.count - bucket.tokens))) R.ipReason,
          W.keep R pruning r.ip bucket)
      else
        let K := W.keep R pruning r.ip { bucket with tokens := bucket.tokens - r.count }
        (.ok, { K with used := K.used + r.count })

/-! ### The two limiters -/

/-- The limits of `POST /commit`, as numbers. -/
structure DigestLimits where
  perIpCapacity : Double
  perIpRefillPerMin : Double
  globalPerDay : Double

/-- A limit of the environment: what is no finite number is no limit here. -/
def envNumber (raw : Option Str) (default : ℕ) : Option Double :=
  match raw.elim (Number.ofNat default) stringToNumber with
  | .fin d => some d
  | _ => none

def digestLimits (env : Str → Option Str) : Option DigestLimits := do
  let perIpCapacity ← envNumber (env (js "RL_PER_IP_CAPACITY")) 5000
  let perIpRefillPerMin ← envNumber (env (js "RL_PER_IP_REFILL_PER_MIN")) 20
  let globalPerDay ← envNumber (env (js "RL_GLOBAL_PER_DAY")) 100000
  some { perIpCapacity, perIpRefillPerMin, globalPerDay }

/-- The rule of the digests. -/
def DigestLimits.rule (D : DigestLimits) : Rule where
  perIpCapacity := D.perIpCapacity.val
  perIpRefillPerMin := D.perIpRefillPerMin.val
  globalLimit := D.globalPerDay.val
  windowMs := DAY_MS
  tooLarge count :=
    if D.perIpCapacity.val < count then
      some (js "batch of " ++ decimal count ++ js " digests exceeds the per-client maximum of "
        ++ (Number.fin D.perIpCapacity).toStr ++ js "; split into smaller batches")
    else none
  globalReason := js "global daily proof budget exhausted"
  ipReason := js "per-client proof rate limit exceeded"
  hint := id

/-- Try to consume `digestCount` tokens for `ip`. -/
def tryConsumeDigests (D : DigestLimits) (pruning : Bool) (L : Limiter) (ip : Str) (digestCount : ℕ)
    (nowMs : ℚ) : RateLimitResult × Limiter :=
  consume D.rule pruning L ⟨ip, digestCount, nowMs⟩

/-- A number of the environment that is finite and above zero, else the fallback. -/
def positiveNumber (raw : Option Str) (fallback : {q : ℚ // 0 < q}) : {q : ℚ // 0 < q} :=
  match raw.map stringToNumber with
  | some (.fin d) => if h : 0 < d.val then ⟨d.val, h⟩ else fallback
  | _ => fallback

structure AllocationLimitConfig where
  perIpCapacity : {q : ℚ // 0 < q}
  perIpRefillPerMin : {q : ℚ // 0 < q}
  globalPerWindow : {q : ℚ // 0 < q}
  windowMs : {q : ℚ // 0 < q}

/-- The configuration of an environment. -/
def createAllocationLimiter (env : Str → Option Str) : AllocationLimitConfig where
  perIpCapacity := positiveNumber (env (js "RL_ALLOC_PER_IP_CAPACITY")) ⟨20, by norm_num⟩
  perIpRefillPerMin := positiveNumber (env (js "RL_ALLOC_PER_IP_REFILL_PER_MIN")) ⟨10, by norm_num⟩
  globalPerWindow := positiveNumber (env (js "RL_ALLOC_GLOBAL_PER_WINDOW")) ⟨250, by norm_num⟩
  windowMs := positiveNumber (env (js "RL_ALLOC_WINDOW_MS")) ⟨120000, by norm_num⟩

/-- The rule of the allocations. -/
def AllocationLimitConfig.rule (cfg : AllocationLimitConfig) : Rule where
  perIpCapacity := cfg.perIpCapacity
  perIpRefillPerMin := cfg.perIpRefillPerMin
  globalLimit := cfg.globalPerWindow
  windowMs := cfg.windowMs
  tooLarge _ := none
  globalReason := js "global slot allocation budget exhausted for this window"
  ipReason := js "per-client slot allocation rate limit exceeded"
  hint := Option.map (max 1)

/-- An allocation of an address. -/
structure Allocation where
  ip : Str
  nowMs : ℚ

/-- An allocation is a request for one token. -/
def Allocation.request (a : Allocation) : Request := ⟨a.ip, 1, a.nowMs⟩

/-- Consume one allocation for `ip`. -/
def AllocationLimiter.tryConsume (cfg : AllocationLimitConfig) (pruning : Bool) (L : Limiter) (ip : Str)
    (nowMs : ℚ) : RateLimitResult × Limiter :=
  consume cfg.rule pruning L (Allocation.request ⟨ip, nowMs⟩)

/-! ### One request -/

section Request

variable {R : Rule} {L : Limiter} {r : Request} {p : Bool} {ip : Str}

/-- The tokens of an address at a time. -/
def tokensAt (R : Rule) (L : Limiter) (ip : Str) (t : ℚ) : ℚ := (L.bucketFor R ip t).tokens

/-- The tokens of one millisecond. -/
def Rule.rate (R : Rule) : ℚ := R.perIpRefillPerMin / 60000

/-- The request passes the first check and finds the window elapsed. -/
def restarts (R : Rule) (L : Limiter) (r : Request) : Prop :=
  R.tooLarge r.count = none ∧ L.elapsed R r.nowMs = true

instance : Decidable (restarts R L r) := inferInstanceAs (Decidable (_ ∧ _))

/-- The tokens a request takes. -/
def spent (R : Rule) (L : Limiter) (r : Request) : ℕ :=
  if (consume R true L r).1 = .ok then r.count else 0

lemma openWindow_buckets (t : ℚ) : (L.openWindow R t).buckets = L.buckets := by
  rw [Limiter.openWindow]
  split <;> rfl

lemma bucketFor_openWindow (t : ℚ) : (L.openWindow R t).bucketFor R ip t = L.bucketFor R ip t := by
  rw [Limiter.bucketFor, openWindow_buckets, Limiter.bucketFor]

lemma lastRefillMs_bucketFor (t : ℚ) : (L.bucketFor R ip t).lastRefillMs = t := by
  rw [Limiter.bucketFor]
  split <;> rfl

lemma bucketFor_eq (t : ℚ) : L.bucketFor R ip t = ⟨tokensAt R L ip t, t⟩ :=
  congrArg (Bucket.mk (tokensAt R L ip t)) (lastRefillMs_bucketFor t)

/-- All that a request can do. -/
lemma consume_cases (R : Rule) (p : Bool) (L : Limiter) (r : Request) :
    (∃ reason, R.tooLarge r.count = some reason ∧
      consume R p L r = (.refused (some 0) reason, L)) ∨
    R.tooLarge r.count = none ∧
      ((R.globalLimit < (L.openWindow R r.nowMs).used + r.count ∧
        consume R p L r = (.refused (R.hint (some
          ⌈((L.openWindow R r.nowMs).windowStartMs.getD r.nowMs + R.windowMs - r.nowMs) / 1000⌉))
            R.globalReason, L.openWindow R r.nowMs)) ∨
      (L.openWindow R r.nowMs).used + r.count ≤ R.globalLimit ∧
        ((tokensAt R L r.ip r.nowMs < r.count ∧
          consume R p L r = (.refused (R.hint (secondsFor R (r.count - tokensAt R L r.ip r.nowMs)))
            R.ipReason, (L.openWindow R r.nowMs).keep R p r.ip ⟨tokensAt R L r.ip r.nowMs, r.nowMs⟩)) ∨
        (r.count ≤ tokensAt R L r.ip r.nowMs ∧
          consume R p L r = (.ok,
            { (L.openWindow R r.nowMs).keep R p r.ip
                ⟨tokensAt R L r.ip r.nowMs - r.count, r.nowMs⟩ with
              used := (L.openWindow R r.nowMs).used + r.count })))) := by
  cases hlarge : R.tooLarge r.count with
  | some reason => exact Or.inl ⟨reason, rfl, by rw [consume, hlarge]⟩
  | none =>
      refine Or.inr ⟨rfl, ?_⟩
      rw [consume, hlarge]
      dsimp only
      rw [bucketFor_openWindow, bucketFor_eq]
      rcases lt_or_ge R.globalLimit ((L.openWindow R r.nowMs).used + r.count) with hg | hg
      · exact Or.inl ⟨hg, if_pos hg⟩
      · refine Or.inr ⟨hg, ?_⟩
        rw [if_neg (not_lt.mpr hg)]
        rcases lt_or_ge (tokensAt R L r.ip r.nowMs) r.count with hi | hi
        · exact Or.inl ⟨hi, if_pos hi⟩
        · exact Or.inr ⟨hi, if_neg (not_lt.mpr hi)⟩

lemma tokensAt_eq (R : Rule) (L : Limiter) (ip : Str) (t : ℚ) :
    tokensAt R L ip t = (L.buckets.get ip).elim R.perIpCapacity fun b =>
      refill R.perIpCapacity R.rate b.tokens (t - b.lastRefillMs) := by
  rw [tokensAt, Limiter.bucketFor]
  cases L.buckets.get ip with
  | none => rfl
  | some b =>
      have hrate : (t - b.lastRefillMs) / 60000 * R.perIpRefillPerMin = (t - b.lastRefillMs) * R.rate := by
        rw [Rule.rate]
        ring
      show min R.perIpCapacity (b.refilled R t) = _
      rw [Bucket.refilled, hrate, Option.elim_some, refill]

/-- What a known key's bucket says about a time that has come. -/
structure Bucket.Sound (R : Rule) (t : ℚ) (b : Bucket) : Prop where
  last_le : b.lastRefillMs ≤ t
  nonneg : 0 ≤ b.tokens
  le_cap : b.tokens ≤ R.perIpCapacity

/-- Every bucket is one of this time or of an earlier one. -/
def Known (R : Rule) (L : Limiter) (t : ℚ) : Prop :=
  ∀ ip b, L.buckets.get ip = some b → b.Sound R t

/-- A rule without negative numbers. -/
structure Rule.Nonneg (R : Rule) : Prop where
  capacity : 0 ≤ R.perIpCapacity
  refill : 0 ≤ R.perIpRefillPerMin
  globalLimit : 0 ≤ R.globalLimit

lemma Rule.Nonneg.rate (h : R.Nonneg) : 0 ≤ R.rate := div_nonneg h.refill (by norm_num)

lemma tokensAt_le (R : Rule) (L : Limiter) (ip : Str) (t : ℚ) : tokensAt R L ip t ≤ R.perIpCapacity := by
  rw [tokensAt_eq]
  cases L.buckets.get ip with
  | none => exact le_rfl
  | some b => exact min_le_left _ _

lemma tokensAt_nonneg {t : ℚ} (hR : R.Nonneg) (hL : Known R L t) (ip : Str) : 0 ≤ tokensAt R L ip t := by
  rw [tokensAt_eq]
  cases hb : L.buckets.get ip with
  | none => exact hR.capacity
  | some b =>
      have hs := hL ip b hb
      exact refill_nonneg hR.capacity hR.rate hs.nonneg (sub_nonneg.mpr hs.last_le)

/-- A later look sees what has come since. -/
lemma tokensAt_later {t u : ℚ} (hR : R.Nonneg) (hu : t ≤ u) :
    tokensAt R L ip u = refill R.perIpCapacity R.rate (tokensAt R L ip t) (u - t) := by
  rw [tokensAt_eq, tokensAt_eq]
  cases hb : L.buckets.get ip with
  | none => exact (refill_cap hR.rate (sub_nonneg.mpr hu)).symm
  | some b =>
      rw [Option.elim_some, Option.elim_some, refill_refill hR.rate (sub_nonneg.mpr hu)]
      congr 1
      ring

/-! ### Writing a bucket -/

lemma get_pruneBuckets {t : ℚ} {m : OrderedMap Str Bucket} (hm : m.Keyed) :
    (pruneBuckets R t m).get ip
      = (m.get ip).filter fun b => ¬ R.perIpCapacity ≤ b.refilled R t := by
  have hiff : ∀ b, (pruneBuckets R t m).get ip = some b ↔
      (m.get ip).filter (fun b => ¬ R.perIpCapacity ≤ b.refilled R t) = some b := fun b => by
    rw [← OrderedMap.mem_iff_get (keyed_pruneBuckets hm), Option.filter_eq_some_iff,
      ← OrderedMap.mem_iff_get hm, pruneBuckets, List.mem_filter]
  exact Option.ext fun b => by simpa using hiff b

/-- A bucket that is dropped is full from then on. -/
lemma tokensAt_prune {t u : ℚ} (hR : R.Nonneg) (hu : t ≤ u) (L : Limiter)
    (keyed : (pruneBuckets R t L.buckets).Keyed) :
    tokensAt R { L with buckets := pruneBuckets R t L.buckets, keyed := keyed } ip u
      = tokensAt R L ip u := by
  rw [tokensAt_eq, tokensAt_eq]
  dsimp only
  rw [get_pruneBuckets L.keyed]
  cases L.buckets.get ip with
  | none => rfl
  | some b =>
      by_cases hb : R.perIpCapacity ≤ b.refilled R t
      · have hfull : R.perIpCapacity ≤ b.tokens + (t - b.lastRefillMs) * R.rate := by
          rw [Bucket.refilled] at hb
          rw [Rule.rate]
          have hring : (t - b.lastRefillMs) * (R.perIpRefillPerMin / 60000)
              = (t - b.lastRefillMs) / 60000 * R.perIpRefillPerMin := by ring
          rwa [hring]
        rw [Option.filter_some, if_neg (by simpa using hb), Option.elim_none, Option.elim_some,
          refill_full hR.rate hfull (by linarith)]
      · rw [Option.filter_some, if_pos (by simpa using hb)]

/-- What a written bucket leaves. -/
lemma tokensAt_keep {t u x : ℚ} (hR : R.Nonneg) (hu : t ≤ u) (j : Str) :
    tokensAt R (L.keep R p ip ⟨x, t⟩) j u
      = if ip = j then refill R.perIpCapacity R.rate x (u - t) else tokensAt R L j u := by
  have hset : ∀ M : Limiter, ∀ keyed,
      tokensAt R { M with buckets := M.buckets.set ip ⟨x, t⟩, keyed := keyed } j u
        = if ip = j then refill R.perIpCapacity R.rate x (u - t) else tokensAt R M j u := by
    intro M keyed
    rw [tokensAt_eq, tokensAt_eq]
    dsimp only
    rw [OrderedMap.get_set]
    split <;> rfl
  by_cases hp : p ∧ L.buckets.get ip = none ∧ MAX_TRACKED_IPS ≤ L.buckets.length
  · have hpruned := hset { L with
      buckets := pruneBuckets R t L.buckets
      keyed := keyed_pruneBuckets L.keyed } ((keyed_pruneBuckets L.keyed).set _ _)
    rw [tokensAt_prune hR hu] at hpruned
    rw [← hpruned, tokensAt_eq, tokensAt_eq]
    dsimp only [Limiter.keep]
    rw [if_pos hp]
  · rw [← hset L (L.keyed.set _ _), tokensAt_eq, tokensAt_eq]
    dsimp only [Limiter.keep]
    rw [if_neg hp]

lemma known_keep {t x : ℚ} (hL : Known R L t) (h0 : 0 ≤ x) (hx : x ≤ R.perIpCapacity) :
    Known R (L.keep R p ip ⟨x, t⟩) t := by
  intro j b hb
  have hnew : ∀ m : OrderedMap Str Bucket, (∀ c, m.get j = some c → c.Sound R t) →
      (m.set ip ⟨x, t⟩).get j = some b → b.Sound R t := by
    intro m hm hget
    rw [OrderedMap.get_set] at hget
    split at hget
    · obtain rfl := Option.some.inj hget
      exact ⟨le_rfl, h0, hx⟩
    · exact hm b hget
  dsimp only [Limiter.keep] at hb
  split at hb
  · refine hnew _ (fun c hc => hL j c ?_) hb
    rw [get_pruneBuckets L.keyed, Option.filter_eq_some_iff] at hc
    exact hc.1
  · exact hnew _ (hL j) hb

/-! ### After a request -/

lemma tokensAt_congr {L M : Limiter} (h : L.buckets = M.buckets) (t : ℚ) :
    tokensAt R L ip t = tokensAt R M ip t := by
  rw [tokensAt_eq, tokensAt_eq, h]

lemma used_openWindow (L : Limiter) (t : ℚ) :
    (L.openWindow R t).used = if L.elapsed R t then 0 else L.used := by
  rw [Limiter.openWindow]
  split <;> rfl

/-- The pruning does not touch the answer. -/
lemma answer_pruning (R : Rule) (L : Limiter) (r : Request) (p q : Bool) :
    (consume R p L r).1 = (consume R q L r).1 := by
  rw [consume, consume]
  cases R.tooLarge r.count with
  | some reason => rfl
  | none =>
      dsimp only
      split
      · rfl
      · split <;> rfl

lemma spent_eq (R : Rule) (L : Limiter) (r : Request) (p : Bool) :
    spent R L r = if (consume R p L r).1 = .ok then r.count else 0 := by
  rw [spent, answer_pruning R L r true p]

lemma spent_of_refused (h : (consume R p L r).1 ≠ .ok) : spent R L r = 0 := by
  rw [spent_eq R L r p, if_neg h]

lemma spent_of_ok (h : (consume R p L r).1 = .ok) : spent R L r = r.count := by
  rw [spent_eq R L r p, if_pos h]

/-- The window after a request. -/
lemma used_next (R : Rule) (p : Bool) (L : Limiter) (r : Request) :
    (consume R p L r).2.used = (if restarts R L r then 0 else L.used) + spent R L r := by
  have hopen (hn : R.tooLarge r.count = none) :
      (L.openWindow R r.nowMs).used = if restarts R L r then 0 else L.used := by
    rw [used_openWindow]
    simp only [restarts, hn, true_and]
  obtain ⟨reason, hl, h⟩ | ⟨hn, ⟨-, h⟩ | ⟨-, ⟨-, h⟩ | ⟨-, h⟩⟩⟩ := consume_cases R p L r
  · have hno : ¬ restarts R L r := fun hr => by rw [restarts, hl] at hr; cases hr.1
    rw [spent_of_refused (by rw [h]; simp), if_neg hno, h, add_zero]
  · rw [spent_of_refused (by rw [h]; simp), h, ← hopen hn, add_zero]
  · rw [spent_of_refused (by rw [h]; simp), h, ← hopen hn, add_zero]
    rfl
  · rw [spent_of_ok (by rw [h]), h, ← hopen hn]

/-- What an address has after a request. -/
lemma tokensAt_next {u : ℚ} (hR : R.Nonneg) (hu : r.nowMs ≤ u) :
    tokensAt R (consume R p L r).2 ip u
      = if r.ip = ip then
          refill R.perIpCapacity R.rate (tokensAt R L r.ip r.nowMs - spent R L r) (u - r.nowMs)
        else tokensAt R L ip u := by
  have hsame (h0 : spent R L r = 0) : tokensAt R L ip u
      = if r.ip = ip then
          refill R.perIpCapacity R.rate (tokensAt R L r.ip r.nowMs - spent R L r) (u - r.nowMs)
        else tokensAt R L ip u := by
    split
    · next h => rw [h0, Nat.cast_zero, sub_zero, h, ← tokensAt_later hR hu]
    · rfl
  have hopen : tokensAt R (L.openWindow R r.nowMs) ip u = tokensAt R L ip u :=
    tokensAt_congr (openWindow_buckets r.nowMs) u
  obtain ⟨reason, -, h⟩ | ⟨-, ⟨-, h⟩ | ⟨-, ⟨-, h⟩ | ⟨-, h⟩⟩⟩ := consume_cases R p L r
  · have h0 := spent_of_refused (R := R) (L := L) (r := r) (p := p) (by rw [h]; simp)
    rw [← hsame h0, h]
  · have h0 := spent_of_refused (R := R) (L := L) (r := r) (p := p) (by rw [h]; simp)
    rw [← hsame h0, h, hopen]
  · rw [spent_of_refused (p := p) (by rw [h]; simp), h]
    dsimp only
    rw [tokensAt_keep hR hu, hopen, Nat.cast_zero, sub_zero]
  · have hok := spent_of_ok (R := R) (L := L) (r := r) (p := p) (by rw [h])
    rw [h]
    dsimp only
    rw [hok, ← hopen, ← tokensAt_keep (p := p) (L := L.openWindow R r.nowMs) hR hu]
    exact tokensAt_congr rfl u

/-- The window keeps to the limit. -/
lemma used_next_le (hR : R.Nonneg) (h : (L.used : ℚ) ≤ R.globalLimit) :
    ((consume R p L r).2.used : ℚ) ≤ R.globalLimit := by
  have hopen : ((L.openWindow R r.nowMs).used : ℚ) ≤ R.globalLimit := by
    rw [used_openWindow]
    split
    · rw [Nat.cast_zero]
      exact hR.globalLimit
    · exact h
  obtain ⟨reason, -, hc⟩ | ⟨-, ⟨-, hc⟩ | ⟨hg, ⟨-, hc⟩ | ⟨-, hc⟩⟩⟩ := consume_cases R p L r
  · rwa [hc]
  · rwa [hc]
  · rw [hc]
    exact hopen
  · rw [hc]
    rwa [Nat.cast_add]

/-- A refused request takes nothing from anyone. -/
lemma tokensAt_next_of_refused {u : ℚ} (hR : R.Nonneg) (hu : r.nowMs ≤ u)
    (h : (consume R p L r).1 ≠ .ok) : tokensAt R (consume R p L r).2 ip u = tokensAt R L ip u := by
  rw [tokensAt_next hR hu, spent_of_refused h, Nat.cast_zero, sub_zero]
  split
  · next hip => rw [hip, ← tokensAt_later hR hu]
  · rfl

/-- The start of the window after a request. -/
lemma windowStartMs_next (R : Rule) (p : Bool) (L : Limiter) (r : Request) :
    (consume R p L r).2.windowStartMs = if restarts R L r then some r.nowMs else L.windowStartMs := by
  have hopen (hn : R.tooLarge r.count = none) :
      (L.openWindow R r.nowMs).windowStartMs
        = if restarts R L r then some r.nowMs else L.windowStartMs := by
    simp only [restarts, hn, true_and, Limiter.openWindow]
    split <;> rfl
  obtain ⟨reason, hl, h⟩ | ⟨hn, ⟨-, h⟩ | ⟨-, ⟨-, h⟩ | ⟨-, h⟩⟩⟩ := consume_cases R p L r
  · have hno : ¬ restarts R L r := fun hr => by rw [restarts, hl] at hr; cases hr.1
    rw [if_neg hno, h]
  · rw [h, ← hopen hn]
  · rw [h, ← hopen hn]
    rfl
  · rw [h, ← hopen hn]
    rfl

/-- The three checks of a request. -/
structure Passes (R : Rule) (L : Limiter) (r : Request) : Prop where
  size : R.tooLarge r.count = none
  window : ((L.openWindow R r.nowMs).used : ℚ) + r.count ≤ R.globalLimit
  bucket : r.count ≤ tokensAt R L r.ip r.nowMs

lemma ok_iff_passes : (consume R p L r).1 = .ok ↔ Passes R L r := by
  obtain ⟨reason, hl, h⟩ | ⟨hn, ⟨hg, h⟩ | ⟨hg, ⟨hi, h⟩ | ⟨hi, h⟩⟩⟩ := consume_cases R p L r
  · rw [h]
    refine ⟨fun hok => (by cases hok), fun hp => ?_⟩
    rw [hp.size] at hl
    cases hl
  · rw [h]
    exact ⟨fun hok => (by cases hok), fun hp => absurd hp.window (not_le.mpr hg)⟩
  · rw [h]
    exact ⟨fun hok => (by cases hok), fun hp => absurd hp.bucket (not_le.mpr hi)⟩
  · rw [h]
    exact ⟨fun _ => ⟨hn, hg, hi⟩, fun _ => rfl⟩

lemma spent_le_tokensAt (hR : R.Nonneg) (hL : Known R L r.nowMs) :
    (spent R L r : ℚ) ≤ tokensAt R L r.ip r.nowMs := by
  have h0 := tokensAt_nonneg hR hL r.ip
  by_cases hok : (consume R true L r).1 = .ok
  · obtain ⟨reason, -, h⟩ | ⟨-, ⟨-, h⟩ | ⟨-, ⟨-, h⟩ | ⟨hle, -⟩⟩⟩ := consume_cases R true L r
    · rw [h] at hok
      cases hok
    · rw [h] at hok
      cases hok
    · rw [h] at hok
      cases hok
    · rwa [spent_of_ok hok]
  · rwa [spent_of_refused hok, Nat.cast_zero]

lemma known_next (hR : R.Nonneg) (hL : Known R L r.nowMs) :
    Known R (consume R p L r).2 r.nowMs := by
  have hopen : Known R (L.openWindow R r.nowMs) r.nowMs := fun j b hb =>
    hL j b (by rwa [openWindow_buckets] at hb)
  have h0 := tokensAt_nonneg hR hL r.ip
  have hcap := tokensAt_le R L r.ip r.nowMs
  obtain ⟨reason, -, h⟩ | ⟨-, ⟨-, h⟩ | ⟨-, ⟨-, h⟩ | ⟨hle, h⟩⟩⟩ := consume_cases R p L r
  · rwa [h]
  · rwa [h]
  · rw [h]
    exact known_keep hopen h0 hcap
  · rw [h]
    have hcount : (0 : ℚ) ≤ r.count := Nat.cast_nonneg _
    exact known_keep hopen (sub_nonneg.mpr hle) (by linarith)

lemma Known.later {t u : ℚ} (hL : Known R L t) (hu : t ≤ u) : Known R L u := fun j b hb =>
  { hL j b hb with last_le := (hL j b hb).last_le.trans hu }

/-! ### States that answer alike -/

/-- Two states that no later request tells apart. -/
structure Agree (R : Rule) (L M : Limiter) (t : ℚ) : Prop where
  used : L.used = M.used
  start : L.windowStartMs = M.windowStartMs
  tokens : ∀ ip u, t ≤ u → tokensAt R L ip u = tokensAt R M ip u

variable {M : Limiter} {t : ℚ} {q : Bool}

lemma Agree.rfl' (R : Rule) (L : Limiter) (t : ℚ) : Agree R L L t := ⟨rfl, rfl, fun _ _ _ => rfl⟩

lemma Agree.openWindow (h : Agree R L M t) (u : ℚ) :
    (L.openWindow R u).used = (M.openWindow R u).used ∧
      (L.openWindow R u).windowStartMs = (M.openWindow R u).windowStartMs := by
  have helapsed : L.elapsed R u = M.elapsed R u := by rw [Limiter.elapsed, Limiter.elapsed, h.start]
  rw [Limiter.openWindow, Limiter.openWindow, helapsed]
  split
  · exact ⟨rfl, rfl⟩
  · exact ⟨h.used, h.start⟩

/-- They answer alike, pruning or not. -/
lemma Agree.answer (h : Agree R L M t) (ht : t ≤ r.nowMs) :
    (consume R p L r).1 = (consume R q M r).1 := by
  obtain ⟨hused, hstart⟩ := h.openWindow r.nowMs
  have htokens := h.tokens r.ip r.nowMs ht
  rw [consume, consume]
  cases R.tooLarge r.count with
  | some reason => rfl
  | none =>
      dsimp only
      rw [bucketFor_openWindow, bucketFor_openWindow, bucketFor_eq, bucketFor_eq, hused, hstart, htokens]
      split
      · rfl
      · split <;> rfl

/-- And stay so. -/
lemma Agree.next (hR : R.Nonneg) (h : Agree R L M t) (ht : t ≤ r.nowMs) :
    Agree R (consume R p L r).2 (consume R q M r).2 r.nowMs := by
  have hrestarts : restarts R L r = restarts R M r := by
    rw [restarts, restarts, Limiter.elapsed, Limiter.elapsed, h.start]
  have hspent : spent R L r = spent R M r := by
    rw [spent, spent, h.answer ht]
  refine ⟨?_, ?_, fun ip u hu => ?_⟩
  · rw [used_next, used_next, hspent, h.used]
    simp only [hrestarts]
  · rw [windowStartMs_next, windowStartMs_next, h.start]
    simp only [hrestarts]
  · rw [tokensAt_next hR hu, tokensAt_next hR hu, hspent, h.tokens _ _ ht, h.tokens _ _ (ht.trans hu)]

/-- A refused request that restarts no window leaves a state that answers alike. -/
lemma agree_of_refused (hR : R.Nonneg) (h : (consume R p L r).1 ≠ .ok) (hno : ¬ restarts R L r) :
    Agree R (consume R p L r).2 L r.nowMs where
  used := by rw [used_next, if_neg hno, spent_of_refused h, add_zero]
  start := by rw [windowStartMs_next, if_neg hno]
  tokens _ _ hu := tokensAt_next_of_refused hR hu h

end Request

/-! ### Runs -/

/-- A limiter behind an endpoint. -/
structure Endpoint (ε : Type) where
  rule : Rule
  request : ε → Request
  tryConsume : Bool → Limiter → ε → RateLimitResult × Limiter
  tryConsume_eq : ∀ p L e, tryConsume p L e = consume rule p L (request e)

/-- `POST /commit`. -/
def commit (D : DigestLimits) : Endpoint Request where
  rule := D.rule
  request := id
  tryConsume p L r := tryConsumeDigests D p L r.ip r.count r.nowMs
  tryConsume_eq _ _ _ := rfl

/-- `POST /allocate-slot`. -/
def allocateSlot (cfg : AllocationLimitConfig) : Endpoint Allocation where
  rule := cfg.rule
  request := Allocation.request
  tryConsume p L a := AllocationLimiter.tryConsume cfg p L a.ip a.nowMs
  tryConsume_eq _ _ _ := rfl

namespace Endpoint

variable {ε : Type} (E : Endpoint ε)

def next (p : Bool) (L : Limiter) (e : ε) : Limiter := (E.tryConsume p L e).2

def time (e : ε) : ℚ := (E.request e).nowMs

/-- The tokens of an accepted request. -/
def accepted (L : Limiter) (e : ε) : ℚ :=
  if (E.tryConsume true L e).1 = .ok then (E.request e).count else 0

/-- The answers of a run. -/
def answers (p : Bool) : Limiter → List ε → List RateLimitResult
  | _, [] => []
  | L, e :: l => (E.tryConsume p L e).1 :: answers p (E.next p L e) l

/-- What the limits promise of a run. -/
structure RunHolds (L : Limiter) (l : List ε) : Prop where
  /-- In any interval an address has its bucket and the refill. -/
  perAddress : ∀ ip a b, a ≤ b →
    total (E.next true) E.accepted
      (fun e => (E.request e).ip = ip ∧ a ≤ E.time e ∧ E.time e ≤ b) L l
      ≤ E.rule.perIpCapacity + (b - a) / 60000 * E.rule.perIpRefillPerMin
  /-- In any window all addresses have the global limit. -/
  allAddresses : ∀ a,
    total (E.next true) E.accepted (fun e => a ≤ E.time e ∧ E.time e < a + E.rule.windowMs) L l
      ≤ E.rule.globalLimit
  /-- A refused request changes no later answer. -/
  refusals : ∀ pre e post, l = pre ++ e :: post →
    (E.tryConsume true (after (E.next true) L pre) e).1 ≠ .ok →
      E.answers true (E.next true (after (E.next true) L pre) e) post
        = E.answers true (after (E.next true) L pre) post
  /-- Pruning changes no answer. -/
  pruning : E.answers true L l = E.answers false L l

/-- Every request that restarts the window passes its checks, and every request that passed before it
is a whole window older. -/
def Settled (L : Limiter) (l : List ε) : Prop :=
  ∀ pre e post, l = pre ++ e :: post →
    restarts E.rule (after (E.next true) L pre) (E.request e) →
      Passes E.rule (after (E.next true) L pre) (E.request e) ∧
        ∀ pre' f post', pre = pre' ++ f :: post' →
          Passes E.rule (after (E.next true) L pre') (E.request f) → 0 < (E.request f).count →
            E.time f + E.rule.windowMs ≤ E.time e

variable {E} {L M : Limiter} {l : List ε} {t : ℚ} {p q : Bool}

lemma next_eq (p : Bool) (L : Limiter) (e : ε) :
    E.next p L e = (consume E.rule p L (E.request e)).2 := by
  rw [next, E.tryConsume_eq]

lemma accepted_eq (L : Limiter) (e : ε) : E.accepted L e = spent E.rule L (E.request e) := by
  rw [accepted, E.tryConsume_eq, spent]
  split <;> simp

/-- The bucket of an address as a level. -/
def bucketLevel (hR : E.rule.Nonneg) (ip : Str) :
    Level (E.next true) (fun L e => if (E.request e).ip = ip then E.accepted L e else 0) E.time
      E.rule.perIpCapacity E.rule.rate where
  Known L t := Known E.rule L t
  level L t := tokensAt E.rule L ip t
  later h hu := h.later hu
  nonneg h := tokensAt_nonneg hR h ip
  le_cap L t := tokensAt_le E.rule L ip t
  grows hu := by
    rw [tokensAt_later hR hu]
    exact min_le_right _ _
  known {L e} h := by
    rw [next_eq]
    exact known_next hR h
  pays {L e} h := by
    have hspent := spent_le_tokensAt hR h
    have hcap := tokensAt_le E.rule L (E.request e).ip (E.request e).nowMs
    have hcast : (0 : ℚ) ≤ spent E.rule L (E.request e) := Nat.cast_nonneg _
    rw [next_eq, time, tokensAt_next hR le_rfl, accepted_eq]
    split
    · next hip =>
        rw [sub_self, refill, zero_mul, add_zero, hip]
        rw [hip] at hcap
        exact min_eq_right (by linarith)
    · rw [sub_zero]

/-- The window as a budget. -/
def windowBudget (hR : E.rule.Nonneg) : Window (E.next true) E.accepted E.rule.globalLimit where
  used L := L.used
  restarts L e := restarts E.rule L (E.request e)
  cost_nonneg L e := by
    rw [accepted_eq]
    exact Nat.cast_nonneg _
  used_le {L e} h := by
    rw [next_eq]
    exact used_next_le hR h
  kept {L e} h := by
    rw [next_eq, used_next, if_neg h, accepted_eq, Nat.cast_add]
  anew L e := by
    rw [next_eq, used_next, accepted_eq, Nat.cast_add]
    exact le_add_of_nonneg_left (Nat.cast_nonneg _)

/-- From a known state on, an address has its bucket and the refill in every interval. -/
theorem perAddress (hR : E.rule.Nonneg) (hL : Known E.rule L t) (hl : Clock E.time t l) (ip : Str)
    {a b : ℚ} (hab : a ≤ b) :
    total (E.next true) E.accepted
      (fun e => (E.request e).ip = ip ∧ a ≤ E.time e ∧ E.time e ≤ b) L l
      ≤ E.rule.perIpCapacity + (b - a) / 60000 * E.rule.perIpRefillPerMin := by
  have hrate : (b - a) * E.rule.rate = (b - a) / 60000 * E.rule.perIpRefillPerMin := by
    rw [Rule.rate]
    ring
  rw [total_and, ← hrate]
  exact (bucketLevel hR ip).total_le hR.rate hR.capacity hL hl hab fun _ _ => Iff.rfl

/-- Two states that agree answer the rest of a run alike. -/
theorem answers_agree (hR : E.rule.Nonneg) (h : Agree E.rule L M t) (hl : Clock E.time t l) :
    E.answers p L l = E.answers q M l := by
  induction l generalizing L M t with
  | nil => rfl
  | cons e l ih =>
      have hnext : Agree E.rule (E.next p L e) (E.next q M e) (E.time e) := by
        rw [next_eq, next_eq]
        exact h.next hR hl.head
      rw [answers, answers, E.tryConsume_eq, E.tryConsume_eq, h.answer hl.head, ih hnext hl.tail]

lemma Settled.quiet (hR : E.rule.Nonneg) (hs : E.Settled L l) :
    (windowBudget hR).Quiet E.time E.rule.windowMs L l := by
  intro pre e post hl hr pre' f post' hpre hcost
  refine (hs pre e post hl hr).2 pre' f post' hpre ?_ ?_
  all_goals rw [accepted_eq] at hcost
  · by_contra hno
    rw [← ok_iff_passes (p := true)] at hno
    rw [spent_of_refused hno] at hcost
    exact lt_irrefl _ hcost
  · have hle : spent E.rule (after (E.next true) L pre') (E.request f) ≤ (E.request f).count := by
      rw [spent]
      split
      · exact le_rfl
      · exact Nat.zero_le _
    have hpos : 0 < spent E.rule (after (E.next true) L pre') (E.request f) := by exact_mod_cast hcost
    omega

/-- **The limits hold** in every run that no restart cuts short. -/
theorem runHolds (hR : E.rule.Nonneg) (hL : Known E.rule L t) (hu : (L.used : ℚ) ≤ E.rule.globalLimit)
    (hl : Clock E.time t l) (hs : E.Settled L l) : E.RunHolds L l where
  perAddress ip _ _ hab := perAddress hR hL hl ip hab
  allAddresses _ :=
    (windowBudget hR).total_le hR.globalLimit hu hl (hs.quiet hR) fun _ _ => Iff.rfl
  refusals pre e post hsplit href := by
    have hpost : Clock E.time (E.time e) post := by
      rw [hsplit] at hl
      exact hl.rest
    have hno : ¬ restarts E.rule (after (E.next true) L pre) (E.request e) := fun hr => by
      rw [E.tryConsume_eq] at href
      exact href (ok_iff_passes.mpr (hs pre e post hsplit hr).1)
    refine answers_agree hR ?_ hpost
    rw [next_eq]
    rw [E.tryConsume_eq] at href
    exact agree_of_refused hR href hno
  pruning := answers_agree hR (Agree.rfl' E.rule L t) hl

end Endpoint

/-! ### The two endpoints -/

lemma known_fresh (R : Rule) (start : Option ℚ) (t : ℚ) : Known R (.fresh start) t := fun _ _ h => by cases h

lemma AllocationLimitConfig.nonneg (cfg : AllocationLimitConfig) : cfg.rule.Nonneg where
  capacity := cfg.perIpCapacity.2.le
  refill := cfg.perIpRefillPerMin.2.le
  globalLimit := cfg.globalPerWindow.2.le

/-- Both limits hold over every interval of a run that starts with the process, where no restart of a
window cuts one short and no request that restarts one is refused. -/
theorem limits_hold (D : DigestLimits) (cfg : AllocationLimitConfig) {t : ℚ} {l : List Request}
    {m : List Allocation} (hD : D.rule.Nonneg) (hl : Clock (commit D).time t l)
    (hm : Clock (allocateSlot cfg).time t m) (hsl : (commit D).Settled (.fresh (some t)) l)
    (hsm : (allocateSlot cfg).Settled (.fresh none) m) :
    (commit D).RunHolds (.fresh (some t)) l ∧ (allocateSlot cfg).RunHolds (.fresh none) m := by
  have hcommit : (((Limiter.fresh (some t)).used : ℕ) : ℚ) ≤ (commit D).rule.globalLimit :=
    Nat.cast_zero.trans_le hD.globalLimit
  have hslot : (((Limiter.fresh none).used : ℕ) : ℚ) ≤ (allocateSlot cfg).rule.globalLimit :=
    Nat.cast_zero.trans_le cfg.nonneg.globalLimit
  exact ⟨Endpoint.runHolds hD (known_fresh _ _ t) hcommit hl hsl,
    Endpoint.runHolds cfg.nonneg (known_fresh _ _ t) hslot hm hsm⟩

/-- Limits of 5000 digests for an address, 20 a minute, and 5000 a day. -/
def sampleLimits : DigestLimits where
  perIpCapacity := ⟨false, 5000 * 2 ^ 40, -40, by norm_num⟩
  perIpRefillPerMin := ⟨false, 20 * 2 ^ 48, -48, by norm_num⟩
  globalPerDay := ⟨false, 5000 * 2 ^ 40, -40, by norm_num⟩

/-- Two slots a window. -/
def sampleConfig : AllocationLimitConfig :=
  { createAllocationLimiter (fun _ => none) with globalPerWindow := ⟨2, by norm_num⟩ }

/-- A day later the window restarts, a whole one after the first request. -/
theorem limits_hold_days :
    (commit sampleLimits).RunHolds (.fresh (some 0))
        [⟨js "a", 5, 10⟩, ⟨js "b", 5000, DAY_MS + 10⟩] ∧
      (allocateSlot sampleConfig).RunHolds (.fresh none) [⟨js "a", 10⟩] := by
  refine limits_hold sampleLimits sampleConfig (t := 0) ⟨?_, ?_, ?_⟩ ⟨?_, ?_⟩ ⟨?_, ?_⟩ ?_ ?_
  any_goals decide +kernel
  · rw [Endpoint.Settled, forall_split_cons, forall_split_cons]
    refine ⟨fun hr => absurd hr (by decide +kernel), fun _ => ⟨?_, ?_⟩, forall_split_nil⟩
    · exact ⟨by decide +kernel, by decide +kernel, by decide +kernel⟩
    · rw [forall_split_cons]
      exact ⟨fun _ _ => by decide +kernel, forall_split_nil⟩
  · rw [Endpoint.Settled, forall_split_cons]
    refine ⟨fun _ => ⟨?_, forall_split_nil⟩, forall_split_nil⟩
    exact ⟨by decide +kernel, by decide +kernel, by decide +kernel⟩

/-- Two bursts at the edge of a window exceed it, of digests and of slots, and a refused request that
restarts a window changes an answer of the next day. -/
theorem window_edge_exceeds :
    ¬ (commit sampleLimits).RunHolds (.fresh (some 0))
        [⟨js "a", 5000, DAY_MS - 1⟩, ⟨js "b", 5000, DAY_MS⟩] ∧
      ¬ (allocateSlot sampleConfig).RunHolds (.fresh none)
        [⟨js "a", 0⟩, ⟨js "a", 119999⟩, ⟨js "b", 120000⟩, ⟨js "b", 120000⟩] ∧
      ¬ (commit sampleLimits).RunHolds (.fresh (some 0))
        [⟨js "a", 5000, DAY_MS - 1⟩, ⟨js "a", 5000, DAY_MS⟩, ⟨js "b", 5000, DAY_MS + 1⟩,
          ⟨js "c", 5000, 2 * DAY_MS⟩] := by
  refine ⟨fun h => ?_, fun h => ?_, fun h => ?_⟩
  · have hall := h.allAddresses (DAY_MS - 1)
    revert hall
    decide +kernel
  · have hall := h.allAddresses 119999
    revert hall
    decide +kernel
  · have hrest := h.refusals [⟨js "a", 5000, DAY_MS - 1⟩] _ _ rfl
    revert hrest
    decide +kernel

end BitGraph.RateLimit
