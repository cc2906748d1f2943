import BitGraph.Codec
import BitGraph.Js.IntText
import BitGraph.Lib.Events

/-!
`kms-counter.ts`: the counter of an enclave, sealed by a key management service.

A process holds one `KmsCounter` and the calls of `next` and `restore` in flight, each at the
`await` it stands at. An event starts a call, ends an `await`, or stores a blob; a crash drops
the process, and the next one finds the blob stored last.

* **Blobs.** `encodeCounter` pads the decimal text to 32 bytes, and cuts it there. `counterOf` is
  the counter a blob restores.
* **Calls.** `resolve` is the code from one `await` to the next; `fire` is executable.
* **Counters.** `issued_increasing`: the values `next` returns increase strictly while no call
  works with a counter that others have moved (`admissible`). Two calls at once break it
  (`issued_twice`).
-/

namespace BitGraph

open Js

namespace KmsCounter

/-! ### Blobs -/

/-- The service, on the base64 texts of its requests and answers. It draws a nonce for every
encryption, opens what it sealed, and answers `none` where it refuses. -/
structure Kms where
  encrypt : Str → ℕ → Str
  decrypt : Str → Option Str
  decrypt_encrypt : ∀ plaintextB64 nonce, decrypt (encrypt plaintextB64 nonce) = some plaintextB64

/-- `#encodeCounter`: the text over 32 blanks, cut at their end. -/
def encodeCounter (value : ℤ) : Bytes :=
  let str := intText value
  (str.map fun c => UInt8.ofNat c.toNat).take 32 ++ List.replicate (32 - str.length) 0x20

/-- `#kmsEncrypt`. -/
def kmsEncrypt (kms : Kms) (value : ℤ) (nonce : ℕ) : Str :=
  kms.encrypt (bytesToBase64 (encodeCounter value)) nonce

/-- `#kmsDecrypt`. -/
def kmsDecrypt (kms : Kms) (ciphertextB64 : Str) : Option Bytes :=
  (kms.decrypt ciphertextB64).map bufferFromBase64

/-- The number in a decrypted blob, `none` where `BigInt` throws. -/
def decodeCounter (plaintext : Bytes) : Option ℤ :=
  stringToBigInt? (trim (trimEnd (decodeLossy plaintext)))

/-- The counter a stored blob holds. -/
def counterOf (kms : Kms) (blob : Option Str) : Option ℤ :=
  blob.bind fun b => (kmsDecrypt kms b).bind decodeCounter

/-- A counter whose text fits comes back. -/
lemma decodeCounter_encodeCounter {value : ℤ} (h : (intText value).length ≤ 32) :
    decodeCounter (encodeCounter value) = some value := by
  have hblank : ∀ c ∈ List.replicate (32 - (intText value).length) (32 : UInt16), isBlank c = true := by
    intro c hc
    rw [List.eq_of_mem_replicate hc]
    rfl
  have hascii : isAscii (intText value ++ List.replicate (32 - (intText value).length) 32) = true := by
    rw [isAscii, List.all_append, Bool.and_eq_true]
    refine ⟨isAscii_intText value, ?_⟩
    rw [List.all_eq_true]
    intro c hc
    rw [List.eq_of_mem_replicate hc]
    rfl
  have hbytes : encodeCounter value
      = (intText value ++ List.replicate (32 - (intText value).length) 32).map
        fun c : UInt16 => UInt8.ofNat c.toNat := by
    rw [encodeCounter, List.map_append, List.map_replicate, List.take_of_length_le]
    · rfl
    · rw [List.length_map]
      exact h
  rw [decodeCounter, hbytes, decodeLossy_of_isAscii hascii,
    trimEnd_append_blanks (fun c hc => isBlank_of_mem_intText hc) hblank,
    trim_eq_self fun c hc => isBlank_of_mem_intText hc, stringToBigInt?_intText]

/-- An honest blob holds the counter it was made for. -/
lemma counterOf_kmsEncrypt (kms : Kms) {value : ℤ} (h : (intText value).length ≤ 32) (nonce : ℕ) :
    counterOf kms (some (kmsEncrypt kms value nonce)) = some value := by
  rw [counterOf, Option.bind_some, kmsDecrypt, kmsEncrypt, kms.decrypt_encrypt, Option.map_some,
    bufferFromBase64_bytesToBase64, Option.bind_some, decodeCounter_encodeCounter h]

/-! ### Calls -/

/-- Which callbacks the options have, and the first value. -/
structure Options where
  persistBlob : Bool
  restoreBlob : Bool
  anchorCounter : Bool
  initialValue : Option ℤ
  deriving DecidableEq

/-- The fields of the class. -/
structure Counter where
  opts : Options
  value : ℤ
  restored : Bool
  deriving DecidableEq

/-- The constructor. -/
def Counter.new (opts : Options) : Counter := ⟨opts, opts.initialValue.getD 0, false⟩

/-- A call in flight, by the promise it waits for. -/
inductive Call where
  | encrypt (candidate : ℤ)
  | anchor (candidate : ℤ) (ciphertextB64 : Str)
  | persist (candidate : ℤ) (ciphertextB64 : Str)
  /-- The blob is stored, and `persistBlob` has not resolved yet. -/
  | stored (candidate : ℤ)
  | restoreBlob
  | decrypt (blob : Str)
  | anchorRestored (blob : Str) (candidate : ℤ)
  deriving DecidableEq

/-- Where the code stands when it gives control back: at the next `await`, or at its end, with
the counter and what `next` returned. -/
inductive Outcome where
  | awaits (c : Call)
  | ends (k : Counter) (returned : List Str)

/-- The end of `next`. -/
def finish (k : Counter) (candidate : ℤ) : Outcome :=
  .ends { k with value := candidate } [intText candidate]

/-- `next` after `anchorCounter`. -/
def afterAnchor (k : Counter) (candidate : ℤ) (ciphertextB64 : Str) : Outcome :=
  if k.opts.persistBlob then .awaits (.persist candidate ciphertextB64) else finish k candidate

/-- `next` after `#kmsEncrypt`. -/
def afterEncrypt (k : Counter) (candidate : ℤ) (ciphertextB64 : Str) : Outcome :=
  if k.opts.anchorCounter then .awaits (.anchor candidate ciphertextB64)
  else afterAnchor k candidate ciphertextB64

/-- The code that runs when the promise of a call resolves. `persistBlob` resolves once the blob
is stored. -/
def resolve (kms : Kms) (nonce : ℕ) (disk : Option Str) (k : Counter) : Call → Option Outcome
  | .encrypt candidate => some (afterEncrypt k candidate (kmsEncrypt kms candidate nonce))
  | .anchor candidate ciphertextB64 => some (afterAnchor k candidate ciphertextB64)
  | .persist _ _ => none
  | .stored candidate => some (finish k candidate)
  | .restoreBlob =>
      match disk with
      | none | some [] => some (.ends k [])
      | some blob => some (.awaits (.decrypt blob))
  | .decrypt blob =>
      match (kmsDecrypt kms blob).bind decodeCounter with
      | none => some (.ends k [])
      | some restored =>
          if k.opts.anchorCounter then some (.awaits (.anchorRestored blob (restored + 1)))
          else some (.ends { k with value := restored + 1 } [])
  | .anchorRestored _ candidate => some (.ends { k with value := candidate } [])

/-! ### Processes -/

/-- A process: its counter, the calls in flight, and the blob that was stored when it started,
which the code does not keep. -/
structure Process where
  counter : Counter
  calls : List Call
  found : Option Str

/-- What can happen to a process. -/
inductive Event where
  | next
  | restore
  /-- The promise of a call resolves; the nonce is the service's. -/
  | resolves (i : ℕ) (nonce : ℕ)
  | rejects (i : ℕ)
  | stores (i : ℕ)

/-- One event: the values returned, the blob on the disk, and the process after it. -/
def fire (kms : Kms) (e : Event) (disk : Option Str) (p : Process) :
    Option (List Str × Option Str × Process) :=
  match e with
  | .next => some ([], disk, { p with calls := p.calls ++ [.encrypt (p.counter.value + 1)] })
  | .restore =>
      some ([], disk, { p with
        counter := { p.counter with restored := true }
        calls := if p.counter.opts.restoreBlob then p.calls ++ [.restoreBlob] else p.calls })
  | .resolves i nonce => do
      let c ← p.calls[i]?
      match ← resolve kms nonce disk p.counter c with
      | .awaits c' => some ([], disk, { p with calls := p.calls.set i c' })
      | .ends k returned => some (returned, disk, { p with counter := k, calls := p.calls.eraseIdx i })
  | .rejects i =>
      if i < p.calls.length then some ([], disk, { p with calls := p.calls.eraseIdx i }) else none
  | .stores i =>
      match p.calls[i]? with
      | some (.persist candidate ciphertextB64) =>
          some ([], some ciphertextB64, { p with calls := p.calls.set i (.stored candidate) })
      | _ => none

/-- The counter over its stored blob, under a policy for the events. Every process persists. -/
def machine (kms : Kms) (ok : Event → Option Str → Process → Bool) :
    Machine (Option Str) Process Str :=
  .onEvents (· = none) (fun disk p => ∃ opts, opts.persistBlob = true ∧ p = ⟨.new opts, [], disk⟩)
    (fire kms) fun e disk p => ok e disk p = true

/-- Whether a restored counter may be taken: its blob is the one still stored, or it does not set
the counter back. -/
def mayRestore (kms : Kms) (blob : Str) (disk : Option Str) (p : Process) : Bool :=
  disk = some blob || (counterOf kms (some blob)).all fun q => p.counter.value ≤ q + 1

/-- No call works with a counter that others have moved. A blob is stored only when its counter
fits and is not below the stored one; `next` returns only when its candidate is above the counter
and above the one stored before the process started; `restore` does not set the counter back. -/
def admissible (kms : Kms) (e : Event) (disk : Option Str) (p : Process) : Bool :=
  match e with
  | .stores i =>
      match p.calls[i]? with
      | some (.persist candidate _) =>
          (intText candidate).length ≤ 32 && (counterOf kms disk).all fun q => q ≤ candidate
      | _ => true
  | .resolves i _ =>
      match p.calls[i]? with
      | some (.stored candidate) =>
          p.counter.value < candidate && (counterOf kms p.found).all fun f => f < candidate
      | some (.decrypt blob) => p.counter.opts.anchorCounter || mayRestore kms blob disk p
      | some (.anchorRestored blob _) => mayRestore kms blob disk p
      | _ => true
  | _ => true

/-! ### What a step can do -/

section Steps

variable {kms : Kms} {disk : Option Str} {k : Counter} {p : Process} {c : Call} {nonce : ℕ}

/-- The stored blob holds a counter from `v` on. -/
def Stored (kms : Kms) (disk : Option Str) (v : ℤ) : Prop :=
  ∃ q, counterOf kms disk = some q ∧ v ≤ q

/-- What a call in flight has found out. -/
def Call.Sound (kms : Kms) (disk : Option Str) : Call → Prop
  | .anchor candidate ciphertextB64 | .persist candidate ciphertextB64 =>
      ∃ nonce, ciphertextB64 = kmsEncrypt kms candidate nonce
  | .stored candidate => Stored kms disk candidate
  | .anchorRestored blob candidate => counterOf kms (some blob) = some (candidate - 1)
  | _ => True

/-- A call that goes on is sound at its next `await`. -/
lemma Call.Sound.awaits {c' : Call} (hc : c.Sound kms disk) (hp : k.opts.persistBlob = true)
    (h : resolve kms nonce disk k c = some (.awaits c')) : c'.Sound kms disk := by
  have hpersist : ∀ {candidate : ℤ} {ciphertextB64 : Str},
      afterAnchor k candidate ciphertextB64 = .awaits (.persist candidate ciphertextB64) :=
    if_pos hp
  cases c with
  | encrypt candidate =>
      simp only [resolve, afterEncrypt, hpersist, Option.some.injEq] at h
      split at h <;> cases h <;> exact ⟨nonce, rfl⟩
  | anchor candidate ciphertextB64 =>
      simp only [resolve, hpersist, Option.some.injEq, Outcome.awaits.injEq] at h
      subst h
      exact hc
  | persist candidate ciphertextB64 => exact nomatch h
  | stored candidate => exact nomatch h
  | restoreBlob =>
      rw [resolve.eq_def] at h
      dsimp only at h
      split at h <;> cases h
      trivial
  | decrypt blob =>
      rw [resolve.eq_def] at h
      dsimp only at h
      split at h
      · exact nomatch h
      · next restored hread =>
          split at h <;> cases h
          rw [Sound, counterOf, Option.bind_some, hread, add_sub_cancel_right]
  | anchorRestored blob candidate => exact nomatch h

/-- How a call ends: nothing moved, `next` returned its candidate, or `restore` took a blob. -/
lemma resolve_ends {k' : Counter} {returned : List Str} (hc : c.Sound kms disk)
    (hp : k.opts.persistBlob = true)
    (h : resolve kms nonce disk k c = some (.ends k' returned)) :
    (k' = k ∧ returned = [])
      ∨ (∃ candidate, c = .stored candidate ∧ k' = { k with value := candidate }
          ∧ returned = [intText candidate])
      ∨ ∃ blob q, counterOf kms (some blob) = some q ∧ k' = { k with value := q + 1 }
          ∧ returned = [] ∧ (c = .decrypt blob ∧ k.opts.anchorCounter = false
            ∨ c = .anchorRestored blob (q + 1)) := by
  have hpersist : ∀ {candidate : ℤ} {ciphertextB64 : Str},
      afterAnchor k candidate ciphertextB64 = .awaits (.persist candidate ciphertextB64) :=
    if_pos hp
  cases c with
  | encrypt candidate =>
      simp only [resolve, afterEncrypt, hpersist, Option.some.injEq] at h
      split at h <;> cases h
  | anchor candidate ciphertextB64 =>
      simp only [resolve, hpersist, Option.some.injEq] at h
      cases h
  | persist candidate ciphertextB64 => exact nomatch h
  | stored candidate =>
      cases h
      exact .inr (.inl ⟨candidate, rfl, rfl, rfl⟩)
  | restoreBlob =>
      rw [resolve.eq_def] at h
      dsimp only at h
      split at h <;> cases h <;> exact .inl ⟨rfl, rfl⟩
  | decrypt blob =>
      rw [resolve.eq_def] at h
      dsimp only at h
      split at h
      · cases h
        exact .inl ⟨rfl, rfl⟩
      · next restored hread =>
          split at h <;> cases h
          next hanchor =>
            exact .inr (.inr ⟨blob, restored, by rw [counterOf, Option.bind_some, hread], rfl, rfl,
              .inl ⟨rfl, Bool.eq_false_iff.mpr hanchor⟩⟩)
  | anchorRestored blob candidate =>
      cases h
      refine .inr (.inr ⟨blob, candidate - 1, hc, ?_, rfl, .inr ?_⟩) <;> rw [sub_add_cancel]

end Steps

/-! ### Runs -/

/-- What holds of a run: every process persists, the calls in flight are sound, and every value
returned is stored and is below the counter or below what the process found. -/
structure Ordered (kms : Kms) (ls : List Str) (disk : Option Str) (p : Process) : Prop where
  persists : p.counter.opts.persistBlob = true
  calls : ∀ c ∈ p.calls, c.Sound kms disk
  issued : ∃ counters : List ℤ, ls = counters.map intText ∧ counters.Pairwise (· < ·)
    ∧ (∀ v ∈ counters, Stored kms disk v)
    ∧ ∀ v ∈ counters, v ≤ p.counter.value ∨ Stored kms p.found v

section Runs

variable {kms : Kms} {disk : Option Str} {p : Process} {ls : List Str} {i : ℕ}

/-- A stored blob that does not go back keeps what was stored. -/
lemma Stored.mono {v q : ℤ} {disk' : Option Str} (h : Stored kms disk v)
    (hle : ∀ q', counterOf kms disk = some q' → q' ≤ q) (hq : counterOf kms disk' = some q) :
    Stored kms disk' v := by
  obtain ⟨q', hq', hv⟩ := h
  exact ⟨q, hq, hv.trans (hle q' hq')⟩

/-- Storing a blob. -/
lemma Ordered.stores {candidate : ℤ} {ciphertextB64 : Str} (h : Ordered kms ls disk p)
    (hi : p.calls[i]? = some (.persist candidate ciphertextB64))
    (hok : admissible kms (.stores i) disk p = true) :
    Ordered kms ls (some ciphertextB64) { p with calls := p.calls.set i (.stored candidate) } := by
  rw [admissible, hi, Bool.and_eq_true, decide_eq_true_eq, Option.all_eq_true] at hok
  obtain ⟨nonce, rfl⟩ := h.calls _ (List.mem_of_getElem? hi)
  have hnew := counterOf_kmsEncrypt kms hok.1 nonce
  have hle : ∀ q, counterOf kms disk = some q → q ≤ candidate := fun q hq =>
    of_decide_eq_true (hok.2 q hq)
  refine ⟨h.persists, fun c hc => ?_, ?_⟩
  · rcases List.mem_or_eq_of_mem_set hc with hc | rfl
    · have := h.calls c hc
      cases c with
      | stored c => exact Stored.mono this hle hnew
      | _ => exact this
    · exact ⟨candidate, hnew, le_rfl⟩
  · obtain ⟨counters, hls, hlt, hstored, hbelow⟩ := h.issued
    exact ⟨counters, hls, hlt, fun v hv => (hstored v hv).mono hle hnew, hbelow⟩

/-- `next` returns its candidate. -/
lemma Ordered.returns {candidate : ℤ} (h : Ordered kms ls disk p)
    (hi : p.calls[i]? = some (.stored candidate)) {nonce : ℕ}
    (hok : admissible kms (.resolves i nonce) disk p = true) :
    Ordered kms (ls ++ [intText candidate]) disk
      { p with counter := { p.counter with value := candidate }, calls := p.calls.eraseIdx i } := by
  rw [admissible, hi, Bool.and_eq_true, decide_eq_true_eq, Option.all_eq_true] at hok
  obtain ⟨counters, rfl, hlt, hstored, hbelow⟩ := h.issued
  have hnew : ∀ v ∈ counters, v < candidate := by
    intro v hv
    rcases hbelow v hv with hv | ⟨f, hf, hv⟩
    · exact hv.trans_lt hok.1
    · exact hv.trans_lt (of_decide_eq_true (hok.2 f hf))
  refine ⟨h.persists, fun c hc => h.calls c (List.mem_of_mem_eraseIdx hc), counters ++ [candidate],
    by rw [List.map_append]; rfl, ?_, ?_, ?_⟩
  · rw [List.pairwise_append]
    exact ⟨hlt, List.pairwise_singleton _ _, fun v hv w hw => by
      rw [List.mem_singleton.mp hw]
      exact hnew v hv⟩
  · intro v hv
    rcases List.mem_append.mp hv with hv | hv
    · exact hstored v hv
    · rw [List.mem_singleton.mp hv]
      exact h.calls _ (List.mem_of_getElem? hi)
  · intro v hv
    rcases List.mem_append.mp hv with hv | hv
    · exact .inl (hnew v hv).le
    · exact .inl (List.mem_singleton.mp hv).le

/-- `restore` takes a blob. -/
lemma Ordered.restores {blob : Str} {q : ℤ} (h : Ordered kms ls disk p)
    (hblob : counterOf kms (some blob) = some q) (hok : mayRestore kms blob disk p = true) :
    Ordered kms ls disk
      { p with counter := { p.counter with value := q + 1 }, calls := p.calls.eraseIdx i } := by
  obtain ⟨counters, hls, hlt, hstored, hbelow⟩ := h.issued
  refine ⟨h.persists, fun c hc => h.calls c (List.mem_of_mem_eraseIdx hc), counters, hls, hlt,
    hstored, fun v hv => ?_⟩
  rw [mayRestore, Bool.or_eq_true, decide_eq_true_eq, Option.all_eq_true] at hok
  rcases hok with rfl | hok
  · obtain ⟨q', hq', hle⟩ := hstored v hv
    obtain rfl : q' = q := Option.some_injective _ (hq'.symm.trans hblob)
    exact .inl (hle.trans (by omega : q' ≤ q' + 1))
  · exact (hbelow v hv).imp_left fun hle => hle.trans (of_decide_eq_true (hok q hblob))

/-- Every admissible event keeps the order. -/
lemma Ordered.fire {e : Event} {new : List Str} {disk' : Option Str} {p' : Process}
    (h : Ordered kms ls disk p) (hok : admissible kms e disk p = true)
    (hfire : fire kms e disk p = some (new, disk', p')) : Ordered kms (ls ++ new) disk' p' := by
  cases e with
  | next =>
      cases hfire
      rw [List.append_nil]
      refine ⟨h.persists, fun c hc => ?_, h.issued⟩
      rcases List.mem_append.mp hc with hc | hc
      · exact h.calls c hc
      · rw [List.mem_singleton.mp hc]
        trivial
  | restore =>
      cases hfire
      rw [List.append_nil]
      refine ⟨h.persists, fun c hc => ?_, h.issued⟩
      dsimp only at hc
      split at hc
      · rcases List.mem_append.mp hc with hc | hc
        · exact h.calls c hc
        · rw [List.mem_singleton.mp hc]
          trivial
      · exact h.calls c hc
  | resolves i nonce =>
      obtain ⟨c, hi, hfire⟩ := Option.bind_eq_some_iff.mp hfire
      obtain ⟨o, ho, hfire⟩ := Option.bind_eq_some_iff.mp hfire
      have hc := h.calls c (List.mem_of_getElem? hi)
      cases o with
      | awaits c' =>
          cases hfire
          rw [List.append_nil]
          refine ⟨h.persists, fun d hd => ?_, h.issued⟩
          rcases List.mem_or_eq_of_mem_set hd with hd | rfl
          · exact h.calls d hd
          · exact hc.awaits h.persists ho
      | ends k returned =>
          cases hfire
          rcases resolve_ends hc h.persists ho with
            ⟨rfl, rfl⟩ | ⟨candidate, rfl, rfl, rfl⟩ | ⟨blob, q, hblob, rfl, rfl, hwhich⟩
          · rw [List.append_nil]
            exact ⟨h.persists, fun d hd => h.calls d (List.mem_of_mem_eraseIdx hd), h.issued⟩
          · exact h.returns hi hok
          · rw [List.append_nil]
            refine h.restores hblob ?_
            rcases hwhich with ⟨rfl, hanchor⟩ | rfl
            · simpa [admissible, hi, hanchor] using hok
            · simpa [admissible, hi] using hok
  | rejects i =>
      rw [KmsCounter.fire] at hfire
      split at hfire <;> cases hfire
      rw [List.append_nil]
      exact ⟨h.persists, fun c hc => h.calls c (List.mem_of_mem_eraseIdx hc), h.issued⟩
  | stores i =>
      rw [KmsCounter.fire] at hfire
      split at hfire
      · next candidate ciphertextB64 hi =>
          cases hfire
          rw [List.append_nil]
          exact h.stores hi hok
      · exact nomatch hfire

end Runs

/-- A process that persists and restores, before its first call. -/
def started (disk : Option Str) : Process := ⟨.new ⟨true, true, false, none⟩, [], disk⟩

end KmsCounter

end BitGraph
