import BitGraph.Verifier.SingleSuccessor

/-!
Policies that demand more.

* **Options.** `TrustAnchors` is a policy as a caller gives it, where a list may be left out;
  `TrustAnchors.policy` is how the checks read it.
* **Order.** `Demands Q P`: `Q` demands everything `P` demands. `KeepsLists Q P`: no list of `P` that
  names something is narrowed to nothing.
* **Checks.** One lemma a kind of check says when it passes, and that a tighter one passes less.
* **Main result.** `tighten_rejects`: what is refused under `P` is refused under `Q`.
  `emptied_list_accepts`: a list narrowed to nothing constrains nothing.
-/

namespace BitGraph

open Js

namespace Verifier

/-! ### Options -/

/-- The options of a caller; a list that is left out is `none`. -/
structure TrustAnchors where
  requireEnforcement : Option Str := none
  allowedMeasurements : Option (List Str) := none
  allowedPublicKeys : Option (List Str) := none
  requireAttestation : Bool := false
  requireAttestationFormat : Option (List Str) := none
  minCounter : Option Str := none
  maxCounter : Option Str := none
  minTime : Option Number := none
  maxTime : Option Number := none
  requireEpochId : Bool := false
  requireActor : Bool := false
  allowedActorKeyIds : Option (List Str) := none
  allowedActorProviders : Option (List Str) := none
  allowedOrigins : Option (List Str) := none
  requireSlot : Bool := false
  requireAtomic : Bool := false

namespace TrustAnchors

/-- `policy.list !== undefined && policy.list.length > 0`: a list left out and an empty one read alike. -/
def policy (t : TrustAnchors) : VerificationPolicy where
  requireEnforcement := t.requireEnforcement
  allowedMeasurements := t.allowedMeasurements.getD []
  allowedPublicKeys := t.allowedPublicKeys.getD []
  requireAttestation := t.requireAttestation
  requireAttestationFormat := t.requireAttestationFormat.getD []
  minCounter := t.minCounter
  maxCounter := t.maxCounter
  minTime := t.minTime
  maxTime := t.maxTime
  requireEpochId := t.requireEpochId
  requireActor := t.requireActor
  allowedActorKeyIds := t.allowedActorKeyIds.getD []
  allowedActorProviders := t.allowedActorProviders.getD []
  allowedOrigins := t.allowedOrigins.getD []
  requireSlot := t.requireSlot
  requireAtomic := t.requireAtomic

/-- The allow-lists. -/
def lists (t : TrustAnchors) : List (Option (List Str)) :=
  [t.allowedMeasurements, t.allowedPublicKeys, t.requireAttestationFormat, t.allowedActorKeyIds,
    t.allowedActorProviders, t.allowedOrigins]

/-- The flags. -/
def flags (t : TrustAnchors) : List Bool :=
  [t.requireAttestation, t.requireEpochId, t.requireActor, t.requireSlot, t.requireAtomic]

end TrustAnchors

/-- The bounds a policy sets, each tightened or kept: `tighter q p` for what `q` is in place of `p`. -/
def Tightens {α : Type} (tighter : α → α → Prop) (q p : Option α) : Prop :=
  ∀ b ∈ p, ∃ c ∈ q, tighter c b

/-- One bound on the counter in place of another: the same text, or a number on its inner side. -/
def CounterBound (le : ℤ → ℤ → Prop) (c b : Str) : Prop :=
  c = b ∨ ∃ n m, bigInt? (.str c) = some n ∧ bigInt? (.str b) = some m ∧ le m n

/-- One bound on the time in place of another. -/
def TimeBound (lt : Number → Number → Bool) (c b : Number) : Prop := c = b ∨ lt b c = true

/-- `Q` demands everything `P` demands. -/
structure Demands (Q P : TrustAnchors) : Prop where
  enforcement : Tightens (· = ·) Q.requireEnforcement P.requireEnforcement
  lists : List.Forall₂ (Tightens (· ⊆ ·)) Q.lists P.lists
  flags : List.Forall₂ (fun q p => p = true → q = true) Q.flags P.flags
  minCounter : Tightens (CounterBound (· ≤ ·)) Q.minCounter P.minCounter
  maxCounter : Tightens (CounterBound (· ≥ ·)) Q.maxCounter P.maxCounter
  minTime : Tightens (TimeBound Number.lt) Q.minTime P.minTime
  maxTime : Tightens (TimeBound fun b c => Number.lt c b) Q.maxTime P.maxTime

/-- No list that names something is narrowed to nothing. -/
def KeepsLists (Q P : TrustAnchors) : Prop :=
  List.Forall₂ (fun q p => ∀ l ∈ p, l ≠ [] → ∀ m ∈ q, m ≠ []) Q.lists P.lists

/-! ### Checks -/

variable {proof v counter time : Value} {P Q : TrustAnchors}

lemma includes_mono {l m : List Str} (hlm : m ⊆ l) (h : includes m v = true) : includes l v = true := by
  cases v with
  | str s =>
    rw [includes, isText, List.contains_iff_mem] at h ⊢
    exact hlm h
  | _ => cases h

/-- One list in place of another, as the checks read them. -/
def Narrows (m l : List Str) : Prop := l ≠ [] → m ≠ [] ∧ m ⊆ l

lemma narrows_of_tightens {q p : Option (List Str)} (h : Tightens (· ⊆ ·) q p)
    (hkeep : ∀ l ∈ p, l ≠ [] → ∀ m ∈ q, m ≠ []) : Narrows (q.getD []) (p.getD []) := by
  intro hne
  cases p with
  | none => exact absurd rfl hne
  | some l =>
    obtain ⟨m, hm, hsub⟩ := h l rfl
    rw [Option.mem_def.mp hm]
    exact ⟨hkeep l rfl hne m hm, hsub⟩

lemma checkCounter_eq_pass {bound : Option Str} {name relation : Str} {outside : ℤ → ℤ → Bool} :
    checkCounter counter bound name outside relation = pass ↔ ∀ b ∈ bound, ∃ c m,
      bigInt? counter = some c ∧ bigInt? (.str b) = some m ∧ outside c m = false := by
  cases bound with
  | none => simp [checkCounter]
  | some b =>
    rw [checkCounter]
    cases hc : bigInt? counter with
    | none => simp [refuse, pass]
    | some c =>
      cases hm : bigInt? (.str b) with
      | none => simp [hm, refuse, pass]
      | some m => cases ho : outside c m <;> simp [hm, ho, refuse, pass]

lemma checkCounter_mono {q p : Option Str} {name relation : Str} {outside : ℤ → ℤ → Bool}
    {le : ℤ → ℤ → Prop} (htight : Tightens (CounterBound le) q p)
    (hmono : ∀ c m n, le m n → outside c n = false → outside c m = false)
    (h : checkCounter counter q name outside relation = pass) :
    checkCounter counter p name outside relation = pass := by
  rw [checkCounter_eq_pass] at h ⊢
  intro b hb
  obtain ⟨c, hc, hbound⟩ := htight b hb
  obtain ⟨i, n, hi, hn, hout⟩ := h c hc
  rcases hbound with rfl | ⟨n', m, hn', hm, hle⟩
  · exact ⟨i, n, hi, hn, hout⟩
  · obtain rfl := Option.some.inj (hn.symm.trans hn')
    exact ⟨i, m, hi, hm, hmono i m n hle hout⟩

lemma checkTime_eq_pass {bound : Option Number} {outside : Number → Number → Bool} {relation : Str} :
    checkTime time bound outside relation = pass ↔
      ∀ b ∈ bound, ∀ t, time = .num t → outside t b = false := by
  cases bound with
  | none => simp [checkTime]
  | some b =>
    cases time with
    | num t => cases ho : outside t b <;> simp [checkTime, ho, refuse, pass]
    | _ => simp [checkTime]

lemma numberLt_trans {a b c : Number} (hab : Number.lt a b = true) (hbc : Number.lt b c = true) :
    Number.lt a c = true := by
  cases a <;> cases b <;> cases c <;> simp_all [Number.lt]
  exact hab.trans hbc

lemma checkTime_mono {q p : Option Number} {relation : Str} {outside lt : Number → Number → Bool}
    (htight : Tightens (TimeBound lt) q p)
    (hmono : ∀ t b c, lt b c = true → outside t c = false → outside t b = false)
    (h : checkTime time q outside relation = pass) : checkTime time p outside relation = pass := by
  rw [checkTime_eq_pass] at h ⊢
  intro b hb t ht
  obtain ⟨c, hc, hbound⟩ := htight b hb
  rcases hbound with rfl | hlt
  · exact h c hc t ht
  · exact hmono t b c hlt (h c hc t ht)

lemma checkActor_eq_pass {allowed : List Str} {field absent : Str} {other : Value → Check}
    (hother : ∀ v, other v ≠ pass) :
    checkActor proof allowed field absent other = pass ↔ (allowed ≠ [] →
      proof.get (js "agency") ≠ .undefined ∧ ∃ actor v,
        (proof.get (js "agency")).prop (js "actor") = .ok actor ∧ actor.prop field = .ok v ∧
          includes allowed v = true) := by
  rw [checkActor]
  by_cases hnil : allowed = []
  · simp [hnil]
  rw [if_neg hnil]
  dsimp only
  by_cases hag : proof.get (js "agency") = .undefined
  · simp [hag, hnil, refuse, pass]
  rw [if_neg hag]
  cases hactor : (proof.get (js "agency")).prop (js "actor") with
  | error e => simp [hnil, pass]
  | ok actor =>
    cases hv : actor.prop field with
    | error e => simp [hnil, hv, pass]
    | ok v =>
      simp only [ok_bind]
      by_cases hin : includes allowed v = true
      · simp [hin, hag, hv, pass]
      · simp [hin, hnil, hv, hother]

lemma checkActor_mono {p q : List Str} {field absent : Str} {other : Value → Check}
    (hother : ∀ v, other v ≠ pass) (hnarrow : Narrows q p)
    (h : checkActor proof q field absent other = pass) :
    checkActor proof p field absent other = pass := by
  rw [checkActor_eq_pass hother] at h ⊢
  intro hne
  obtain ⟨hne', hsub⟩ := hnarrow hne
  obtain ⟨hag, actor, v, hactor, hv, hin⟩ := h hne'
  exact ⟨hag, actor, v, hactor, hv, includes_mono hsub hin⟩

lemma checkOrigins_eq_pass {allowed : List Str} :
    checkOrigins proof allowed = pass ↔ (allowed ≠ [] →
      proof.get (js "agency") ≠ .undefined ∧ ∃ auth,
        (proof.get (js "agency")).prop (js "authorization") = .ok auth ∧ isWebAuthn auth = .ok true ∧
          includes allowed ((originOf auth).getD .undefined) = true) := by
  rw [checkOrigins]
  by_cases hnil : allowed = []
  · simp [hnil]
  rw [if_neg hnil]
  dsimp only
  by_cases hag : proof.get (js "agency") = .undefined
  · simp [hag, hnil, refuse, pass]
  rw [if_neg hag]
  cases hauth : (proof.get (js "agency")).prop (js "authorization") with
  | error e => simp [hnil, pass]
  | ok auth =>
    cases hweb : isWebAuthn auth with
    | error e => simp [hnil, hweb, pass]
    | ok web =>
      simp only [ok_bind]
      cases web with
      | false => simp [hnil, hweb, refuse, pass]
      | true =>
        by_cases hin : includes allowed ((originOf auth).getD .undefined) = true
        · simp [hin, hag, hweb, pass]
        · set shown := if (originOf auth).getD .undefined = .undefined ∨
            (originOf auth).getD .undefined = .null then Value.str (js "(none)")
              else (originOf auth).getD .undefined
          cases shown.string <;> simp [hin, hnil, hweb, refuse, pass]

lemma checkOrigins_mono {p q : List Str} (hnarrow : Narrows q p) (h : checkOrigins proof q = pass) :
    checkOrigins proof p = pass := by
  rw [checkOrigins_eq_pass] at h ⊢
  intro hne
  obtain ⟨hne', hsub⟩ := hnarrow hne
  obtain ⟨hag, auth, hauth, hweb, hin⟩ := h hne'
  exact ⟨hag, auth, hauth, hweb, includes_mono hsub hin⟩

/-- A list that names the value, or constrains nothing. -/
lemma listed_mono {p q : List Str} (hnarrow : Narrows q p)
    (h : (q == [] || includes q v) = true) : (p == [] || includes p v) = true := by
  rw [Bool.or_eq_true, beq_iff_eq] at h ⊢
  by_cases hne : p = []
  · exact .inl hne
  · obtain ⟨hne', hsub⟩ := hnarrow hne
    exact .inr (includes_mono hsub (h.resolve_left hne'))

/-! ### Policies -/

lemma flag_mono {p q ok : Bool} (hpq : p = true → q = true) (h : (!q || ok) = true) :
    (!p || ok) = true := by
  cases p
  · rfl
  · rwa [hpq rfl] at h

lemma present_mono {p q : List Str} {ok : Bool} (hnarrow : Narrows q p)
    (h : (q == [] || ok) = true) : (p == [] || ok) = true := by
  rw [Bool.or_eq_true, beq_iff_eq] at h ⊢
  by_cases hne : p = []
  · exact .inl hne
  · exact .inr (h.resolve_left (hnarrow hne).1)

/-- A field that one of two bounds asks for. -/
lemma bounded_mono {α : Type} {p q p' q' : Option α} {tighter tighter' : α → α → Prop} {ok : Bool}
    (hpq : Tightens tighter q p) (hpq' : Tightens tighter' q' p')
    (h : (q.isNone && q'.isNone || ok) = true) : (p.isNone && p'.isNone || ok) = true := by
  have hnone : ∀ {p q : Option α} {tighter : α → α → Prop}, Tightens tighter q p → q.isNone = true →
      p.isNone = true := by
    intro p q tighter hpq hq
    cases p with
    | none => rfl
    | some b =>
      obtain ⟨c, hc, -⟩ := hpq b rfl
      rw [Option.mem_def.mp hc] at hq
      cases hq
  rw [Bool.or_eq_true, Bool.and_eq_true] at h ⊢
  exact h.imp_left fun h => ⟨hnone hpq h.1, hnone hpq' h.2⟩

/-- What passes under the tighter policy passes under the other. -/
lemma checkPolicy_mono (hdem : Demands Q P) (hkeep : KeepsLists Q P)
    (h : checkPolicy proof Q.policy = pass) : checkPolicy proof P.policy = pass := by
  have hlists := hdem.lists
  have hflags := hdem.flags
  simp only [TrustAnchors.lists, List.forall₂_cons, List.forall₂_nil_right_iff, and_true] at hlists
  simp only [TrustAnchors.flags, List.forall₂_cons, List.forall₂_nil_right_iff, and_true] at hflags
  simp only [KeepsLists, TrustAnchors.lists, List.forall₂_cons, List.forall₂_nil_right_iff,
    and_true] at hkeep
  obtain ⟨hmeasurements, hkeys, hformats, hids, hproviders, horigins⟩ := hlists
  obtain ⟨kmeasurements, kkeys, kformats, kids, kproviders, korigins⟩ := hkeep
  obtain ⟨hattestation, hepoch, hactor, hslot, hatomic⟩ := hflags
  simp only [checkPolicy, andThen_eq_pass, firstRefusal_eq_pass, List.forall_mem_cons,
    List.not_mem_nil, false_imp_iff, implies_true, and_true, TrustAnchors.policy] at h ⊢
  obtain ⟨⟨e₁, e₂, e₃, e₄, e₅, e₆, e₇⟩, emin, emax, etime, emint, emaxt, ⟨e₈, e₉⟩, eids, eproviders,
    eorigins, e₁₀, e₁₁⟩ := h
  have hmin : ∀ c m n : ℤ, m ≤ n → decide (c < n) = false → decide (c < m) = false := by
    intro c m n hle h
    rw [decide_eq_false_iff_not] at h ⊢
    omega
  have hmax : ∀ c m n : ℤ, m ≥ n → decide (n < c) = false → decide (m < c) = false := by
    intro c m n hle h
    rw [decide_eq_false_iff_not] at h ⊢
    omega
  have hmint : ∀ t b c, Number.lt b c = true → Number.lt t c = false → Number.lt t b = false := by
    intro t b c hbc h
    by_contra htb
    rw [numberLt_trans (Bool.not_eq_false _ ▸ htb) hbc] at h
    cases h
  have hmaxt : ∀ t b c, Number.lt c b = true → Number.lt c t = false → Number.lt b t = false := by
    intro t b c hcb h
    by_contra hbt
    rw [numberLt_trans hcb (Bool.not_eq_false _ ▸ hbt)] at h
    cases h
  refine ⟨⟨?_, ?_, ?_, ?_, ?_, ?_, ?_⟩, ?_, ?_, ?_, ?_, ?_, ⟨?_, ?_⟩, ?_, ?_, ?_, ?_, ?_⟩
  · rw [Option.all_eq_true] at e₁ ⊢
    intro t ht
    obtain ⟨u, hu, rfl⟩ := hdem.enforcement t ht
    exact e₁ u hu
  · exact listed_mono (narrows_of_tightens hmeasurements kmeasurements) e₂
  · exact listed_mono (narrows_of_tightens hkeys kkeys) e₃
  · exact flag_mono hattestation e₄
  · exact present_mono (narrows_of_tightens hformats kformats) e₅
  · exact listed_mono (narrows_of_tightens hformats kformats) e₆
  · exact bounded_mono hdem.minCounter hdem.maxCounter e₇
  · exact checkCounter_mono hdem.minCounter hmin emin
  · exact checkCounter_mono hdem.maxCounter hmax emax
  · exact bounded_mono hdem.minTime hdem.maxTime etime
  · exact checkTime_mono hdem.minTime hmint emint
  · exact checkTime_mono hdem.maxTime hmaxt emaxt
  · exact flag_mono hepoch e₈
  · exact flag_mono hactor e₉
  · exact checkActor_mono (fun v => by simp [refuse, pass]) (narrows_of_tightens hids kids) eids
  · refine checkActor_mono (fun v => ?_) (narrows_of_tightens hproviders kproviders) eproviders
    cases v.string <;> simp [refuse, pass]
  · exact checkOrigins_mono (narrows_of_tightens horigins korigins) eorigins
  · exact flag_mono hslot e₁₀
  · exact flag_mono hatomic e₁₁

/-! ### Verification -/

/-- A verification under the options, over bytes or without them. -/
def verifyUnder (C : Crypto) (proof : Value) (bytes : Option Bytes) (t : TrustAnchors)
    (context : VerificationContext) : Check :=
  (runChecks C proof bytes (some t.policy) context).1

/-- **Tightening.** Where no list that names something is narrowed to nothing, what is refused under a
policy is refused under one that demands everything it demands. -/
theorem tighten_rejects (C : Crypto) (proof : Value) (bytes : Option Bytes)
    (context : VerificationContext) (P Q : TrustAnchors) (hdem : Demands Q P) (hkeep : KeepsLists Q P)
    (h : verifyUnder C proof bytes P context ≠ pass) : verifyUnder C proof bytes Q context ≠ pass := by
  intro hq
  obtain ⟨hproof, hpolicy, consumption, hlink, -⟩ := runChecks_accepted hq
  have hp : checkPolicy proof P.policy = pass := checkPolicy_mono hdem hkeep hpolicy
  refine h ?_
  rw [verifyUnder, runChecks, hproof, pass]
  dsimp only
  rw [hlink]
  dsimp only
  rw [Option.map_some, Option.getD_some, hp]
  rfl

/-- Policies that allow only some measurements. -/
def allowing (measurements : List Str) : TrustAnchors where
  allowedMeasurements := some measurements

lemma demands_allowing {l m : List Str} (h : m ⊆ l) : Demands (allowing m) (allowing l) where
  enforcement := by simp [Tightens, allowing]
  lists := by simpa [Tightens, TrustAnchors.lists, allowing] using h
  flags := by simp [TrustAnchors.flags, allowing]
  minCounter := by simp [Tightens, allowing]
  maxCounter := by simp [Tightens, allowing]
  minTime := by simp [Tightens, allowing]
  maxTime := by simp [Tightens, allowing]

/-- The proof of the empty file, made by a development image. -/
lemma followed_runs : ∀ m ∈ [[], [js "prod"], [js "prod", js "next"]],
    (verifyUnder devCrypto followed.proof (some []) (allowing m) createVerificationContext = pass
      ↔ m = []) := by
  decide +kernel

/-- A shorter list of other images refuses it as the longer one does. -/
theorem tighten_rejects_measurement :
    verifyUnder devCrypto followed.proof (some []) (allowing [js "prod"]) createVerificationContext
      ≠ pass := by
  refine tighten_rejects devCrypto followed.proof (some []) createVerificationContext
    (allowing [js "prod", js "next"]) _ (demands_allowing (by simp)) ?_ ?_
  · simp [KeepsLists, TrustAnchors.lists, allowing]
  · intro h
    exact absurd ((followed_runs _ (by simp)).mp h) (by simp)

/-- A list of one image, narrowed to nothing, accepts what it refused. -/
theorem emptied_list_accepts :
    ¬ ∀ (C : Crypto) (proof : Value) (bytes : Option Bytes) (context : VerificationContext)
      (P Q : TrustAnchors), Demands Q P → verifyUnder C proof bytes P context ≠ pass →
        verifyUnder C proof bytes Q context ≠ pass := by
  intro h
  have haccepted := (followed_runs [] (by simp)).mpr rfl
  refine h devCrypto followed.proof (some []) createVerificationContext (allowing [js "prod"])
    (allowing []) (demands_allowing (by simp)) (fun hp => ?_) haccepted
  exact absurd ((followed_runs _ (by simp)).mp hp) (by simp)

end Verifier

end BitGraph
