import BitGraph.Server.Steps

/-!
The opening floor of an epoch, `bindEpochFloor`.

* **The policy.** `opensFirst`: until `bindEpochFloor` has returned no other section is queued, and
  no bind of its own is executed without being answered.
* **Stages.** `Stage` says how far the opening is: before the answer to `init`, between two
  attempts, in an attempt whose bind is made or not, or over.
* **The first record.** `opening_floor_first`: under the policy the floor has counts 1 and 2 and
  no previous record. A commit that passes the guard while `init` is under way is bound ahead of
  it (`commit_before_floor`).
-/

namespace BitGraph.Server

open Js

/-- Until `bindEpochFloor` has returned no other section is queued, and a bind of its own is
executed only while it is in flight and then not given up. -/
def opensFirst (e : Event) (s : System) : Bool :=
  match e with
  | .enter _ _ => s.life = .serving || s.life = .unopened
  | .stop note => note.isNone || s.life = .serving || s.life = .unopened
  | .execute i _ =>
    match s.sent[i]? with
    | some (.bind .opening _) => s.inFlight = some i
    | _ => true
  | .fail =>
    match s.inFlight with
    | none => true
    | some i =>
      match s.sent[i]? with
      | some (.bind .opening _) => s.done.all fun x => x.1 != i
      | _ => true
  | _ => true

/-- The first record of an epoch. -/
structure Proof.IsFirst (p : Proof) : Prop where
  slotCounter : p.slotCounter = 1
  counter : p.counter = 2
  prevB64 : p.prevB64 = none

/-- How far the opening of a fresh epoch is. -/
inductive Stage (ls : List Label) (s : System) : Prop
  /-- `init` is not answered yet. -/
  | before (hlife : s.life = .off ∨ s.life = .initializing) (hsec : s.sections = [])
      (hrec : records ls = [])
      (hinit : ∀ i n, (i, .init n) ∈ s.done → n = s.enclave.counter)
      (hsent : ∀ c ∈ s.sent, c.isBind = true → ∃ d, c = .bind .opening d)
  /-- An attempt is being prepared. -/
  | between (hlife : s.life = .starting) (hsec : s.sections = []) (hrec : records ls = [])
      (hcount : s.enclave.counter = 0)
      (hsent : ∀ c ∈ s.sent, c.isBind = true → ∃ d, c = .bind .opening d)
  /-- An attempt whose bind is not executed yet, or was refused. -/
  | trying {d : Str} {f : Option Proof} (hlife : s.life = .attempting)
      (hsec : s.sections = [.opening d]) (hphase : s.phase = .ready f ∨ s.phase = .bindCall f)
      (hrec : records ls = []) (hcount : s.enclave.counter = 0)
      (hsent : ∀ c ∈ s.sent, c.isBind = true → ∃ d, c = .bind .opening d)
  /-- An attempt whose bind is executed and not yet answered. -/
  | made {d : Str} {f : Option Proof} {i : ℕ} {p : Proof} (hlife : s.life = .attempting)
      (hsec : s.sections = [.opening d]) (hphase : s.phase = .bindCall f)
      (hrec : records ls = [p]) (hin : s.inFlight = some i) (hdone : (i, .proof p) ∈ s.done)
      (hfirst : p.IsFirst) (hsent : ∀ c ∈ s.sent, c.isBind = true → ∃ d, c = .bind .opening d)
  /-- No attempt is to come. -/
  | after (hlife : s.life = .serving ∨ s.life = .unopened ∨ s.life = .exited)
      (hsec : ∀ d, .opening d ∉ s.sections)

/-- What holds after every event when the opening is kept free. -/
structure Opens (computeChainHash : Proof → Str) (ls : List Label) (s : System) : Prop where
  sane : Sane s
  chained : Chained computeChainHash ls s
  sound : s.enclave.Sound
  stage : Stage ls s
  opened : ∀ p, .opened p ∈ ls → p.IsFirst

section Open

variable {cfg : Config} {computeChainHash : Proof → Str} {ls ls' new : List Label}
  {s s' : System}

namespace Stage

/-- The same life, sections and calls. -/
lemma congr (h : Stage ls s) (hrec : records ls' = records ls) (hlife : s'.life = s.life)
    (hsec : s'.sections = s.sections) (hphase : s'.phase = s.phase) (hsent : s'.sent = s.sent)
    (hdone : s'.done = s.done) (hin : s'.inFlight = s.inFlight)
    (hcount : s'.enclave.counter = s.enclave.counter) : Stage ls' s' := by
  cases h with
  | before h₁ h₂ h₃ h₄ h₅ =>
      exact .before (hlife ▸ h₁) (hsec ▸ h₂) (hrec ▸ h₃) (by rw [hdone, hcount]; exact h₄) (hsent ▸ h₅)
  | between h₁ h₂ h₃ h₄ h₅ =>
      exact .between (hlife ▸ h₁) (hsec ▸ h₂) (hrec ▸ h₃) (hcount ▸ h₄) (hsent ▸ h₅)
  | trying h₁ h₂ h₃ h₄ h₅ h₆ =>
      exact .trying (hlife ▸ h₁) (hsec ▸ h₂) (by rw [hphase]; exact h₃) (hrec ▸ h₄) (hcount ▸ h₅)
        (hsent ▸ h₆)
  | made h₁ h₂ h₃ h₄ h₅ h₆ h₇ h₈ =>
      exact .made (hlife ▸ h₁) (hsec ▸ h₂) (hphase ▸ h₃) (hrec ▸ h₄) (hin ▸ h₅) (hdone ▸ h₆) h₇
        (hsent ▸ h₈)
  | after h₁ h₂ => exact .after (by rw [hlife]; exact h₁) (hsec ▸ h₂)

/-- Where `bindEpochFloor` has returned or never runs, a section of another kind may be queued. -/
lemma queue (h : Stage ls s) (hlate : s.life = .serving ∨ s.life = .unopened)
    (hrec : records ls' = records ls) {sec : Section} (hother : ∀ d, sec ≠ .opening d)
    (hlife : s'.life = s.life) (hsec : s'.sections = s.sections ++ [sec]) : Stage ls' s' := by
  cases h with
  | before h₁ _ _ _ _ => rcases hlate with h | h <;> rw [h] at h₁ <;> simp at h₁
  | between h₁ _ _ _ _ => rcases hlate with h | h <;> rw [h] at h₁ <;> cases h₁
  | trying h₁ _ _ _ _ _ => rcases hlate with h | h <;> rw [h] at h₁ <;> cases h₁
  | made h₁ _ _ _ _ _ _ _ => rcases hlate with h | h <;> rw [h] at h₁ <;> cases h₁
  | after h₁ h₂ =>
      refine .after (hlife ▸ h₁) fun d hd => ?_
      rw [hsec] at hd
      rcases List.mem_append.mp hd with hd | hd
      · exact h₂ d hd
      · exact hother d (List.mem_singleton.mp hd).symm

/-- A section that reads a block is no attempt. -/
lemma rephase (h : Stage ls s) (hrec : records ls' = records ls) (hphase : s.phase = .reading)
    (hlife : s'.life = s.life) (hsec : s'.sections = s.sections) (hsent : s'.sent = s.sent)
    (hdone : s'.done = s.done) (hcount : s'.enclave.counter = s.enclave.counter) :
    Stage ls' s' := by
  cases h with
  | before h₁ h₂ h₃ h₄ h₅ =>
      exact .before (hlife ▸ h₁) (hsec ▸ h₂) (hrec ▸ h₃) (by rw [hdone, hcount]; exact h₄) (hsent ▸ h₅)
  | between h₁ h₂ h₃ h₄ h₅ =>
      exact .between (hlife ▸ h₁) (hsec ▸ h₂) (hrec ▸ h₃) (hcount ▸ h₄) (hsent ▸ h₅)
  | trying _ _ h₃ _ _ _ => rcases h₃ with h | h <;> rw [hphase] at h <;> cases h
  | made _ _ h₃ _ _ _ _ _ => rw [hphase] at h₃; cases h₃
  | after h₁ h₂ => exact .after (by rw [hlife]; exact h₁) (hsec ▸ h₂)

/-- Before the opening is over, only an attempt's bind is awaited. -/
lemma awaits (h : Stage ls s) {c : Call} (hc : c ∈ s.awaited) :
    (∃ d f, s.life = .attempting ∧ s.phase = .bindCall f ∧ c = .bind .opening d) ∨
      s.life = .serving ∨ s.life = .unopened ∨ s.life = .exited := by
  obtain ⟨sec, rest, hsec, hcall⟩ := mem_awaited_cases hc
  have hattempt {d : Str} (hlife : s.life = .attempting) (hone : s.sections = [.opening d])
      (hphase : ∃ f, s.phase = .ready f ∨ s.phase = .bindCall f) :
      ∃ d f, s.life = .attempting ∧ s.phase = .bindCall f ∧ c = .bind .opening d := by
    obtain rfl : sec = .opening d := by rw [hone] at hsec; cases hsec; rfl
    obtain ⟨d', hp, -⟩ | ⟨f, hp, rfl⟩ := hcall
    · obtain ⟨f, hf | hf⟩ := hphase <;> rw [hp] at hf <;> cases hf
    · exact ⟨d, f, hlife, hp, rfl⟩
  cases h with
  | before _ h₂ _ _ _ => rw [h₂] at hsec; cases hsec
  | between _ h₂ _ _ _ => rw [h₂] at hsec; cases hsec
  | trying h₁ h₂ h₃ _ _ _ => exact .inl (hattempt h₁ h₂ ⟨_, h₃⟩)
  | made h₁ h₂ h₃ _ _ _ _ _ => exact .inl (hattempt h₁ h₂ ⟨_, .inr h₃⟩)
  | after h₁ _ => exact .inr h₁

/-- A call put on the wire before the opening is over is an attempt's, or no bind. -/
lemma transmit (h : Stage ls s) (hs : Sane s) (hrec : records ls' = records ls)
    (hfree : s.inFlight = none) {c : Call} {cs : List Call} (hc : s.waiting = c :: cs) :
    Stage ls' { s with sent := s.sent ++ [c], waiting := cs, inFlight := some s.sent.length } := by
  have hsent (hsent : ∀ c ∈ s.sent, c.isBind = true → ∃ d, c = .bind .opening d)
      (hlate : ¬ (s.life = .serving ∨ s.life = .unopened ∨ s.life = .exited)) :
      ∀ b ∈ s.sent ++ [c], b.isBind = true → ∃ d, b = .bind .opening d := by
    intro b hb hbind
    rcases List.mem_append.mp hb with hb | hb
    · exact hsent b hb hbind
    · obtain rfl := List.mem_singleton.mp hb
      have hwaits := hs.mem_awaited_of_waiting (hc ▸ List.mem_cons_self) hbind
      obtain ⟨d, f, -, -, heq⟩ := (h.awaits hwaits).resolve_right hlate
      exact ⟨d, heq⟩
  cases h with
  | before h₁ h₂ h₃ h₄ h₅ =>
      exact .before h₁ h₂ (hrec ▸ h₃) h₄ (hsent h₅ (by rcases h₁ with h | h <;> simp [h]))
  | between h₁ h₂ h₃ h₄ h₅ =>
      exact .between h₁ h₂ (hrec ▸ h₃) h₄ (hsent h₅ (by simp [h₁]))
  | trying h₁ h₂ h₃ h₄ h₅ h₆ =>
      exact .trying h₁ h₂ h₃ (hrec ▸ h₄) h₅ (hsent h₆ (by simp [h₁]))
  | made _ _ _ _ h₅ _ _ _ => rw [hfree] at h₅; cases h₅
  | after h₁ h₂ => exact .after h₁ h₂

/-- An execution before the opening is over makes the attempt's record or none. -/
lemma execute (h : Stage ls s) (hs : Sane s) (hsound : s.enclave.Sound)
    {i : ℕ} {c : Call} {drawn : Option Drawn} {answer : Answer} {enclave : Enclave}
    (hc : s.sent[i]? = some c) (hnew : ∀ x ∈ s.done, x.1 ≠ i)
    (hrun : handleRequest computeChainHash s.enclave drawn c = (answer, enclave))
    (hok : opensFirst (.execute i drawn) s = true) :
    Stage (ls ++ boundLabels c answer)
      { s with enclave := enclave, done := s.done ++ [(i, answer)] } := by
  have hmem : c ∈ s.sent := List.mem_of_getElem? hc
  rcases handleRequest_cases hrun with ⟨kind, d, dr, rfl, rfl, rfl⟩ | ⟨hnone, hcount, -⟩
  · have hrec : records (ls ++ boundLabels (.bind kind d) (.proof (s.enclave.record d dr)))
        = records ls ++ [s.enclave.record d dr] := records_append _ _
    -- the bind is the attempt's, in flight
    have hflight (hsent : ∀ c ∈ s.sent, c.isBind = true → ∃ d, c = .bind .opening d)
        (hlate : ¬ (s.life = .serving ∨ s.life = .unopened ∨ s.life = .exited)) :
        s.inFlight = some i ∧ s.life = .attempting ∧ ∃ f, s.phase = .bindCall f := by
      obtain ⟨d', heq⟩ := hsent _ hmem rfl
      have hin : s.inFlight = some i := by
        rw [heq] at hc
        simpa [opensFirst, hc] using hok
      obtain ⟨_, f, hlife, hphase, -⟩ :=
        (h.awaits (hs.mem_awaited_of_inFlight hin hc rfl)).resolve_right hlate
      exact ⟨hin, hlife, f, hphase⟩
    cases h with
    | before h₁ _ _ _ h₅ =>
        have hlife := (hflight h₅ (by rcases h₁ with h | h <;> simp [h])).2.1
        rw [hlife] at h₁
        simp at h₁
    | between h₁ _ _ _ h₅ =>
        have hlife := (hflight h₅ (by simp [h₁])).2.1
        rw [h₁] at hlife
        cases hlife
    | trying h₁ h₂ _ h₄ h₅ h₆ =>
        obtain ⟨hin, -, f, hphase⟩ := hflight h₆ (by simp [h₁])
        exact .made h₁ h₂ hphase (by rw [hrec, h₄]; rfl) hin
          (List.mem_append_right _ List.mem_cons_self)
          ⟨by simp [Enclave.record, h₅], by simp [Enclave.record, h₅], hsound h₅⟩ h₆
    | made h₁ _ _ _ h₅ h₆ _ h₈ =>
        have hin := (hflight h₈ (by simp [h₁])).1
        exact absurd (Option.some.inj (h₅.symm.trans hin)) (hnew _ h₆)
    | after h₁ h₂ => exact .after h₁ h₂
  · have hrec : records (ls ++ boundLabels c answer) = records ls := by
      rw [boundLabels_of_none hnone, List.append_nil]
    cases h with
    | before h₁ h₂ h₃ h₄ h₅ =>
        refine .before h₁ h₂ (hrec ▸ h₃) (fun j n hj => ?_) h₅
        rw [hcount]
        rcases List.mem_append.mp hj with hj | hj
        · exact h₄ j n hj
        · obtain rfl : answer = .init n := (congrArg Prod.snd (List.mem_singleton.mp hj)).symm
          exact init_counter hrun
    | between h₁ h₂ h₃ h₄ h₅ => exact .between h₁ h₂ (hrec ▸ h₃) (hcount ▸ h₄) h₅
    | trying h₁ h₂ h₃ h₄ h₅ h₆ => exact .trying h₁ h₂ h₃ (hrec ▸ h₄) (hcount ▸ h₅) h₆
    | made h₁ h₂ h₃ h₄ h₅ h₆ h₇ h₈ =>
        exact .made h₁ h₂ h₃ (hrec ▸ h₄) h₅ (List.mem_append_left _ h₆) h₇ h₈
    | after h₁ h₂ => exact .after h₁ h₂

/-- The end of a call: an attempt that got its record had the first. -/
lemma settled (h : Stage ls s) (hs : Sane s) (hchained : Chained computeChainHash ls s)
    {i : ℕ} {c : Call} {answer : Option Answer} (hin : s.inFlight = some i)
    (hc : s.sent[i]? = some c) (ha : ∀ a, answer = some a → (i, a) ∈ s.done)
    (hlost : ∀ d, answer = none → c = .bind .opening d → ∀ x ∈ s.done, x.1 ≠ i)
    (hsettled : Settled cfg s c answer new s') :
    Stage (ls ++ new) s' ∧ ∀ p, .opened p ∈ new → p.IsFirst := by
  have hshown {l : Label} (hl : l ∈ new) := hsettled.mem hl
  have hnew : records new = [] := records_eq_nil fun kind p hmem => by
    obtain ⟨_, _, _, ⟨_, heq, _⟩ | ⟨_, _, heq, _⟩⟩ := hshown hmem <;> cases heq
  have hrec : records (ls ++ new) = records ls := by rw [records_append, hnew, List.append_nil]
  cases hsettled with
  | @quiet life hb hlife =>
      refine ⟨?_, by simp⟩
      rcases hlife with rfl | ⟨hinit, rfl⟩
      · cases h with
        | before h₁ h₂ h₃ h₄ h₅ => exact .before h₁ h₂ (hrec ▸ h₃) h₄ h₅
        | between h₁ h₂ h₃ h₄ h₅ => exact .between h₁ h₂ (hrec ▸ h₃) h₄ h₅
        | trying h₁ h₂ h₃ h₄ h₅ h₆ => exact .trying h₁ h₂ h₃ (hrec ▸ h₄) h₅ h₆
        | made h₁ h₂ h₃ h₄ h₅ h₆ h₇ h₈ =>
            -- the call in flight was the attempt's bind
            obtain rfl := Option.some.inj (hin.symm.trans h₅)
            obtain ⟨kind, d, hd⟩ := hchained.sent _ h₆ _ rfl
            rw [Option.some.inj (hc.symm.trans hd)] at hb
            cases hb
        | after h₁ h₂ => exact .after h₁ h₂
      · cases h with
        | before h₁ h₂ h₃ h₄ h₅ =>
            by_cases hstart : afterInit cfg (initCounter answer) = .starting
            · refine .between hstart h₂ (hrec ▸ h₃) ?_ h₅
              obtain ⟨n, hn, hzero⟩ := counter_of_starting hstart
              rw [← h₄ i n (ha _ hn), hzero]
            · exact .after (afterInit_late hstart) (by simp [h₂])
        | between h₁ _ _ _ _ => rw [hinit] at h₁; cases h₁
        | trying h₁ _ _ _ _ _ => rw [hinit] at h₁; cases h₁
        | made h₁ _ _ _ _ _ _ _ => rw [hinit] at h₁; cases h₁
        | after h₁ _ => rw [hinit] at h₁; simp at h₁
  | @floorBound sec rest d a hb hsec hphase heq =>
      refine ⟨?_, by simp⟩
      cases h with
      | before _ h₂ _ _ _ => rw [h₂] at hsec; cases hsec
      | between _ h₂ _ _ _ => rw [h₂] at hsec; cases hsec
      | trying _ _ h₃ _ _ _ => rcases h₃ with h | h <;> rw [hphase] at h <;> cases h
      | made _ _ h₃ _ _ _ _ _ => rw [hphase] at h₃; cases h₃
      | after h₁ h₂ => exact .after h₁ h₂
  | @ended sec rest floor result _ _ hb hsec hresult hend =>
      cases h with
      | before _ h₂ _ _ _ => rw [h₂] at hsec; cases hsec
      | between _ h₂ _ _ _ => rw [h₂] at hsec; cases hsec
      | @trying d f h₁ h₂ h₃ h₄ h₅ h₆ =>
          obtain ⟨rfl, rfl⟩ : Section.opening d = sec ∧ [] = rest := by
            rw [h₂] at hsec
            exact List.cons.inj hsec
          have hnone : result = none := by
            rcases hresult with ⟨-, hnone⟩ | ⟨-, hbind⟩
            · exact hnone
            · cases hres : result with
              | none => rfl
              | some p =>
                  obtain ⟨a, haa, hap⟩ := Option.bind_eq_some_iff.mp (hbind.symm.trans hres)
                  have hp : p ∈ records ls := by
                    rw [hchained.log]
                    exact List.mem_filterMap.mpr ⟨_, ha a haa, hap⟩
                  rw [h₄] at hp
                  cases hp
          subst hnone
          cases hend
          exact ⟨.between rfl (by simp [System.finish, h₂]) (hrec ▸ h₄) h₅ h₆, by simp⟩
      | @made d f j p h₁ h₂ h₃ h₄ h₅ h₆ h₇ h₈ =>
          obtain ⟨rfl, rfl⟩ : Section.opening d = sec ∧ [] = rest := by
            rw [h₂] at hsec
            exact List.cons.inj hsec
          obtain rfl := Option.some.inj (hin.symm.trans h₅)
          have hsome : result = some p := by
            cases answer with
            | none =>
                obtain ⟨kind, d', hd'⟩ := hchained.sent _ h₆ _ rfl
                obtain rfl := Option.some.inj (hc.symm.trans hd')
                obtain ⟨d'', heq⟩ := h₈ _ (List.mem_of_getElem? hc) rfl
                exact absurd rfl (hlost d'' rfl heq _ h₆)
            | some a =>
                obtain rfl := hs.eq_of_mem (ha a rfl) h₆
                rcases hresult with ⟨hnone, -⟩ | ⟨-, hbind⟩
                · cases hnone
                · exact hbind
          subst hsome
          cases hend
          refine ⟨.after (.inl rfl) (by simp [System.finish, h₂]), fun q hq => ?_⟩
          obtain rfl : q = p := by simpa using hq
          exact h₇
      | after h₁ h₂ =>
          obtain ⟨requests, life, heq, hlife⟩ :=
            afterSection_eq { s with inFlight := none }.finish sec floor result
          have hother : ∀ d, sec ≠ .opening d := fun d hd => h₂ d (by rw [hsec, hd]; simp)
          rw [hend] at heq
          obtain rfl : s' = _ := heq
          obtain rfl := hlife.resolve_right fun ⟨d, hd⟩ => hother d hd
          refine ⟨.after h₁ fun d hd => h₂ d (List.mem_of_mem_tail hd), fun q hq => ?_⟩
          obtain ⟨_, _, _, ⟨_, hbad, _⟩ | ⟨d, rest', -, hsec'⟩⟩ := hshown hq
          · cases hbad
          · rw [hsec] at hsec'
            exact absurd (List.cons.inj hsec').1 (hother d)

end Stage

/-- Every event keeps what holds when the opening is kept free. -/
lemma Opens.move {e : Event} (h : Opens computeChainHash ls s)
    (hm : Moves cfg computeChainHash s e new s') (hok : opensFirst e s = true) :
    Opens computeChainHash (ls ++ new) s' := by
  have hsane := h.sane.move hm
  have hchained := h.chained.move hm
  have hquiet (henclave : s'.enclave = s.enclave) (hnew : new = [])
      (hstage : records (ls ++ new) = records ls → Stage (ls ++ new) s') :
      Opens computeChainHash (ls ++ new) s' := by
    subst hnew
    have hnil : ls ++ [] = ls := List.append_nil ls
    exact ⟨hsane, hchained, henclave ▸ h.sound, hstage (by rw [hnil]), hnil.symm ▸ h.opened⟩
  have hsettled {c : Call} {answer : Option Answer} (hs : Settled cfg s c answer new s')
      (hstage : Stage (ls ++ new) s' ∧ ∀ p, .opened p ∈ new → p.IsFirst) :
      Opens computeChainHash (ls ++ new) s' := by
    refine ⟨hsane, hchained, hs.frame.1 ▸ h.sound, hstage.1, fun p hp => ?_⟩
    rcases List.mem_append.mp hp with hp | hp
    · exact h.opened p hp
    · exact hstage.2 p hp
  cases hm with
  | listens hlife =>
      refine hquiet rfl rfl fun hrec => ?_
      cases h.stage with
      | before h₁ h₂ h₃ h₄ h₅ => exact .before (.inr rfl) h₂ (hrec ▸ h₃) h₄ h₅
      | between h₁ _ _ _ _ => rw [hlife] at h₁; cases h₁
      | trying h₁ _ _ _ _ _ => rw [hlife] at h₁; cases h₁
      | made h₁ _ _ _ _ _ _ _ => rw [hlife] at h₁; cases h₁
      | after h₁ _ => rw [hlife] at h₁; simp at h₁
  | asks _ => exact hquiet rfl rfl fun hrec => h.stage.congr hrec rfl rfl rfl rfl rfl rfl rfl
  | accepts _ => exact hquiet rfl rfl fun hrec => h.stage.congr hrec rfl rfl rfl rfl rfl rfl rfl
  | stops => exact hquiet rfl rfl fun hrec => h.stage.congr hrec rfl rfl rfl rfl rfl rfl rfl
  | enters _ =>
      exact hquiet rfl rfl fun hrec =>
        h.stage.queue (by simpa [opensFirst] using hok) hrec (fun _ heq => by cases heq) rfl rfl
  | polls _ hlife =>
      exact hquiet rfl rfl fun hrec =>
        h.stage.queue (.inl hlife) hrec (fun _ heq => by cases heq) rfl rfl
  | closes _ _ =>
      exact hquiet rfl rfl fun hrec =>
        h.stage.queue (by simpa [opensFirst] using hok) hrec (fun _ heq => by cases heq) rfl rfl
  | @attempts d hlife =>
      refine hquiet rfl rfl fun hrec => ?_
      cases h.stage with
      | between h₁ h₂ h₃ h₄ h₅ =>
          have hsec : s.sections ++ [.opening d] = [.opening d] := by rw [h₂, List.nil_append]
          exact .trying rfl hsec (.inl (if_pos h₂)) (hrec ▸ h₃) h₄ h₅
      | before h₁ _ _ _ _ => rw [hlife] at h₁; simp at h₁
      | trying h₁ _ _ _ _ _ => rw [hlife] at h₁; cases h₁
      | made h₁ _ _ _ _ _ _ _ => rw [hlife] at h₁; cases h₁
      | after h₁ _ => rw [hlife] at h₁; simp at h₁
  | givesUp hlife =>
      refine hquiet rfl rfl fun hrec => .after (.inl rfl) ?_
      cases h.stage with
      | between h₁ h₂ _ _ _ => simp [h₂]
      | before h₁ _ _ _ _ => rw [hlife] at h₁; simp at h₁
      | trying h₁ _ _ _ _ _ => rw [hlife] at h₁; cases h₁
      | made h₁ _ _ _ _ _ _ _ => rw [hlife] at h₁; cases h₁
      | after h₁ _ => rw [hlife] at h₁; simp at h₁
  | skips hphase => exact hquiet rfl rfl fun hrec => h.stage.rephase hrec hphase rfl rfl rfl rfl rfl
  | readsBlock _ hphase =>
      exact hquiet rfl rfl fun hrec => h.stage.rephase hrec hphase rfl rfl rfl rfl rfl
  | binds hsec hphase =>
      refine hquiet rfl rfl fun hrec => ?_
      cases h.stage with
      | before h₁ h₂ h₃ h₄ h₅ => exact .before h₁ h₂ (hrec ▸ h₃) h₄ h₅
      | between h₁ h₂ h₃ h₄ h₅ => exact .between h₁ h₂ (hrec ▸ h₃) h₄ h₅
      | trying h₁ h₂ h₃ h₄ h₅ h₆ => exact .trying h₁ h₂ (.inr rfl) (hrec ▸ h₄) h₅ h₆
      | made _ _ h₃ _ _ _ _ _ => rw [hphase] at h₃; cases h₃
      | after h₁ h₂ => exact .after h₁ h₂
  | transmits hfree hc => exact hquiet rfl rfl fun hrec => h.stage.transmit h.sane hrec hfree hc
  | executes hc hnew hrun hls =>
      subst hls
      refine ⟨hsane, hchained, ?_, h.stage.execute h.sane h.sound hc hnew hrun hok, fun p hp => ?_⟩
      · rcases handleRequest_cases hrun with ⟨kind, d, dr, -, -, rfl⟩ | ⟨-, hcount, hlast⟩
        · exact fun hzero => absurd hzero (by simp)
        · rw [Enclave.Sound, hcount, hlast]
          exact h.sound
      · rcases List.mem_append.mp hp with hp | hp
        · exact h.opened p hp
        · obtain ⟨_, _, heq⟩ := eq_bound_of_mem hp
          cases heq
  | @settles i c a _ _ hin hc ha hend =>
      have hs := settleCall_settled hend
      have hans (b : Answer) (heq : some a = some b) : (i, b) ∈ s.done := Option.some.inj heq ▸ ha
      exact hsettled hs (h.stage.settled h.sane h.chained hin hc hans (fun _ heq => by cases heq) hs)
  | @fails i c _ _ hin hc hend =>
      have hs := settleCall_settled hend
      have hans (b : Answer) (heq : none = some b) : (i, b) ∈ s.done := by cases heq
      refine hsettled hs (h.stage.settled h.sane h.chained hin hc hans (fun d _ hd x hx => ?_) hs)
      rw [opensFirst, hin] at hok
      dsimp only at hok
      rw [hc, hd] at hok
      simpa using List.all_eq_true.mp hok x hx
  | exits _ => exact hquiet rfl rfl fun _ => .after (.inr (.inr rfl)) nofun

end Open

/-- **The opening floor is first.** When no other section is queued until `bindEpochFloor` has
returned and none of its binds is executed without being answered, the floor it binds has counts
1 and 2 and no previous record. -/
theorem opening_floor_first {cfg : Config} {computeChainHash : Proof → Str} {ls : List Label}
    {s : System} {u : Unit} (h : (machine cfg computeChainHash opensFirst).Reach ls s u)
    {floor : Proof} (hfloor : .opened floor ∈ ls) :
    floor.slotCounter = 1 ∧ floor.counter = 2 ∧ floor.prevB64 = none := by
  have hinv : Opens computeChainHash ls s := by
    refine reach_induction (fun enclave hsound => ?_) (fun hI hok hm => hI.move hm hok) h
    exact ⟨sane_init enclave, chained_init computeChainHash enclave, hsound,
      .before (.inl rfl) rfl rfl (by simp [System.init]) (by simp [System.init]), by simp⟩
  have hfirst := hinv.opened floor hfloor
  exact ⟨hfirst.slotCounter, hfirst.counter, hfirst.prevB64⟩

/-- The parent comes up over a fresh enclave and binds the epoch's floor. -/
def openingRun : List Event := startup ++ [.attempt (sampleDigest 5)] ++ oneBind 2 none

theorem opening_floor_first_fresh : ∃ ls s,
    (machine ⟨false, true⟩ sampleHash opensFirst).Reach ls s () ∧
      .opened (sampleRecord (sampleDigest 5) 2 none) ∈ ls ∧
      (sampleRecord (sampleDigest 5) 2 none).slotCounter = 1 ∧
      (sampleRecord (sampleDigest 5) 2 none).counter = 2 ∧
      (sampleRecord (sampleDigest 5) 2 none).prevB64 = none := by
  have hrun : (runs ⟨false, true⟩ sampleHash opensFirst openingRun freshEnclave).map Prod.fst
      = some [.bound .opening (sampleRecord (sampleDigest 5) 2 none),
        .opened (sampleRecord (sampleDigest 5) 2 none)] := by decide
  obtain ⟨⟨ls, s, u⟩, hruns, hls⟩ := Option.map_eq_some_iff.mp hrun
  obtain rfl : ls = _ := hls
  have hreach := reach_of_runs freshEnclave_sound hruns
  exact ⟨_, s, hreach, by simp, opening_floor_first hreach (by simp)⟩

/-- A commit passes the guard while `init` is under way, and its bind waits behind it. -/
def earlyRun : List Event :=
  [.listen, .transmit, .execute 0 none, .settle, .transmit, .accept [sampleDigest 1],
    .enter 0 false, .run none, .execute 1 none, .settle, .transmit,
    .execute 2 (some sampleDrawn), .settle, .attempt (sampleDigest 5)] ++ oneBind 3 none

theorem commit_before_floor : ¬ ∀ (cfg : Config) (computeChainHash : Proof → Str)
    (ls : List Label) (s : System), cfg.timeline = false →
      (machine cfg computeChainHash fun _ _ => true).Reach ls s () → ∀ floor : Proof,
        .opened floor ∈ ls → floor.slotCounter = 1 ∧ floor.counter = 2 ∧ floor.prevB64 = none := by
  intro h
  have hrun : (runs ⟨false, true⟩ sampleHash (fun _ _ => true) earlyRun freshEnclave).map Prod.fst
      = some [.bound .file fileRecord,
        .bound .opening (sampleRecord (sampleDigest 5) 4 (some fileRecord)),
        .opened (sampleRecord (sampleDigest 5) 4 (some fileRecord))] := by decide
  obtain ⟨⟨ls, s, u⟩, hruns, hls⟩ := Option.map_eq_some_iff.mp hrun
  obtain rfl : ls = _ := hls
  have hreach := reach_of_runs freshEnclave_sound hruns
  have hcount := (h _ _ _ s rfl hreach (sampleRecord (sampleDigest 5) 4 (some fileRecord))
    (by simp)).2.1
  exact absurd hcount (by decide)

end BitGraph.Server
