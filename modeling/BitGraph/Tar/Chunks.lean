import BitGraph.Tar

/-!
The chunk reader refines a reader of one byte string.

* `Sound` is what the reader keeps: no empty chunk, a position inside the first, a right count.
  `rest` are the bytes that are still to come, whatever chunks they come in.
* `readExact_ok`, `readSome_ok` and `drain_ok`: what is read is taken off `rest`.
-/

namespace BitGraph

open Js Layout

namespace Tar

namespace ChunkReader

/-- The bytes that were pulled and not given out. -/
def buffered (r : ChunkReader) : Bytes := r.chunks.flatten.drop r.head

/-- The bytes that are still to come. -/
def rest (r : ChunkReader) : Bytes := r.buffered ++ r.source.flatten

/-- A position in a row of chunks. -/
structure Placed (chunks : List Bytes) (head : ℕ) : Prop where
  nonempty : ∀ c ∈ chunks, c ≠ []
  inside : ∀ c ∈ chunks.head?, head < c.length
  atEnd : chunks = [] → head = 0

/-- A reader without a cap whose count is right. -/
structure Sound (r : ChunkReader) : Prop where
  placed : Placed r.chunks r.head
  available : r.available = r.buffered.length
  uncapped : r.maxTotalBytes = none

variable {r : ChunkReader} {n : ℕ}

lemma sound_new (source : List Bytes) : Sound (new source none) where
  placed := ⟨fun c hc => (nomatch hc), fun c hc => (nomatch hc), fun _ => rfl⟩
  available := rfl
  uncapped := rfl

lemma rest_new (source : List Bytes) (limit : Option ℕ) : (new source limit).rest = source.flatten :=
  rfl

lemma Placed.head_le {chunks : List Bytes} {head : ℕ} (h : Placed chunks head) :
    head ≤ chunks.flatten.length := by
  cases chunks with
  | nil => rw [h.atEnd rfl]; exact Nat.zero_le _
  | cons c chunks =>
      have hlt := h.inside c rfl
      rw [List.flatten_cons, List.length_append]
      omega

/-- One more chunk at the end. -/
lemma Placed.push {chunks : List Bytes} {head : ℕ} (h : Placed chunks head) {c : Bytes}
    (hc : 0 < c.length) : Placed (chunks ++ [c]) head where
  nonempty d hd := by
    rcases List.mem_append.mp hd with hd | hd
    · exact h.nonempty d hd
    · rw [List.mem_singleton.mp hd]
      exact List.ne_nil_of_length_pos hc
  inside d hd := by
    cases chunks with
    | nil =>
        rw [h.atEnd rfl]
        obtain rfl : c = d := Option.some.inj hd
        exact hc
    | cons e chunks => exact h.inside d hd
  atEnd hnil := absurd hnil (by simp)

/-- Pulling a chunk moves it from the source to the buffer. -/
lemma fill_ok (h : Sound r) {chunk : Bytes} {source : List Bytes} (hs : r.source = chunk :: source) :
    ∃ r', r.fill = .ok (true, r') ∧ Sound r' ∧ r'.rest = r.rest ∧ r'.source = source := by
  rw [fill, hs]
  dsimp only
  split
  · next hpos =>
      rw [h.uncapped]
      refine ⟨_, rfl, ⟨h.placed.push hpos, ?_, rfl⟩, ?_, rfl⟩
      · dsimp only [buffered]
        rw [h.available, buffered, List.flatten_append, List.drop_append_of_le_length h.placed.head_le]
        simp
      · dsimp only [rest, buffered]
        rw [hs, List.flatten_append, List.drop_append_of_le_length h.placed.head_le]
        simp
  · next hpos =>
      have hnil : chunk = [] := List.eq_nil_of_length_eq_zero (by omega)
      refine ⟨_, rfl, ⟨h.placed, h.available, h.uncapped⟩, ?_, rfl⟩
      rw [rest, rest, hs, hnil]
      rfl

/-- Pulling on gives enough bytes, or all there are. -/
lemma fillTo_ok (h : Sound r) {fuel : ℕ} (hfuel : r.source.length < fuel) :
    ∃ r', fillTo n fuel r = .ok r' ∧ Sound r' ∧ r'.rest = r.rest
      ∧ (n ≤ r'.buffered.length ∨ r'.source = []) := by
  induction fuel generalizing r with
  | zero => omega
  | succ fuel ih =>
      rw [fillTo]
      split
      · next hle =>
          rw [h.available] at hle
          exact ⟨r, rfl, h, rfl, Or.inl hle⟩
      · cases hs : r.source with
        | nil =>
            have hfill : r.fill = .ok (false, r) := by rw [fill, hs]
            rw [hfill]
            exact ⟨r, rfl, h, rfl, Or.inr hs⟩
        | cons chunk source =>
            obtain ⟨r', hfill, hr', hrest, hsource⟩ := fill_ok h hs
            rw [hfill]
            rw [hs, List.length_cons] at hfuel
            obtain ⟨r'', hfillTo, hr'', hrest', hend⟩ := ih hr' (by rw [hsource]; omega)
            exact ⟨r'', hfillTo, hr'', hrest'.trans hrest, hend⟩

/-- Bytes are taken off the buffer in order. -/
lemma takeLoop_eq {chunks : List Bytes} {head : ℕ} (h : Placed chunks head)
    (hn : n ≤ (chunks.flatten.drop head).length) :
    (takeLoop n chunks head).1 = (chunks.flatten.drop head).take n
      ∧ (takeLoop n chunks head).2.1.flatten.drop (takeLoop n chunks head).2.2
        = (chunks.flatten.drop head).drop n
      ∧ Placed (takeLoop n chunks head).2.1 (takeLoop n chunks head).2.2 := by
  induction chunks generalizing n head with
  | nil =>
      have hhead := h.atEnd rfl
      subst hhead
      obtain rfl : n = 0 := by simpa using hn
      exact ⟨rfl, rfl, h⟩
  | cons first chunks ih =>
      have hlt := h.inside first rfl
      rw [takeLoop]
      by_cases hn0 : n = 0
      · subst hn0
        rw [if_pos rfl]
        exact ⟨rfl, rfl, h⟩
      rw [if_neg hn0]
      dsimp only
      have hdrop : (first :: chunks).flatten.drop head = first.drop head ++ chunks.flatten := by
        rw [List.flatten_cons, List.drop_append_of_le_length hlt.le]
      have hlen : (first.drop head).length = first.length - head := List.length_drop
      by_cases hle : first.length - head ≤ n
      · rw [Nat.min_eq_right hle, if_pos (by omega)]
        have hfield : field first head (first.length - head) = first.drop head := by
          rw [field, ← hlen, List.take_length]
        have hplaced : Placed chunks 0 := by
          refine ⟨fun c hc => h.nonempty c (List.mem_cons_of_mem _ hc), fun c hc => ?_, fun _ => rfl⟩
          exact List.length_pos_of_ne_nil
            (h.nonempty c (List.mem_cons_of_mem _ (List.mem_of_mem_head? hc)))
        have hn' : n - (first.length - head) ≤ (chunks.flatten.drop 0).length := by
          rw [hdrop, List.length_append, hlen] at hn
          rw [List.drop_zero]
          omega
        obtain ⟨hout, hleft, hplaced'⟩ := ih hplaced hn'
        rw [List.drop_zero] at hout hleft
        have htake : (first.drop head).take n = first.drop head :=
          List.take_of_length_le (by omega)
        have hdropAll : (first.drop head).drop n = [] := List.drop_eq_nil_of_le (by omega)
        refine ⟨?_, ?_, hplaced'⟩
        · rw [hfield, hout, hdrop, List.take_append, hlen, htake]
        · rw [hleft, hdrop, List.drop_append, hlen, hdropAll, List.nil_append]
      · have hin : head + n < first.length := by omega
        have hshort : n ≤ (first.drop head).length := by omega
        rw [Nat.min_eq_left (by omega), if_neg (by omega)]
        refine ⟨?_, ?_, ⟨h.nonempty, fun c hc => ?_, fun hnil => absurd hnil (by simp)⟩⟩
        · rw [hdrop, List.take_append_of_le_length hshort]
          rfl
        · rw [hdrop, List.flatten_cons, List.drop_append_of_le_length hin.le,
            List.drop_append_of_le_length hshort, List.drop_drop]
        · obtain rfl : first = c := Option.some.inj hc
          exact hin

lemma take_ok (h : Sound r) (hn : n ≤ r.buffered.length) :
    (r.take n).1 = r.rest.take n ∧ Sound (r.take n).2 ∧ (r.take n).2.rest = r.rest.drop n := by
  obtain ⟨hout, hleft, hplaced⟩ := takeLoop_eq h.placed hn
  have hbuf : (r.take n).2.buffered = r.buffered.drop n := hleft
  refine ⟨?_, ⟨hplaced, ?_, h.uncapped⟩, ?_⟩
  · rw [take, hout, rest, List.take_append_of_le_length hn]
    rfl
  · rw [hbuf, List.length_drop, ← h.available]
    rfl
  · rw [rest, hbuf, rest, List.drop_append_of_le_length hn]
    rfl

/-- Enough bytes are read exactly. -/
theorem readExact_ok (h : Sound r) (hn : n ≤ r.rest.length) :
    ∃ r', r.readExact n = .ok (some (r.rest.take n), r') ∧ Sound r' ∧ r'.rest = r.rest.drop n := by
  obtain ⟨r', hfill, hr', hrest, hend⟩ := @fillTo_ok r n h _ (Nat.lt_succ_self _)
  have hbuf : n ≤ r'.buffered.length := by
    rcases hend with hle | hnil
    · exact hle
    · rw [← hrest, rest, hnil] at hn
      simpa using hn
  obtain ⟨hout, hsound, hleft⟩ := take_ok hr' hbuf
  rw [hrest] at hout hleft
  refine ⟨(r'.take n).2, ?_, hsound, hleft⟩
  rw [readExact, hfill, ok_bind, if_neg (by rw [hr'.available]; omega)]
  dsimp only
  rw [hout]

/-- Moving on inside the first chunk, or past it. -/
lemma advance_ok (h : Sound r) {first : Bytes} {chunks : List Bytes}
    (hc : r.chunks = first :: chunks) {k : ℕ} (hk : k ≤ (first.drop r.head).length) {r' : ChunkReader}
    (hr' : r' = if r.head + k = first.length then
        { r with head := 0, available := r.available - k, chunks := chunks }
      else { r with head := r.head + k, available := r.available - k }) :
    Sound r' ∧ r'.rest = r.rest.drop k := by
  have hlt := h.placed.inside first (by rw [hc]; rfl)
  rw [List.length_drop] at hk
  have hdrop : r.buffered = first.drop r.head ++ chunks.flatten := by
    rw [buffered, hc, List.flatten_cons, List.drop_append_of_le_length hlt.le]
  have hbuf : r'.buffered = r.buffered.drop k := by
    have hshort : k ≤ (first.drop r.head).length := by
      rw [List.length_drop]
      exact hk
    rw [hdrop, List.drop_append_of_le_length hshort, List.drop_drop, hr']
    split
    · next heq =>
        rw [heq, List.drop_length]
        rfl
    · have hin : r.head + k ≤ first.length := by omega
      rw [buffered, hc, List.flatten_cons, List.drop_append_of_le_length hin]
  have hplaced : Placed r'.chunks r'.head := by
    have hnonempty : ∀ c ∈ chunks, c ≠ [] := fun c hm =>
      h.placed.nonempty c (hc ▸ List.mem_cons_of_mem _ hm)
    rw [hr']
    split
    · exact ⟨hnonempty, fun c hm => List.length_pos_of_ne_nil
        (hnonempty c (List.mem_of_mem_head? hm)), fun _ => rfl⟩
    · next hne =>
        dsimp only
        rw [hc]
        refine ⟨hc ▸ h.placed.nonempty, fun c hm => ?_, fun hnil => absurd hnil (by simp)⟩
        obtain rfl : first = c := Option.some.inj hm
        omega
  have hsource : r'.source = r.source := by
    rw [hr']
    split <;> rfl
  refine ⟨⟨hplaced, ?_, ?_⟩, ?_⟩
  · rw [hbuf, List.length_drop, ← h.available, hr']
    split <;> rfl
  · rw [← h.uncapped, hr']
    split <;> rfl
  · have hle : k ≤ r.buffered.length := by
      rw [hdrop, List.length_append, List.length_drop]
      omega
    rw [rest, hbuf, hsource, rest, List.drop_append_of_le_length hle]

/-- A part of what is to come. -/
theorem readSome_ok (h : Sound r) {max : ℕ} (hmax : 0 < max) (hne : r.rest ≠ []) :
    ∃ k r', r.readSome max = .ok (some (r.rest.take k), r') ∧ 0 < k ∧ k ≤ max
      ∧ k ≤ r.rest.length ∧ Sound r' ∧ r'.rest = r.rest.drop k := by
  obtain ⟨r', hfill, hr', hrest, hend⟩ := @fillTo_ok r 1 h _ (Nat.lt_succ_self _)
  have hbuf : 1 ≤ r'.buffered.length := by
    rcases hend with hle | hnil
    · exact hle
    · rw [← hrest, rest, hnil, List.flatten_nil, List.append_nil] at hne
      exact List.length_pos_of_ne_nil hne
  rw [readSome, hfill, ok_bind, ← hrest]
  cases hc : r'.chunks with
  | nil =>
      rw [buffered, hc] at hbuf
      simp at hbuf
  | cons first chunks =>
      have hlt := hr'.placed.inside first (by rw [hc]; rfl)
      have hdrop : r'.buffered = first.drop r'.head ++ chunks.flatten := by
        rw [buffered, hc, List.flatten_cons, List.drop_append_of_le_length hlt.le]
      have hlen : (first.drop r'.head).length = first.length - r'.head := List.length_drop
      have hk : min max (first.length - r'.head) ≤ (first.drop r'.head).length := by omega
      have hout : field first r'.head (min max (first.length - r'.head))
          = r'.rest.take (min max (first.length - r'.head)) := by
        rw [rest, hdrop, List.append_assoc, List.take_append_of_le_length hk]
        rfl
      obtain ⟨hsound, hleft⟩ := advance_ok hr' hc hk rfl
      refine ⟨min max (first.length - r'.head), _, ?_, by omega, by omega, ?_, hsound, hleft⟩
      · dsimp only
        rw [hout]
        split <;> simp_all
      · rw [rest, hdrop, List.length_append, List.length_append]
        omega

/-- As many bytes as asked for are drained. -/
theorem drain_ok (ends : Thrown) (h : Sound r) {fuel : ℕ} (hn : n ≤ r.rest.length)
    (hfuel : n ≤ fuel) : ∃ r', drain ends fuel n r = .ok (r.rest.take n, r') ∧ Sound r'
      ∧ r'.rest = r.rest.drop n := by
  induction fuel generalizing r n with
  | zero =>
      obtain rfl : n = 0 := by omega
      exact ⟨r, rfl, h, rfl⟩
  | succ fuel ih =>
      rw [drain]
      by_cases hn0 : n = 0
      · subst hn0
        exact ⟨r, rfl, h, rfl⟩
      have hne : r.rest ≠ [] := by
        intro hnil
        rw [hnil] at hn
        exact hn0 (Nat.le_zero.mp hn)
      obtain ⟨k, r', hread, hk0, hkn, hk, hr', hrest⟩ := readSome_ok h (Nat.pos_of_ne_zero hn0) hne
      have hlen : (r.rest.take k).length = k := by
        rw [List.length_take]
        omega
      have hn' : n - k ≤ r'.rest.length := by
        rw [hrest, List.length_drop]
        omega
      obtain ⟨r'', hdrain, hr'', hrest'⟩ := ih hr' hn' (by omega)
      refine ⟨r'', ?_, hr'', ?_⟩
      · rw [if_neg hn0, hread, ok_bind]
        dsimp only
        rw [hlen, hdrain, ok_bind, hrest, ← List.take_add]
        congr 3
        omega
      · rw [hrest', hrest, List.drop_drop]
        congr 1
        omega

lemma skip_ok (h : Sound r) (hn : n ≤ r.rest.length) :
    ∃ r', r.skip n = .ok r' ∧ Sound r' ∧ r'.rest = r.rest.drop n := by
  obtain ⟨r', hdrain, hr', hrest⟩ := drain_ok truncated h hn le_rfl
  exact ⟨r', by rw [skip, hdrain, ok_bind], hr', hrest⟩

lemma readBody_ok (h : Sound r) (hn : n ≤ r.rest.length) :
    ∃ r', r.readBody n = .ok (r.rest.take n, r') ∧ Sound r' ∧ r'.rest = r.rest.drop n :=
  drain_ok truncatedBody h hn le_rfl

lemma readAll_ok (h : Sound r) (hn : n ≤ r.rest.length) :
    ∃ r', r.readAll n = .ok (r.rest.take n, r') ∧ Sound r' ∧ r'.rest = r.rest.drop n := by
  rw [readAll]
  by_cases hn0 : n = 0
  · subst hn0
    exact ⟨r, rfl, h, rfl⟩
  · obtain ⟨r', hread, hr', hrest⟩ := readExact_ok h hn
    exact ⟨r', by rw [if_neg hn0, hread, ok_bind], hr', hrest⟩

end ChunkReader

end Tar

end BitGraph
