import BitGraph.Tar.Chunks
import BitGraph.Tar.Paths

/-!
What was written is read back, in any chunks.

* **Position.** `Before`: the reader stands before some bytes once it has skipped its padding.
* **Steps.** `readLoop_end`, `readLoop_entry` and `readLoop_pax` for the parts of an archive.
* **Files.** `Storable` is what a path and a content must be; `readLoop_file` reads one file.
* `readTarEntries_writeTarArchive`: the files come back if and only if all of them are storable.
-/

namespace BitGraph

open Js Layout

namespace Tar

/-! ### Position -/

/-- The reader stands before these bytes, once its padding is skipped. -/
structure Before (st : State) (r : ChunkReader) (bytes : Bytes) : Prop where
  sound : r.Sound
  padding : st.padding ≤ r.rest.length
  rest : r.rest.drop st.padding = bytes

/-- Between two files: nothing is pending. -/
structure Fresh (st : State) : Prop where
  pax : st.pendingPax = none
  globalPax : st.globalPax = none
  longName : st.pendingLongName = none

variable {st : State} {r : ChunkReader} {bytes : Bytes}

/-- A block is taken from what stands ahead. -/
lemma readExact_block (h : Before st r bytes) (hlen : 512 ≤ bytes.length) :
    ∃ r₁ r', r.skip st.padding = .ok r₁ ∧ r₁.readExact BLOCK = .ok (some (bytes.take 512), r')
      ∧ r'.Sound ∧ r'.rest = bytes.drop 512 := by
  obtain ⟨r₁, hskip, hr₁, hrest⟩ := ChunkReader.skip_ok h.sound h.padding
  rw [h.rest] at hrest
  obtain ⟨r', hread, hr', hrest'⟩ := ChunkReader.readExact_ok (n := BLOCK) hr₁ (by rwa [hrest])
  rw [hrest] at hread hrest'
  exact ⟨r₁, r', hskip, hread, hr', hrest'⟩

lemma isZeroBlock_zeros (n : ℕ) : isZeroBlock (zeros n) = true :=
  List.all_eq_true.mpr fun _ hb => decide_eq_true (List.mem_replicate.mp hb).2

/-- A zero block ends the reading. -/
lemma readLoop_end (h : Before st r (zeros BLOCK ++ bytes)) (fuel : ℕ) :
    readLoop none (fuel + 1) st r = ⟨[], .done⟩ := by
  have hlen : (zeros BLOCK).length = 512 := List.length_replicate
  obtain ⟨r₁, r', hskip, hread, -, -⟩ := readExact_block h (by rw [List.length_append]; omega)
  have hround : readRound none st r = .ok .ended := by
    rw [readRound, hskip, ok_bind, hread, ok_bind, List.take_left' hlen]
    dsimp only
    rw [isZeroBlock_zeros, if_pos rfl]
  rw [readLoop, hround]

/-- The state that a header is read in. -/
def State.counted (st : State) : State := { st with entryCount := st.entryCount + 1, padding := 0 }

/-- A header is read as what it says. -/
lemma readRound_header {block : Bytes} (h : Before st r (block ++ bytes)) (hlen : block.length = 512)
    (hzero : isZeroBlock block = false) :
    ∃ r', readRound none st r = readHeader none st.counted block r' ∧ r'.Sound
      ∧ r'.rest = bytes := by
  obtain ⟨r₁, r', hskip, hread, hr', hrest⟩ :=
    readExact_block h (by rw [List.length_append]; omega)
  rw [List.take_left' hlen] at hread
  rw [List.drop_left' hlen] at hrest
  refine ⟨r', ?_, hr', hrest⟩
  rw [readRound, hskip, ok_bind, hread, ok_bind]
  dsimp only
  rw [hzero]
  rfl

/-! ### Entries -/

/-- A header of a file, with its content behind. -/
lemma readLoop_entry {name pre : Str} {content : Bytes} (fuel : ℕ)
    (hsize : st.pendingPax.bind (·.get (js "size")) = none) (hglobal : st.globalPax = none)
    (hlong : st.pendingLongName = none)
    (h : Before st r (writeHeader name pre content.length 48 ++ (padBlock content ++ bytes))) :
    ∃ e st' r', readLoop none (fuel + 1) st r
        = ⟨e :: (readLoop none fuel st' r').entries, (readLoop none fuel st' r').finish⟩
      ∧ e.path = (st.pendingPax.bind (·.get (js "path"))).getD (storedName name pre)
      ∧ (e.content = content ↔ content.length < 8 ^ 11)
      ∧ (content.length < 8 ^ 11 → Fresh st' ∧ Before st' r' bytes) := by
  obtain ⟨v, hparse, hlt, hfit, -⟩ := parseHeader_writeHeader name pre content.length 48
  obtain ⟨r₁, hround, hr₁, hrest⟩ :=
    readRound_header h length_writeHeader (isZeroBlock_writeHeader (by decide))
  have hle : v ≤ content.length := by
    by_cases hc : content.length < 8 ^ 11
    · rw [hfit hc]
    · omega
  have hlen : v ≤ r₁.rest.length := by
    rw [hrest, padBlock, List.length_append, List.length_append]
    omega
  obtain ⟨r', hbody, hr', hrest'⟩ := ChunkReader.readBody_ok hr₁ hlen
  have hcontent : r₁.rest.take v = content.take v := by
    rw [hrest, padBlock, List.append_assoc, List.take_append_of_le_length hle]
  have hpath : entryPath st.counted (storedName name pre)
      = (st.pendingPax.bind (·.get (js "path"))).getD (storedName name pre) := by
    rw [entryPath, State.counted, hlong, hglobal]
    simp
  have hentry : readRound none st r = .ok (.entry
      ⟨entryPath st.counted (storedName name pre), v, .file, js "0", content.take v⟩
      { st.counted with pendingPax := none, pendingLongName := none, padding := padOf v } r') := by
    have hentrySize : entrySize st.counted v = .ok v := by
      rw [entrySize, State.counted]
      dsimp only
      rw [hsize, hglobal]
      rfl
    have hregular : ∀ t ∈ [js "x", js "g", js "L", js "K"],
        ([UInt16.ofNat (UInt8.toNat 48)] : Str) ≠ t := by decide
    rw [hround, readHeader, hparse, ok_bind]
    dsimp only
    rw [if_neg (hregular _ (by simp)), if_neg (hregular _ (by simp)), if_neg (hregular _ (by simp)),
      if_neg (hregular _ (by simp)), readEntry, hentrySize, ok_bind, hbody, ok_bind, hcontent]
    rfl
  refine ⟨_, _, r', by rw [readLoop, hentry], hpath, ?_, fun hc => ?_⟩
  · constructor
    · intro heq
      have hlen' := congrArg List.length heq
      rw [List.length_take] at hlen'
      omega
    · intro hc
      exact List.take_of_length_le (hfit hc).ge
  · have hv := hfit hc
    have hdrop : r'.rest = zeros (padOf content.length) ++ bytes := by
      rw [hrest', hrest, padBlock, List.append_assoc, hv, List.drop_left]
    have hpad : (zeros (padOf content.length)).length = padOf content.length :=
      List.length_replicate
    refine ⟨⟨rfl, hglobal, rfl⟩, hr', ?_, ?_⟩
    · dsimp only
      rw [hdrop, List.length_append, hpad, hv]
      omega
    · dsimp only
      rw [hdrop, hv, List.drop_left' hpad]

/-- A PAX record of a path: it is pending then, or too long to be sized. -/
lemma readLoop_pax {name path : Str} (fuel : ℕ) (hst : Fresh st)
    (h : Before st r (writeHeader name [] (paxPathRecord path).length 120
      ++ (padBlock (paxPathRecord path) ++ bytes))) :
    (statedLength path < 8 ^ 11 → ∃ st' r', readLoop none (fuel + 1) st r = readLoop none fuel st' r'
        ∧ st'.pendingPax = some [(js "path", respell path)] ∧ st'.globalPax = none
        ∧ st'.pendingLongName = none ∧ Before st' r' bytes)
      ∧ (8 ^ 11 ≤ statedLength path → ∃ e, readLoop none (fuel + 1) st r = ⟨[], .threw e⟩) := by
  obtain ⟨v, hparse, hlt, hfit, hlong⟩ :=
    parseHeader_writeHeader name [] (paxPathRecord path).length 120
  obtain ⟨r₁, hround, hr₁, hrest⟩ :=
    readRound_header h length_writeHeader (isZeroBlock_writeHeader (by decide))
  rw [length_paxPathRecord] at hfit hlong
  have hle : v ≤ (paxPathRecord path).length := by
    rw [length_paxPathRecord]
    by_cases hc : statedLength path < 8 ^ 11
    · rw [hfit hc]
    · omega
  have hlen : v ≤ r₁.rest.length := by
    rw [hrest, padBlock, List.length_append, List.length_append]
    omega
  obtain ⟨r₂, hread, hr₂, hrest₂⟩ := ChunkReader.readAll_ok hr₁ hlen
  have hdata : r₁.rest.take v = (paxPathRecord path).take v := by
    rw [hrest, padBlock, List.append_assoc, List.take_append_of_le_length hle]
  rw [hdata] at hread
  have hheader : readRound none st r = (do
      let r' ← r₂.skip (padOf v)
      let records ← parsePaxRecords ((paxPathRecord path).take v)
      .ok (.skipped { st.counted with pendingPax := some records } r')) := by
    have htype : ([UInt16.ofNat (UInt8.toNat 120)] : Str) = js "x" := rfl
    rw [hround, readHeader, hparse, ok_bind]
    dsimp only
    rw [if_pos htype, readMetadata, guardMetadata]
    dsimp only [Option.filter]
    rw [ok_bind, hread, ok_bind]
    cases r₂.skip (padOf v) with
    | error e => rfl
    | ok r' => rfl
  constructor
  · intro hshort
    have hv := hfit hshort
    have hpad : (zeros (padOf (statedLength path))).length = padOf (statedLength path) :=
      List.length_replicate
    have hrest₂' : r₂.rest = zeros (padOf (statedLength path)) ++ bytes := by
      rw [hrest₂, hrest, padBlock, List.append_assoc, length_paxPathRecord, hv,
        List.drop_left' (length_paxPathRecord path)]
    obtain ⟨r', hskip, hr', hrest'⟩ := ChunkReader.skip_ok (n := padOf v) hr₂ (by
      rw [hrest₂', List.length_append, hpad, hv]
      omega)
    rw [hrest₂', hv, List.drop_left' hpad] at hrest'
    have hall : (paxPathRecord path).take v = paxPathRecord path :=
      List.take_of_length_le (by rw [length_paxPathRecord, hv])
    rw [hskip, ok_bind, hall, parsePaxRecords_paxPathRecord (hshort.trans (by norm_num)),
      ok_bind] at hheader
    refine ⟨{ st.counted with pendingPax := some [(js "path", respell path)] }, r', ?_, rfl,
      hst.globalPax, hst.longName, hr', Nat.zero_le _, ?_⟩
    · rw [readLoop, hheader]
    · rw [← hrest']
      rfl
  · intro htoo
    obtain ⟨e, he⟩ := @parsePaxRecords_cut path v (hlong htoo) (hlt.trans (by norm_num))
      (by omega)
    rw [he] at hheader
    cases hskip : r₂.skip (padOf v) with
    | error e' =>
        rw [hskip] at hheader
        exact ⟨e', by rw [readLoop, hheader]; rfl⟩
    | ok r' =>
        rw [hskip] at hheader
        exact ⟨e, by rw [readLoop, hheader]; rfl⟩

/-! ### Files -/

/-- What the archive keeps of a file: its path has no lone surrogate, no text that stands in a
header field begins with a byte order mark, and path and content fit the octal size fields. -/
def Storable (f : TarWriteFile) : Prop :=
  wellFormed f.path = true ∧ (∀ t ∈ headerTexts f.path, t.head? ≠ some 0xFEFF)
    ∧ (utf8Encode f.path).length + 17 < 8 ^ 11 ∧ f.content.length < 8 ^ 11

/-- A path that stands in the header itself. -/
lemma readLoop_ustar {f : TarWriteFile} {name pre : Str} (fuel : ℕ) (hst : Fresh st)
    (hpath : storedName name pre = f.path
      ↔ wellFormed f.path = true ∧ ∀ t ∈ headerTexts f.path, t.head? ≠ some 0xFEFF)
    (hshort : (utf8Encode f.path).length ≤ 256)
    (h : Before st r (writeHeader name pre f.content.length 48 ++ (padBlock f.content ++ bytes))) :
    ∃ e st' r', readLoop none (fuel + 1) st r
        = ⟨e :: (readLoop none fuel st' r').entries, (readLoop none fuel st' r').finish⟩
      ∧ (e.path = f.path ∧ e.content = f.content ↔ Storable f)
      ∧ (Storable f → Fresh st' ∧ Before st' r' bytes) := by
  have hnone : st.pendingPax.bind (·.get (js "size")) = none := by
    rw [hst.pax]
    rfl
  obtain ⟨e, st', r', hread, hp, hcontent, hnext⟩ :=
    readLoop_entry fuel hnone hst.globalPax hst.longName h
  rw [hst.pax, Option.bind_none, Option.getD_none] at hp
  refine ⟨e, st', r', hread, ?_, fun hstore => hnext hstore.2.2.2⟩
  rw [hp, hpath, hcontent, Storable, and_assoc]
  have hfits : (utf8Encode f.path).length + 17 < 8 ^ 11 := by omega
  tauto

/-- A path in a record of its own. -/
lemma readLoop_record {f : TarWriteFile} {name short : Str} (fuel : ℕ) (hst : Fresh st)
    (hnone : headerTexts f.path = [])
    (h : Before st r (writeHeader name [] (paxPathRecord f.path).length 120
      ++ (padBlock (paxPathRecord f.path) ++ (writeHeader short [] f.content.length 48
        ++ (padBlock f.content ++ bytes))))) :
    (∃ e, readLoop none (fuel + 2) st r = ⟨[], .threw e⟩ ∧ ¬ Storable f)
      ∨ ∃ e st' r', readLoop none (fuel + 2) st r
          = ⟨e :: (readLoop none fuel st' r').entries, (readLoop none fuel st' r').finish⟩
        ∧ (e.path = f.path ∧ e.content = f.content ↔ Storable f)
        ∧ (Storable f → Fresh st' ∧ Before st' r' bytes) := by
  obtain ⟨hfit, hlong⟩ := readLoop_pax (fuel + 1) hst h
  by_cases hlen : statedLength f.path < 8 ^ 11
  · right
    obtain ⟨st₁, r₁, hpax, hpending, hglobal, hname, hbefore⟩ := hfit hlen
    have hsize : st₁.pendingPax.bind (·.get (js "size")) = none := by
      rw [hpending]
      rfl
    obtain ⟨e, st', r', hread, hp, hcontent, hnext⟩ :=
      readLoop_entry fuel hsize hglobal hname hbefore
    have hpath : e.path = respell f.path := by
      rw [hp, hpending]
      rfl
    refine ⟨e, st', r', hpax.trans hread, ?_, fun hstore => hnext hstore.2.2.2⟩
    rw [hpath, respell_eq_self_iff, hcontent, Storable, hnone, ← statedLength_lt_iff]
    exact ⟨fun h => ⟨h.1, fun t ht => (nomatch ht), hlen, h.2⟩, fun h => ⟨h.1, h.2.2.2⟩⟩
  · left
    obtain ⟨e, he⟩ := hlong (not_lt.mp hlen)
    exact ⟨e, he, fun hstore => hlen ((statedLength_lt_iff f.path).mpr hstore.2.2.1)⟩

/-- **One file.** It comes back if and only if it is storable, and the rest is read behind it. -/
lemma readLoop_file {f : TarWriteFile} {fuel : ℕ} (h0 : (0 : UInt16) ∉ f.path) (hst : Fresh st)
    (h : Before st r (writeFile f ++ bytes)) (hfuel : (writeFile f ++ bytes).length < fuel) :
    (∃ e, readLoop none fuel st r = ⟨[], .threw e⟩ ∧ ¬ Storable f)
      ∨ ∃ e fuel' st' r', readLoop none fuel st r
          = ⟨e :: (readLoop none fuel' st' r').entries, (readLoop none fuel' st' r').finish⟩
        ∧ bytes.length < fuel'
        ∧ (e.path = f.path ∧ e.content = f.content ↔ Storable f)
        ∧ (Storable f → Fresh st' ∧ Before st' r' bytes) := by
  by_cases hshort : (utf8Encode f.path).length ≤ 100
  · right
    have hfile : writeFile f ++ bytes = writeHeader f.path [] f.content.length 48
        ++ (padBlock f.content ++ bytes) := by
      rw [writeFile, if_pos hshort, List.append_assoc]
    rw [hfile] at h hfuel
    rw [List.length_append, List.length_append, length_writeHeader] at hfuel
    obtain ⟨k, rfl⟩ : ∃ k, fuel = k + 1 := ⟨fuel - 1, by omega⟩
    have htexts : headerTexts f.path = [f.path] := by rw [headerTexts, if_pos hshort]
    have hpath : storedName f.path [] = f.path
        ↔ wellFormed f.path = true ∧ ∀ t ∈ headerTexts f.path, t.head? ≠ some 0xFEFF := by
      rw [storedName_short h0 hshort, recode_eq_self_iff, htexts, List.forall_mem_singleton]
    obtain ⟨e, st', r', hread, hiff, hnext⟩ := readLoop_ustar k hst hpath (by omega) h
    exact ⟨e, k, st', r', hread, by omega, hiff, hnext⟩
  cases hsplit : splitUstarPath f.path with
  | some parts =>
      right
      obtain ⟨pre, name⟩ := parts
      have hfile : writeFile f ++ bytes = writeHeader name pre f.content.length 48
          ++ (padBlock f.content ++ bytes) := by
        rw [writeFile, if_neg hshort, hsplit, List.append_assoc]
      rw [hfile] at h hfuel
      rw [List.length_append, List.length_append, length_writeHeader] at hfuel
      obtain ⟨k, rfl⟩ : ∃ k, fuel = k + 1 := ⟨fuel - 1, by omega⟩
      have htexts : headerTexts f.path = [pre, name] := by
        rw [headerTexts, if_neg hshort, hsplit]
      have hpath : storedName name pre = f.path
          ↔ wellFormed f.path = true ∧ ∀ t ∈ headerTexts f.path, t.head? ≠ some 0xFEFF := by
        rw [storedName_split_iff h0 hsplit, htexts, List.forall_mem_cons, List.forall_mem_singleton]
      have hlen : (utf8Encode f.path).length ≤ 256 := by
        obtain ⟨hcat, -, hpre, hname⟩ := splitUstarPath_spec hsplit
        rw [hcat, utf8Encode_slash, List.length_append, List.length_cons]
        omega
      obtain ⟨e, st', r', hread, hiff, hnext⟩ := readLoop_ustar k hst hpath hlen h
      exact ⟨e, k, st', r', hread, by omega, hiff, hnext⟩
  | none =>
      have hfile : writeFile f ++ bytes
          = writeHeader (truncateBytes (js "PaxHeaders.0/" ++ f.path) 100) []
              (paxPathRecord f.path).length 120
            ++ (padBlock (paxPathRecord f.path)
              ++ (writeHeader (truncateBytes f.path 100) [] f.content.length 48
                ++ (padBlock f.content ++ bytes))) := by
        rw [writeFile, if_neg hshort, hsplit]
        simp only [List.append_assoc]
      rw [hfile] at h hfuel
      simp only [List.length_append, length_writeHeader] at hfuel
      obtain ⟨k, rfl⟩ : ∃ k, fuel = k + 2 := ⟨fuel - 2, by omega⟩
      have htexts : headerTexts f.path = [] := by rw [headerTexts, if_neg hshort, hsplit]
      rcases readLoop_record k hst htexts h with hthrew | ⟨e, st', r', hread, hiff, hnext⟩
      · exact Or.inl hthrew
      · exact Or.inr ⟨e, k, st', r', hread, by omega, hiff, hnext⟩

/-- The paths and the contents that were read, in order, and that the reading ended well. -/
def Reads (reading : Reading) (files : List TarWriteFile) : Prop :=
  reading.entries.map (fun e => (e.path, e.content)) = files.map (fun f => (f.path, f.content))
    ∧ reading.finish = .done

/-- From file to file. -/
lemma readLoop_files {files : List TarWriteFile} (h0 : ∀ f ∈ files, (0 : UInt16) ∉ f.path) :
    ∀ {fuel : ℕ} {st : State} {r : ChunkReader}, Fresh st →
      Before st r (files.flatMap writeFile ++ (zeros BLOCK ++ zeros BLOCK)) →
      (files.flatMap writeFile ++ (zeros BLOCK ++ zeros BLOCK)).length < fuel →
      (Reads (readLoop none fuel st r) files ↔ ∀ f ∈ files, Storable f) := by
  induction files with
  | nil =>
      intro fuel st r _ h hfuel
      obtain ⟨k, rfl⟩ : ∃ k, fuel = k + 1 := ⟨fuel - 1, by omega⟩
      rw [readLoop_end h k]
      exact ⟨fun _ f hf => (nomatch hf), fun _ => ⟨rfl, rfl⟩⟩
  | cons f files ih =>
      intro fuel st r hst h hfuel
      rw [List.flatMap_cons, List.append_assoc] at h hfuel
      rw [List.forall_mem_cons]
      rcases readLoop_file (h0 f List.mem_cons_self) hst h hfuel with
        ⟨e, hthrew, hnot⟩ | ⟨e, fuel', st', r', hread, hfuel', hiff, hnext⟩
      · rw [hthrew]
        exact ⟨fun hreads => (nomatch hreads.2), fun hall => absurd hall.1 hnot⟩
      · have hfirst : Reads (readLoop none fuel st r) (f :: files)
            ↔ Storable f ∧ Reads (readLoop none fuel' st' r') files := by
          rw [hread, Reads, Reads, List.map_cons, List.map_cons, List.cons.injEq, Prod.mk.injEq,
            hiff, and_assoc]
        rw [hfirst]
        refine and_congr_right fun hstore => ?_
        obtain ⟨hst', hbefore⟩ := hnext hstore
        exact ih (fun g hg => h0 g (List.mem_cons_of_mem _ hg)) hst' hbefore hfuel'

/-- **The round trip**: in any chunks, the files come back as they are if and only if every one of
them is storable. -/
theorem readTarEntries_writeTarArchive {files : List TarWriteFile} {chunks : List Bytes}
    (h0 : ∀ f ∈ files, (0 : UInt16) ∉ f.path) (hchunks : chunks.flatten = writeTarArchive files) :
    Reads (readTarEntries chunks none) files ↔ ∀ f ∈ files, Storable f := by
  have hrest : (ChunkReader.new chunks none).rest
      = files.flatMap writeFile ++ (zeros BLOCK ++ zeros BLOCK) := by
    rw [ChunkReader.rest_new, hchunks, writeTarArchive, List.append_assoc]
  have hbefore : Before .init (.new chunks none)
      (files.flatMap writeFile ++ (zeros BLOCK ++ zeros BLOCK)) :=
    ⟨ChunkReader.sound_new chunks, Nat.zero_le _, hrest⟩
  refine readLoop_files h0 ⟨rfl, rfl, rfl⟩ hbefore ?_
  rw [← hrest, ChunkReader.rest_new]
  exact Nat.lt_succ_self _

/-- A file of three bytes in a folder. -/
def sampleFile : TarWriteFile := ⟨js "a/b", [1, 2, 3]⟩

/-- The sample is storable, and comes back from an archive that is cut inside its first header. -/
theorem readTarEntries_writeTarArchive_sample :
    Reads (readTarEntries [(writeTarArchive [sampleFile]).take 7,
      (writeTarArchive [sampleFile]).drop 7] none) [sampleFile] := by
  have hstore : ∀ f ∈ [sampleFile], Storable f := by
    rw [List.forall_mem_singleton]
    refine ⟨by decide, ?_, by decide, by decide⟩
    decide
  refine (readTarEntries_writeTarArchive ?_ ?_).mpr hstore
  · rw [List.forall_mem_singleton]
    decide
  · rw [List.flatten_cons, List.flatten_cons, List.flatten_nil, List.append_nil,
      List.take_append_drop]

/-- A file whose name begins with a byte order mark. -/
def bomFile : TarWriteFile := ⟨[0xFEFF, 97], []⟩

/-- **The byte order mark is lost**: the file comes back as `a`. -/
theorem readTarEntries_bom :
    (∀ f ∈ [bomFile], (0 : UInt16) ∉ f.path ∧ f.path ≠ [])
      ∧ (readTarEntries [writeTarArchive [bomFile]] none).entries.map TarEntry.path = [[97]]
      ∧ ¬ Reads (readTarEntries [writeTarArchive [bomFile]] none) [bomFile] := by
  have hpath : (readTarEntries [writeTarArchive [bomFile]] none).entries.map TarEntry.path = [[97]] := by
    decide +kernel
  refine ⟨by decide, hpath, fun hreads => ?_⟩
  have hnames := congrArg (List.map Prod.fst) hreads.1
  rw [List.map_map, List.map_map] at hnames
  exact absurd (hpath.symm.trans hnames) (by decide)

end Tar

end BitGraph
