import OsLabs.Spec.MemDump

/-! The array of regions doubles before a store would miss it, and whichever call fails,
`print_mem` holds nothing in the end that it did not hold before. -/

namespace OsLabs.ProcInfo

variable {c : Calls} {h : Holding} {r : Regions}
  {filled : List MemoryRegion} {n : ℕ} {realloc : ℕ → Bool}

/-! ### The array -/

/-- The regions stored so far stand at the front, in order, and the array has been doubled
`n` times. -/
structure Filled (realloc : ℕ → Bool) (filled : List MemoryRegion) (n : ℕ) (r : Regions) :
    Prop where
  capacity : r.cells.length = 10 * 2 ^ n
  count : r.count = filled.length
  le : filled.length ≤ r.cells.length
  front : r.cells.take filled.length = filled.map some
  grown : ∀ k < n, realloc k = true

theorem filled_init (realloc : ℕ → Bool) : Filled realloc [] 0 ⟨List.replicate 10 none, 0⟩ :=
  ⟨rfl, rfl, by decide, rfl, nofun⟩

theorem Filled.store (hf : Filled realloc filled n r) (hlt : filled.length < r.cells.length)
    (region : MemoryRegion) :
    ∃ r', r.store region = some r' ∧ Filled realloc (filled ++ [region]) n r' := by
  refine ⟨⟨r.cells.set r.count (some region), r.count + 1⟩, ?_, ?_⟩
  · rw [Regions.store, hf.count, if_pos hlt]
  · have hlen : (filled ++ [region]).length = filled.length + 1 := by simp
    refine ⟨by rw [List.length_set, hf.capacity], by rw [hlen, hf.count], ?_, ?_, hf.grown⟩
    · rw [hlen, List.length_set]
      exact hlt
    · rw [hlen, hf.count, List.take_set, List.take_add_one, hf.front, List.map_append]
      simp [hlt]

theorem Filled.grow (hf : Filled realloc filled n r) (hr : realloc n = true) :
    Filled realloc filled (n + 1) r.grow := by
  refine ⟨?_, hf.count, ?_, ?_, ?_⟩
  · rw [Regions.grow, List.length_append, List.length_replicate, hf.capacity, Nat.pow_succ]
    omega
  · rw [Regions.grow, List.length_append]
    exact hf.le.trans (Nat.le_add_right _ _)
  · rw [Regions.grow, List.take_append_of_le_length hf.le]
    exact hf.front
  · intro k hk
    rcases Nat.lt_succ_iff_lt_or_eq.1 hk with hk | rfl
    · exact hf.grown k hk
    · exact hr

/-- The loop stores every region there is, unless the memory runs out, and no store misses. -/
theorem regionLoop_spec (sscanf : List Char → Option MemoryRegion) (lines : List (List Char))
    (hf : Filled realloc filled n r) :
    (Grows realloc (filled.length + (lines.filterMap sscanf).length) →
      ∃ r' n', regionLoop sscanf realloc lines n r = some (some r') ∧
        Filled realloc (filled ++ lines.filterMap sscanf) n' r') ∧
    (¬ Grows realloc (filled.length + (lines.filterMap sscanf).length) →
      regionLoop sscanf realloc lines n r = some none) := by
  induction lines generalizing filled n r with
  | nil =>
    refine ⟨?_, ?_⟩
    · intro _
      exact ⟨r, n, rfl, by simpa using hf⟩
    · intro hnot
      -- what is stored has its place already
      apply absurd _ hnot
      intro k hk
      apply hf.grown
      have hle := hf.le
      rw [hf.capacity] at hle
      have hpow : 2 ^ k < 2 ^ n := by
        simp only [List.filterMap_nil, List.length_nil] at hk
        omega
      exact (Nat.pow_lt_pow_iff_right (by decide)).1 hpow
  | cons line lines ih =>
    cases hline : sscanf line with
    | none =>
      rw [List.filterMap_cons_none hline]
      simp only [regionLoop, hline]
      exact ih hf
    | some region =>
      have hlen : filled.length + ((line :: lines).filterMap sscanf).length =
          (filled ++ [region]).length + (lines.filterMap sscanf).length := by
        rw [List.filterMap_cons_some hline]
        simp only [List.length_cons, List.length_append, List.length_nil]
        omega
      have hall : filled ++ (line :: lines).filterMap sscanf =
          filled ++ [region] ++ lines.filterMap sscanf := by
        rw [List.filterMap_cons_some hline, List.append_assoc, List.singleton_append]
      rw [hlen, hall]
      simp only [regionLoop, hline]
      by_cases hfull : r.count ≥ r.cells.length
      · rw [if_pos hfull]
        have hneeded : 10 * 2 ^ n < (filled ++ [region]).length + (lines.filterMap sscanf).length := by
          rw [← hf.capacity, List.length_append, List.length_singleton, ← hf.count]
          omega
        cases hr : realloc n with
        | true =>
          have hgrown := hf.grow hr
          have hroom : filled.length < r.grow.cells.length := by
            rw [hgrown.capacity, Nat.pow_succ, ← hf.count]
            have hle := hf.le
            have hpos : 0 < 2 ^ n := Nat.two_pow_pos n
            rw [hf.capacity, ← hf.count] at hle
            omega
          obtain ⟨r', hstore, hf'⟩ := hgrown.store hroom region
          rw [if_pos rfl, hstore, Option.bind_some]
          exact ih hf'
        | false =>
          rw [if_neg Bool.false_ne_true]
          refine ⟨?_, fun _ => rfl⟩
          intro hg
          have := hg n hneeded
          rw [hr] at this
          contradiction
      · rw [if_neg hfull]
        have hroom : filled.length < r.cells.length := by
          rw [← hf.count]
          omega
        obtain ⟨r', hstore, hf'⟩ := hf.store hroom region
        rw [hstore, Option.bind_some]
        exact ih hf'

/-! ### What is held -/

theorem vacant (r : Resource) (h : Holding) : Entries.Vacant (fun _ => none) r h := nofun

theorem give_eq {r : Resource} (hr : h r = true) : give r h = some (Function.update h r false) :=
  Entries.remove_eq hr (vacant r h)

theorem give_take {r : Resource} (hr : h r = false) : give r (take r h) = some h :=
  Entries.remove_update nofun hr (vacant r h)

def nothing : Holding := fun _ => false

/-- The regions of the file, where there is one and the memory lasts. -/
def Calls.Listed (sscanf : List Char → Option MemoryRegion) (c : Calls)
    (regions : List MemoryRegion) : Prop :=
  ∃ lines, c.maps = some lines ∧ regions = lines.filterMap sscanf ∧ c.malloc = true ∧
    Grows c.realloc regions.length

/-- The array of all regions, or `NULL`; in either case the file is closed and the line freed. -/
theorem getMemoryRegions_spec (sscanf : List Char → Option MemoryRegion) (c : Calls) :
    (∃ regions r, c.Listed sscanf regions ∧ r.cells.take r.count = regions.map some ∧
      getMemoryRegions sscanf c nothing = some (take .regions nothing, some r)) ∨
    (∀ regions, ¬ c.Listed sscanf regions) ∧
      getMemoryRegions sscanf c nothing = some (nothing, none) := by
  cases hmaps : c.maps with
  | none =>
    right
    refine ⟨?_, by rw [getMemoryRegions, hmaps]⟩
    rintro regions ⟨lines, hlines, -⟩
    rw [hmaps] at hlines
    contradiction
  | some lines =>
    cases hmalloc : c.malloc with
    | false =>
      right
      refine ⟨?_, ?_⟩
      · rintro regions ⟨-, -, -, hm, -⟩
        rw [hmalloc] at hm
        contradiction
      · have hfile := give_take (h := nothing) (r := .file) rfl
        simp only [getMemoryRegions, hmaps, hmalloc, Bool.false_eq_true, if_false, hfile]
        rfl
    | true =>
      obtain ⟨hroom, hnoroom⟩ :=
        regionLoop_spec sscanf lines (filled_init c.realloc)
      simp only [List.length_nil, Nat.zero_add, List.nil_append] at hroom hnoroom
      by_cases hg : Grows c.realloc (lines.filterMap sscanf).length
      · left
        obtain ⟨r, n, hloop, hf⟩ := hroom hg
        refine ⟨_, r, ⟨lines, hmaps, rfl, hmalloc, hg⟩, by rw [hf.count]; exact hf.front, ?_⟩
        have hheld : Function.update (Function.update
            (take .line (take .regions (take .file nothing))) .file false) .line false =
            take .regions nothing := by
          funext x
          cases x <;> rfl
        have hfile := give_eq (h := take .line (take .regions (take .file nothing)))
          (r := .file) rfl
        have hline := give_eq (h := Function.update
          (take .line (take .regions (take .file nothing))) .file false) (r := .line) rfl
        rw [hheld] at hline
        simp only [getMemoryRegions, hmaps, hmalloc, if_true, hloop, Option.bind_eq_bind,
          Option.bind_some, hfile, hline]
      · right
        refine ⟨?_, ?_⟩
        · rintro regions ⟨lines', hlines, rfl, -, hg'⟩
          obtain rfl := Option.some.inj (hmaps.symm.trans hlines)
          exact hg hg'
        · have hheld : Function.update (Function.update (Function.update
              (take .line (take .regions (take .file nothing))) .regions false) .file false) .line
              false = nothing := by
            funext x
            cases x <;> rfl
          have hregions := give_eq (h := take .line (take .regions (take .file nothing)))
            (r := .regions) rfl
          have hfile := give_eq (h := Function.update
            (take .line (take .regions (take .file nothing))) .regions false) (r := .file) rfl
          have hline := give_eq (h := Function.update (Function.update
            (take .line (take .regions (take .file nothing))) .regions false) .file false)
            (r := .line) rfl
          rw [hheld] at hline
          simp only [getMemoryRegions, hmaps, hmalloc, if_true, hnoroom hg, Option.bind_eq_bind,
            Option.bind_some, hregions, hfile, hline]

theorem printRegion_eq (c : Calls) (i : ℕ) (region : MemoryRegion) (hb : h .buffer = false) :
    ∃ out, printRegion c i region h = some (h, out) ∧ c.report i region = .region i region :: out := by
  have hgive := give_take hb
  unfold printRegion Calls.report
  cases c.mallocBuffer i with
  | false => exact ⟨[], rfl, rfl⟩
  | true =>
    cases c.lseek i with
    | false => exact ⟨[], by simp [hgive], rfl⟩
    | true =>
      cases c.read i with
      | none => exact ⟨[], by simp [hgive], rfl⟩
      | some bytes => exact ⟨[_], by simp [hgive], rfl⟩

theorem printRegions_eq (c : Calls) (regions : List MemoryRegion) (i : ℕ)
    (hb : h .buffer = false) : printRegions c i (regions.map some) h =
      some (h, (regions.zipIdx i).flatMap fun p => c.report p.2 p.1) := by
  induction regions generalizing i with
  | nil => rfl
  | cons region regions ih =>
    obtain ⟨out, hprint, hreport⟩ := printRegion_eq c i region hb
    rw [List.map_cons, List.zipIdx_cons, List.flatMap_cons, hreport, printRegions, hprint]
    simp only [Option.bind_eq_bind, Option.bind_some, ih]

theorem map_range_getElem? (bytes : List UInt8) (size : ℕ) :
    (List.range size).map (fun j => bytes[j]?) =
      (bytes.take size).map some ++ List.replicate (size - bytes.length) none := by
  apply List.ext_getElem
  · simp
    omega
  · intro j hj hj'
    have hlt : j < size := by simpa using hj
    rw [List.getElem_map, List.getElem_range, List.getElem_append]
    split_ifs with h
    · have hbytes : j < bytes.length := by
        simp at h
        omega
      simp [hbytes]
    · have hbytes : bytes.length ≤ j := by
        simp at h
        omega
      simp [hbytes]

theorem dump_of_report {i : ℕ} {region region' : MemoryRegion} {cells : List (Option UInt8)}
    (h : Print.dump region cells ∈ c.report i region') : ∃ bytes, c.read i = some bytes ∧
      cells = (bytes.take (region.endAddr - region.startAddr).toNat).map some ++
        List.replicate ((region.endAddr - region.startAddr).toNat - bytes.length) none := by
  unfold Calls.report at h
  split_ifs at h with hcalls
  · cases hread : c.read i with
    | none => simp [hread] at h
    | some bytes =>
      obtain ⟨rfl, rfl⟩ : region = region' ∧ _ = cells := by simpa [hread, eq_comm] using h
      exact ⟨bytes, rfl, map_range_getElem? _ _⟩
  · simp at h

/-- Whichever calls fail, `print_mem` stores only inside of its array, reads only cells of it
that it has stored to, gives back once whatever it has opened or allocated, and reports each
region of the process in order, or none when the list of them could not be made or `mem` not be
opened. The dump of a region is all of its buffer, with the part a short `read` has not set. -/
theorem printMem_spec (sscanf : List Char → Option MemoryRegion) (c : Calls) :
    ∃ out, printMem sscanf c nothing = some (nothing, out) ∧
      (∀ regions, c.Listed sscanf regions → c.openMem = true →
        out = regions.zipIdx.flatMap fun p => c.report p.2 p.1) ∧
      ((∀ regions, ¬ c.Listed sscanf regions) ∨ c.openMem = false → out = []) ∧
      ∀ region cells, Print.dump region cells ∈ out → ∃ i bytes, c.read i = some bytes ∧
        cells = (bytes.take (region.endAddr - region.startAddr).toNat).map some ++
          List.replicate ((region.endAddr - region.startAddr).toNat - bytes.length) none := by
  rcases getMemoryRegions_spec sscanf c with ⟨regions, r, hlisted, hfront, hget⟩ | ⟨hnot, hget⟩
  · have hregions := give_take (h := nothing) (r := .regions) rfl
    cases hopen : c.openMem with
    | false =>
      refine ⟨[], ?_, nofun, fun _ => rfl, nofun⟩
      simp only [printMem, hget, Option.bind_eq_bind, Option.bind_some, hopen, Bool.false_eq_true,
        if_false, hregions]
      rfl
    | true =>
      have hmem := give_take (h := take .regions nothing) (r := .memFd) rfl
      have hprint := printRegions_eq c regions 0 (h := take .memFd (take .regions nothing)) rfl
      refine ⟨regions.zipIdx.flatMap fun p => c.report p.2 p.1, ?_, ?_, ?_, ?_⟩
      · simp only [printMem, hget, Option.bind_eq_bind, Option.bind_some, hopen, if_true, hfront,
          hprint, hmem, hregions]
      · rintro regions' ⟨lines', hlines', rfl, -⟩ _
        obtain ⟨lines, hlines, rfl, -⟩ := hlisted
        obtain rfl := Option.some.inj (hlines.symm.trans hlines')
        rfl
      · rintro (hnone | hfalse)
        · exact absurd hlisted (hnone regions)
        · contradiction
      · intro region cells hmem
        obtain ⟨⟨region', i⟩, -, hreport⟩ := List.mem_flatMap.1 hmem
        exact ⟨i, dump_of_report hreport⟩
  · refine ⟨[], ?_, ?_, fun _ => rfl, nofun⟩
    · simp only [printMem, hget, Option.bind_eq_bind, Option.bind_some]
    · intro regions hlisted
      exact absurd hlisted (hnot regions)

end OsLabs.ProcInfo
