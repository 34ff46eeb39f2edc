import OsLabs.Spec.ProcInfo

/-! When the pages that `print_pagemap` prints do not depend on how the file is read. -/

namespace OsLabs

theorem strtoul_lt (s : List Char) : strtoul s < 2 ^ 64 := by
  simp only [strtoul]
  split_ifs
  · decide
  · exact Nat.mod_lt _ (by decide)
  · omega

namespace ProcInfo

variable {p : PageSize}

theorem PageSize.bytes_pos (p : PageSize) : 0 < p.bytes := Nat.two_pow_pos p.shift

theorem PageSize.bytes_le (p : PageSize) : p.bytes ≤ 2 ^ 30 :=
  Nat.pow_le_pow_right (by decide) p.shift_le

theorem PageSize.exists_mul (p : PageSize) : ∃ n, 2 ^ 64 = p.bytes * n := by
  have hle := p.shift_le
  exact ⟨2 ^ (64 - p.shift), by rw [PageSize.bytes, ← Nat.pow_add, Nat.add_sub_cancel' (by omega)]⟩

theorem pageCount_eq_zero {start stop : ℕ} (h : stop ≤ start) : pageCount p start stop = 0 := by
  have hpos := p.bytes_pos
  rw [pageCount, Nat.sub_eq_zero_of_le h]
  exact Nat.div_eq_of_lt (by omega)

theorem pageCount_succ {start stop : ℕ} (h : start < stop) :
    pageCount p start stop = pageCount p (start + p.bytes) stop + 1 := by
  have hpos := p.bytes_pos
  rw [pageCount, pageCount, ← Nat.add_div_right _ hpos]
  rcases Nat.le_total stop (start + p.bytes) with hle | hle
  · rw [Nat.sub_eq_zero_of_le hle, Nat.div_eq_of_lt_le (k := 1) (by omega) (by omega),
      Nat.div_eq_of_lt_le (k := 1) (by omega) (by omega)]
  · congr 1
    omega

theorem pagesOf_eq_nil {start stop : ℕ} (h : stop ≤ start) : pagesOf p start stop = [] := by
  rw [pagesOf, pageCount_eq_zero h]
  rfl

theorem pagesOf_cons {start stop : ℕ} (h : start < stop) :
    pagesOf p start stop = start :: pagesOf p (start + p.bytes) stop := by
  rw [pagesOf, pagesOf, pageCount_succ h, List.range_succ_eq_map, List.map_cons, List.map_map]
  congr 1
  apply List.map_congr_left
  intro k _
  simp only [Function.comp_apply]
  rw [Nat.mul_succ]
  omega

theorem le_add_mul_pageCount (start stop : ℕ) :
    stop ≤ start + p.bytes * pageCount p start stop := by
  have hpos := p.bytes_pos
  have hdiv := Nat.div_add_mod (stop - start + p.bytes - 1) p.bytes
  have hmod := Nat.mod_lt (stop - start + p.bytes - 1) hpos
  rw [pageCount]
  omega

theorem pageLoop_eq_some {start stop fuel : ℕ}
    (h : start + p.bytes * pageCount p start stop < 2 ^ 64)
    (hfuel : pageCount p start stop < fuel) :
    pageLoop p fuel start stop = some (pagesOf p start stop) := by
  induction fuel generalizing start with
  | zero => omega
  | succ fuel ih =>
    rw [pageLoop]
    split_ifs with hlt
    · rw [pageCount_succ hlt] at h hfuel
      rw [Nat.mul_succ] at h
      have hnext : (start + p.bytes) % 2 ^ 64 = start + p.bytes := Nat.mod_eq_of_lt (by omega)
      rw [hnext, ih (by omega) (by omega), pagesOf_cons hlt]
      rfl
    · rw [pagesOf_eq_nil (by omega)]

/-- A loop that ends has not passed 2 ^ 64: it would still be below `stop` whenever it comes
back to this remainder. -/
theorem of_pageLoop_eq_some {start stop fuel : ℕ} {pages : List ℕ} (hstart : start < 2 ^ 64)
    (h : pageLoop p fuel start stop = some pages) :
    start + p.bytes * pageCount p start stop < 2 ^ 64 ∧ pages = pagesOf p start stop := by
  induction fuel generalizing start pages with
  | zero => contradiction
  | succ fuel ih =>
    rw [pageLoop] at h
    split_ifs at h with hlt
    · obtain ⟨rest, hrest, rfl⟩ := Option.map_eq_some_iff.1 h
      obtain ⟨hends, rfl⟩ := ih (Nat.mod_lt _ (by decide)) hrest
      have hreach := le_add_mul_pageCount (p := p) ((start + p.bytes) % 2 ^ 64) stop
      by_cases hwrap : start + p.bytes < 2 ^ 64
      · rw [Nat.mod_eq_of_lt hwrap] at hends ⊢
        rw [pageCount_succ hlt, Nat.mul_succ, pagesOf_cons hlt]
        exact ⟨by omega, rfl⟩
      · exfalso
        have hle := p.bytes_le
        have hmod : (start + p.bytes) % 2 ^ 64 = start + p.bytes - 2 ^ 64 := by omega
        obtain ⟨n, hn⟩ := p.exists_mul
        rw [hmod] at hends hreach
        generalize pageCount p (start + p.bytes - 2 ^ 64) stop = count at hends hreach
        -- so many pages are too many, so few do not reach `stop`
        rcases Nat.lt_or_ge count n with hcount | hcount
        · have := Nat.mul_le_mul_left p.bytes hcount
          rw [Nat.mul_succ] at this
          omega
        · have := Nat.mul_le_mul_left p.bytes hcount
          omega
    · obtain rfl := Option.some.inj h
      rw [pageCount_eq_zero (by omega), pagesOf_eq_nil (by omega)]
      exact ⟨by omega, rfl⟩

theorem region_lt {row : List Char} {start stop : ℕ} (h : region row = some (start, stop)) :
    start < 2 ^ 64 := by
  obtain ⟨addresses, -, h⟩ := Option.bind_eq_some_iff.1 h
  split at h
  · obtain ⟨rfl, -⟩ := Prod.mk.inj (Option.some.inj h)
    exact strtoul_lt _
  · contradiction

theorem rowPages_eq_some {row : List Char} (h : Ends p row) :
    ∃ k, ∀ fuel, k < fuel → rowPages p fuel row = some (linePages p row) := by
  unfold rowPages linePages
  cases hr : region row with
  | none => exact ⟨0, fun _ _ => rfl⟩
  | some ends =>
    obtain ⟨start, stop⟩ := ends
    exact ⟨pageCount p start stop, fun _ hfuel => pageLoop_eq_some (h (start, stop) hr) hfuel⟩

theorem of_rowPages_eq_some {row : List Char} {fuel : ℕ} {pages : List ℕ}
    (h : rowPages p fuel row = some pages) : Ends p row ∧ pages = linePages p row := by
  unfold Ends
  unfold rowPages at h
  unfold linePages
  cases hr : region row with
  | none =>
    rw [hr] at h
    exact ⟨nofun, (Option.some.inj h).symm⟩
  | some ends =>
    rw [hr] at h
    obtain ⟨hlt, rfl⟩ := of_pageLoop_eq_some (region_lt hr) h
    refine ⟨fun ends heq => ?_, rfl⟩
    obtain rfl := Option.some.inj heq
    exact hlt

theorem rowsPages_iff {rows : List (List Char)} {pages : List ℕ} :
    (∃ fuel, rowsPages p fuel rows = some pages) ↔
      (∀ row ∈ rows, Ends p row) ∧ pages = rows.flatMap (linePages p) := by
  constructor
  · rintro ⟨fuel, h⟩
    induction rows generalizing pages with
    | nil => exact ⟨nofun, (Option.some.inj h).symm⟩
    | cons row rows ih =>
      obtain ⟨first, hfirst, h⟩ := Option.bind_eq_some_iff.1 h
      obtain ⟨rest, hrest, h⟩ := Option.bind_eq_some_iff.1 h
      obtain ⟨hends, rfl⟩ := of_rowPages_eq_some hfirst
      obtain ⟨hall, rfl⟩ := ih hrest
      exact ⟨List.forall_mem_cons.2 ⟨hends, hall⟩, (Option.some.inj h).symm⟩
  · rintro ⟨hall, rfl⟩
    suffices h : ∃ k, ∀ fuel, k < fuel →
        rowsPages p fuel rows = some (rows.flatMap (linePages p)) by
      obtain ⟨k, hk⟩ := h
      exact ⟨k + 1, hk _ (Nat.lt_succ_self k)⟩
    induction rows with
    | nil => exact ⟨0, fun _ _ => rfl⟩
    | cons row rows ih =>
      obtain ⟨k, hk⟩ := rowPages_eq_some (hall row List.mem_cons_self)
      obtain ⟨k', hk'⟩ := ih fun row hr => hall row (List.mem_cons_of_mem _ hr)
      refine ⟨max k k', fun fuel hfuel => ?_⟩
      rw [rowsPages, hk fuel (by omega), hk' fuel (by omega)]
      rfl

theorem linePages_nil : linePages p [] = [] := rfl

theorem ends_nil : Ends p [] := nofun

/-- All loops end and the pages agree, said of the lines and their pieces. -/
theorem independentOfReads_iff {pathSize : ℕ} (hn : 0 < pathSize) (maps : List Char) :
    IndependentOfReads pathSize p maps ↔
      (∀ pieces ∈ linesInPieces pathSize maps, ∀ piece ∈ pieces, Ends p piece) ∧
      (linesInPieces pathSize maps).flatMap (fun pieces => pieces.flatMap (linePages p)) =
        (linesInPieces pathSize maps).flatMap fun pieces => linePages p pieces.flatten := by
  have hchunks : (reads pathSize maps).flatMap (fun buf => tokens '\n' (buf.map plain)) =
      ((reads pathSize maps).map fun buf => buf.map plain).flatMap (tokens '\n') := by
    rw [List.flatMap_map]
  have hwhole : maps.map plain = ((reads pathSize maps).map fun buf => buf.map plain).flatten := by
    rw [← List.map_flatten, flatten_reads hn]
  unfold IndependentOfReads printPagemap filePages linesInPieces
  rw [hchunks, hwhole]
  generalize (reads pathSize maps).map (fun buf => buf.map plain) = chunks
  rw [rowsPages_iff, flatMap_tokens linePages_nil, ← map_flatten_cuts, List.flatMap_map]
  have hpages : (chunks.flatMap (tokens '\n')).flatMap (linePages p) =
      (cuts '\n' chunks).flatMap fun pieces => pieces.flatMap (linePages p) := by
    rw [List.flatMap_assoc, funext fun c => flatMap_tokens (s := c) linePages_nil,
      ← List.flatMap_assoc, ← flatten_cuts, List.flatten_eq_flatMap, List.flatMap_assoc]
    rfl
  have hends : (∀ row ∈ chunks.flatMap (tokens '\n'), Ends p row) ↔
      ∀ pieces ∈ cuts '\n' chunks, ∀ piece ∈ pieces, Ends p piece := by
    rw [← List.forall_mem_flatten, flatten_cuts, List.forall_mem_flatMap, List.forall_mem_flatMap]
    exact forall₂_congr fun c _ => forall_tokens ends_nil
  rw [hends, hpages, eq_comm]

theorem linePages_of_none {line : List Char} (h : region line = none) : linePages p line = [] := by
  rw [linePages, h]

theorem flatMap_of_none {pieces : List (List Char)} (h : ∀ piece ∈ pieces, region piece = none) :
    pieces.flatMap (linePages p) = [] :=
  List.flatMap_eq_nil_iff.2 fun piece hp => linePages_of_none (h piece hp)

/-- The region of a row stands in its first word. -/
theorem region_of_firstWord {row : List Char} (h : firstWord row = none) : region row = none := by
  unfold region
  rw [show (tokens ' ' row).head? = none from h]
  rfl

theorem linePages_congr {row row' : List Char} (h : firstWord row = firstWord row') :
    linePages p row = linePages p row' := by
  have hregion : region row = region row' := by
    unfold region
    rw [show (tokens ' ' row).head? = (tokens ' ' row').head? from h]
  unfold linePages
  rw [hregion]

theorem firstWord_append {piece : List Char} (h : firstWord piece = none) (s : List Char) :
    firstWord (piece ++ s) = firstWord s := by
  have hblank := tokens_eq_nil_iff.1 (List.head?_eq_none_iff.1 h)
  unfold firstWord
  induction piece with
  | nil => rfl
  | cons c piece ih =>
    obtain rfl := hblank c List.mem_cons_self
    have hrest : ∀ c ∈ piece, c = ' ' := fun c hc => hblank c (List.mem_cons_of_mem _ hc)
    rw [List.cons_append, tokens_cons_self]
    exact ih (List.head?_eq_none_iff.2 (tokens_eq_nil_iff.2 hrest)) hrest

theorem flatMap_of_wordKept {pieces : List (List Char)} (h : wordKept pieces) :
    pieces.flatMap (linePages p) = linePages p pieces.flatten := by
  induction pieces with
  | nil => rfl
  | cons piece rest ih =>
    rw [wordKept] at h
    rw [List.flatMap_cons, List.flatten_cons]
    split_ifs at h with hword
    · rw [linePages_of_none (region_of_firstWord hword), List.nil_append, ih h]
      exact (linePages_congr (firstWord_append hword _)).symm
    · rw [Bool.and_eq_true, decide_eq_true_eq, List.all_eq_true] at h
      obtain ⟨hsame, hrest⟩ := h
      rw [flatMap_of_none fun q hq => by simpa using hrest q hq, List.append_nil]
      exact linePages_congr hsame

theorem CutBehind.flatMap_linePages {pieces : List (List Char)} (h : CutBehind pieces) :
    pieces.flatMap (linePages p) = linePages p pieces.flatten := by
  rcases h with h | ⟨hline, hpieces⟩
  · exact flatMap_of_wordKept h
  · rw [flatMap_of_none hpieces, linePages_of_none hline]

theorem flatMap_of_cutBehind {lines : List (List (List Char))}
    (h : ∀ pieces ∈ lines, CutBehind pieces) :
    lines.flatMap (fun pieces => pieces.flatMap (linePages p)) =
      lines.flatMap fun pieces => linePages p pieces.flatten :=
  List.flatMap_congr fun pieces hp => (h pieces hp).flatMap_linePages

theorem le_of_linePages_eq_nil {line : List Char} (h : linePages p line = []) :
    ∀ r ∈ region line, r.2 ≤ r.1 := by
  rintro ⟨start, stop⟩ hr
  by_contra hlt
  have hpages : linePages p line = pagesOf p start stop := by rw [linePages, Option.mem_def.1 hr]
  rw [hpages, pagesOf_cons (Nat.lt_of_not_le hlt)] at h
  cases h

/-- Where the reads cut the lines behind their addresses only, they do not matter, if no piece
is a region that reaches the end of memory. Such a piece matters in any case, and so does a
line whose pieces have all lost its addresses, as long as the other lines are as they should. -/
theorem independent_of_cutBehind {pathSize : ℕ} (hn : 0 < pathSize) (maps : List Char) :
    ((∀ pieces ∈ linesInPieces pathSize maps, CutBehind pieces ∧ ∀ piece ∈ pieces, Ends p piece) →
      IndependentOfReads pathSize p maps) ∧
    (IndependentOfReads pathSize p maps →
      (∀ pieces ∈ linesInPieces pathSize maps, ∀ piece ∈ pieces, Ends p piece) ∧
      ∀ before pieces after, linesInPieces pathSize maps = before ++ pieces :: after →
        (∀ other ∈ before ++ after, CutBehind other) → (∀ piece ∈ pieces, region piece = none) →
          ∀ r ∈ region pieces.flatten, r.2 ≤ r.1) := by
  rw [independentOfReads_iff hn]
  constructor
  · intro h
    exact ⟨fun pieces hp => (h pieces hp).2, flatMap_of_cutBehind fun pieces hp => (h pieces hp).1⟩
  · rintro ⟨hends, hpages⟩
    refine ⟨hends, ?_⟩
    intro before pieces after hsplit hothers hnone
    have hbefore := flatMap_of_cutBehind (p := p) fun other ho =>
      hothers other (List.mem_append_left _ ho)
    have hafter := flatMap_of_cutBehind (p := p) fun other ho =>
      hothers other (List.mem_append_right _ ho)
    rw [hsplit, List.flatMap_append, List.flatMap_append, List.flatMap_cons, List.flatMap_cons,
      hbefore, hafter, flatMap_of_none hnone] at hpages
    exact le_of_linePages_eq_nil (List.append_cancel_right (List.append_cancel_left hpages)).symm

def oneLine : List Char := "1000-2000 r--p 0 0:0 0\n".toList

/-- Read six bytes at a time, the line is cut within its second address, and its page is not
printed. -/
theorem oneLine_cut : ¬ IndependentOfReads 6 fourKiB oneLine := by
  rw [independentOfReads_iff (by decide)]
  rintro ⟨-, h⟩
  revert h
  decide +kernel

/-- Read twelve bytes at a time, it is cut behind its addresses. -/
theorem independent_of_cutBehind_oneLine : IndependentOfReads 12 fourKiB oneLine :=
  (independent_of_cutBehind (by decide) oneLine).1 (by decide +kernel)

/-- What a line has lost, its own path may make up. -/
example : IndependentOfReads 10 fourKiB "01000-03000 r--p 0 01000-3000\n".toList ∧
    ¬ ∀ pieces ∈ linesInPieces 10 "01000-03000 r--p 0 01000-3000\n".toList, CutBehind pieces :=
  ⟨⟨4, by decide +kernel⟩, by decide +kernel⟩

end ProcInfo

end OsLabs
