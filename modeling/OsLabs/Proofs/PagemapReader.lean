import Mathlib.Data.List.Induction
import OsLabs.Spec.PagemapReader

/-! When the two readers of `pagemap` agree. -/

namespace OsLabs.PagemapReader

open ProcInfo (Endian PageSize Page pageTurn entryIndex native printPage fourKiB)

theorem foldl_shiftIn (bytes : List UInt8) :
    bytes.foldl shiftIn 0 =
      UInt64.ofNat (Nat.ofDigits 256 (bytes.reverse.map UInt8.toNat)) := by
  induction bytes using List.reverseRecOn with
  | nil => rfl
  | append_singleton bytes c ih =>
    rw [List.foldl_append, ih, List.reverse_append, List.reverse_singleton, List.singleton_append,
      List.map_cons, Nat.ofDigits_cons]
    generalize Nat.ofDigits 256 (bytes.reverse.map UInt8.toNat) = n
    apply UInt64.toNat_inj.1
    simp [shiftIn, UInt64.toNat_shiftLeft, Nat.shiftLeft_eq]
    omega

/-- Whatever the order of bytes, both load the same number. -/
theorem foldl_cBuf (e : Endian) (bytes : List UInt8) :
    (cBuf e bytes).foldl shiftIn 0 = native e bytes := by
  rw [foldl_shiftIn]
  cases e with
  | little => simp [cBuf, isBigendian, native]
  | big => simp [cBuf, isBigendian, native]

/-- The macro masks the bit before it shifts, `print_page` after. -/
theorem GET_BIT_eq (x : UInt64) {y : UInt64} (hy : y.toNat < 64) :
    GET_BIT x y = (x >>> y) &&& 1 := by
  apply UInt64.toNat_inj.1
  have hone : (1 : UInt64).toNat = 1 := rfl
  simp only [GET_BIT, UInt64.toNat_shiftRight, UInt64.toNat_and, UInt64.toNat_shiftLeft,
    Nat.mod_eq_of_lt hy, hone]
  apply Nat.eq_of_testBit_eq
  intro i
  simp only [Nat.testBit_shiftRight, Nat.testBit_and, Nat.testBit_mod_two_pow,
    Nat.testBit_shiftLeft]
  rcases Nat.eq_zero_or_pos i with rfl | hi
  · simp [hy]
  · obtain ⟨k, rfl⟩ : ∃ k, i = k + 1 := ⟨i - 1, by omega⟩
    have hbit : Nat.testBit 1 (k + 1) = false := by simp [Nat.testBit_succ]
    simp [hbit]

theorem and_one_ne_zero (x : UInt64) : x &&& 1 ≠ 0 ↔ x &&& 1 = 1 := by
  rw [Ne, ← UInt64.toNat_inj, ← UInt64.toNat_inj, UInt64.toNat_and]
  have hone : (1 : UInt64).toNat = 1 := rfl
  have hzero : (0 : UInt64).toNat = 0 := rfl
  rw [hone, hzero, Nat.and_one_is_mod]
  omega

/-- What `strtol` makes of the address on the command line. -/
theorem strtol_addr (addr : UInt64) :
    (strtol (hexText addr.toNat) % 2 ^ 64).toNat = min addr.toNat (2 ^ 63 - 1) := by
  rw [strtol_hexText]
  omega

variable {p : PageSize}

theorem PageSize.le_bytes (p : PageSize) : 2 ^ 12 ≤ p.bytes :=
  Nat.pow_le_pow_right (by decide) p.shift_ge

theorem index_eq {a : ℕ} (ha : a < 2 ^ 64) : a / p.bytes * 8 % 2 ^ 64 = a / p.bytes * 8 := by
  have hle : a / p.bytes ≤ a / 2 ^ 12 := Nat.div_le_div_left (PageSize.le_bytes p) (by decide)
  apply Nat.mod_eq_of_lt
  omega

theorem entryIndex_pageOf (addr : UInt64) :
    entryIndex p (pageOf p addr) = addr.toNat / p.bytes * 8 := by
  have hpos : 0 < p.bytes := Nat.two_pow_pos p.shift
  rw [entryIndex, pageOf, Nat.mul_div_cancel _ hpos, index_eq addr.toNat_lt]

/-- An address from 2 ^ 63 on is looked up as 2 ^ 63 - 1, which is in a page before it. -/
theorem div_lt_div {a : ℕ} (ha : 2 ^ 63 ≤ a) : (2 ^ 63 - 1) / p.bytes < a / p.bytes := by
  have hpos : 0 < p.bytes := Nat.two_pow_pos p.shift
  obtain ⟨n, hn⟩ : ∃ n, 2 ^ 63 = n * p.bytes := by
    have hle := p.shift_le
    exact ⟨2 ^ (63 - p.shift), by
      rw [PageSize.bytes, ← Nat.pow_add, Nat.sub_add_cancel (by omega)]⟩
  have hbelow : (2 ^ 63 - 1) / p.bytes < n := by
    rw [Nat.div_lt_iff_lt_mul hpos]
    omega
  have habove : n ≤ a / p.bytes := by
    rw [Nat.le_div_iff_mul_le hpos]
    omega
  omega

theorem length_entry {pagemap : List UInt8} {offset : ℕ} (h : offset + 8 ≤ pagemap.length) :
    ((pagemap.drop offset).take 8).length = 8 := by
  rw [List.length_take, List.length_drop]
  omega

theorem report_printPage (fileOffset address : ℕ) (data : UInt64) :
    ((report fileOffset data).swapped = true ↔ (printPage address data).swapped = 1) ∧
      (report fileOffset data).pfn =
        if (printPage address data).present = 1 then some (printPage address data).pfn
        else none := by
  simp only [report, printPage, decide_eq_true_eq]
  rw [GET_BIT_eq _ (by decide), GET_BIT_eq _ (by decide)]
  simp only [and_one_ne_zero]
  exact ⟨trivial, rfl⟩

theorem readPagemap_eq (e : Endian) {pagemap : List UInt8} {virtAddr : ℕ}
    (hv : virtAddr < 2 ^ 64) (hentry : virtAddr / p.bytes * 8 + 8 ≤ pagemap.length) :
    readPagemap e p pagemap virtAddr = some (report (virtAddr / p.bytes * 8)
      (native e ((pagemap.drop (virtAddr / p.bytes * 8)).take 8))) := by
  rw [readPagemap]
  simp only [PAGEMAP_ENTRY, index_eq hv, foldl_cBuf]
  exact if_pos (length_entry hentry)

theorem runPagemap_eq (e : Endian) (pagemap : List UInt8) (addr : UInt64) :
    runPagemap e p pagemap addr =
      readPagemap e p pagemap (min addr.toNat (2 ^ 63 - 1)) := by
  rw [runPagemap, main, strtol_addr]

theorem agree_of_lt (e : Endian) {pagemap : List UInt8} {addr : UInt64}
    (hentry : addr.toNat / p.bytes * 8 + 8 ≤ pagemap.length) (hlt : addr.toNat < 2 ^ 63) :
    Agree e p pagemap addr := by
  have hvirt : min addr.toNat (2 ^ 63 - 1) = addr.toNat := by omega
  have hindex := entryIndex_pageOf (p := p) addr
  have hrun := readPagemap_eq e addr.toNat_lt hentry
  have hturn : pageTurn e p pagemap (pageOf p addr) = some (printPage (pageOf p addr)
      (native e ((pagemap.drop (addr.toNat / p.bytes * 8)).take 8))) := by
    rw [pageTurn, hindex]
    exact if_pos (length_entry hentry)
  refine ⟨_, _, ?_, hturn, hindex.symm, report_printPage _ _ _⟩
  rw [runPagemap_eq, hvirt]
  exact hrun

theorem not_agree_of_le (e : Endian) (pagemap : List UInt8) {addr : UInt64}
    (hle : 2 ^ 63 ≤ addr.toNat) : ¬ Agree e p pagemap addr := by
  have hvirt : min addr.toNat (2 ^ 63 - 1) = 2 ^ 63 - 1 := by omega
  have hlt := div_lt_div (p := p) hle
  rintro ⟨report, page, hrun, -, hoffset, -⟩
  rw [runPagemap_eq, hvirt, readPagemap] at hrun
  split at hrun
  · obtain rfl := Option.some.inj hrun
    have hentry : (2 ^ 63 - 1) / p.bytes * 8 % 2 ^ 64 = addr.toNat / p.bytes * 8 :=
      hoffset.trans (entryIndex_pageOf addr)
    rw [index_eq (by decide)] at hentry
    omega
  · contradiction

/-- The two readers agree on the addresses below 2 ^ 63. -/
theorem agree_iff (e : Endian) {pagemap : List UInt8} {addr : UInt64}
    (hentry : addr.toNat / p.bytes * 8 + 8 ≤ pagemap.length) :
    Agree e p pagemap addr ↔ addr.toNat < 2 ^ 63 := by
  constructor
  · intro h
    by_contra hge
    exact not_agree_of_le e pagemap (Nat.le_of_not_lt hge) h
  · exact agree_of_lt e hentry

/-- The page `vsyscall`, of which the file holds the entry. -/
theorem vsyscall_disagrees :
    (0xffffffffff600000 : UInt64).toNat / fourKiB.bytes * 8 + 8 ≤
        (List.replicate (2 ^ 55) (0 : UInt8)).length ∧
      ¬ Agree .little fourKiB (List.replicate (2 ^ 55) 0) 0xffffffffff600000 := by
  refine ⟨?_, not_agree_of_le .little _ (by decide)⟩
  rw [List.length_replicate]
  decide

theorem agree_iff_first : Agree .big fourKiB (List.replicate 8 0) 4095 ↔
    (4095 : UInt64).toNat < 2 ^ 63 :=
  agree_iff .big (by decide)

end OsLabs.PagemapReader
