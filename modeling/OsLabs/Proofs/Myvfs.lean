import Mathlib.Data.List.Range
import OsLabs.Spec.Myvfs

/-! What a failed load of myvfs leaves behind, and whether a load and an unload stay
inside the array. -/

namespace OsLabs.Myvfs

variable (k : Kernel)

def taken : ℕ → ℕ → ℕ
  | 0, _ => 0
  | turns + 1, i => if k.kmemCacheAlloc i then taken turns (i + 1) + 1 else 0

variable {k}

theorem taken_le (turns i : ℕ) : taken k turns i ≤ turns := by
  induction turns generalizing i with
  | zero => exact Nat.le_refl 0
  | succ turns ih =>
    unfold taken
    split
    · exact Nat.succ_le_succ (ih (i + 1))
    · exact Nat.zero_le _

theorem taken_all {turns i : ℕ} (h : ∀ j, i ≤ j → j < i + turns → k.kmemCacheAlloc j = true) :
    taken k turns i = turns := by
  induction turns generalizing i with
  | zero => rfl
  | succ turns ih =>
    rw [taken, if_pos (h i (Nat.le_refl i) (by omega))]
    rw [ih fun j hj hlt => h j (by omega) (by omega)]

/-- A loop that stops early has taken at most one object unless the first two
allocations went through. -/
theorem one_lt_taken {turns : ℕ} (h : taken k turns 0 < turns) :
    1 < taken k turns 0 ↔ k.kmemCacheAlloc 0 = true ∧ k.kmemCacheAlloc 1 = true := by
  cases turns with
  | zero => exact absurd h (Nat.not_lt_zero _)
  | succ turns =>
    cases h0 : k.kmemCacheAlloc 0 with
    | false => simp [taken, h0]
    | true =>
      cases turns with
      | zero => simp [taken, h0] at h
      | succ turns => cases h1 : k.kmemCacheAlloc 1 <;> simp [taken, h0, h1]

theorem count_first (n : ℕ) :
    (∀ a ∈ List.range' 0 n, [if n = 0 then none else some 0].count (some a) = 1) ↔ ¬ 1 < n := by
  refine ⟨?_, ?_⟩
  · intro h hn
    have hsecond := h 1 (by simp [hn])
    rw [if_neg (by omega)] at hsecond
    simp at hsecond
  · intro hn a ha
    obtain ⟨rfl, hpos⟩ : a = 0 ∧ n ≠ 0 := by
      rw [List.mem_range'_1] at ha
      omega
    simp [hpos]

/-- What the loop has done of its turns from `i` on, of which `n` went through. -/
structure Filled (turns i n : ℕ) (m m' : Module) : Prop where
  registered : m'.registered = m.registered
  cacheMem : m'.cacheMem = m.cacheMem
  cache : m'.cache = m.cache
  calls : m'.calls = m.calls ++ (List.range' i n).map .alloc
  object : ∀ j, i ≤ j → j < i + n → m'.entries j = some j
  null : n < turns → m'.entries (i + n) = none
  below : ∀ j < i, m'.entries j = m.entries j
  accesses : ∀ a, a ∈ m'.accesses ↔ a ∈ m.accesses ∨ i ≤ a ∧ a < i + min (n + 1) turns

theorem allocLoop_spec (turns i : ℕ) (m : Module) :
    (allocLoop k turns i m).1 = decide (taken k turns i = turns) ∧
      Filled turns i (taken k turns i) m (allocLoop k turns i m).2 := by
  induction turns generalizing i m with
  | zero =>
    refine ⟨rfl, rfl, rfl, rfl, by simp [allocLoop, taken], ?_, ?_, fun _ _ => rfl, ?_⟩
    · intro j hj hlt
      simp only [taken] at hlt
      omega
    · intro hlt
      exact absurd hlt (Nat.not_lt_zero _)
    · intro a
      exact ⟨.inl, fun h => h.resolve_right (by simp only [taken]; omega)⟩
  | succ turns ih =>
    cases hk : k.kmemCacheAlloc i with
    | false =>
      simp only [allocLoop, taken, hk, Bool.false_eq_true, if_false]
      refine ⟨by simp, rfl, rfl, rfl, by simp [Module.store], by omega, ?_, ?_, ?_⟩
      · simp [Module.store]
      · intro j hj
        exact Function.update_of_ne (by omega) _ _
      · intro a
        simp only [Module.store, List.mem_append, List.mem_singleton]
        refine or_congr_right ?_
        omega
    | true =>
      simp only [allocLoop, taken, hk, if_true]
      obtain ⟨hdone, h⟩ := ih (i + 1) ((m.kmemCacheAlloc i).store i (some i))
      refine ⟨by rw [hdone]; simp, h.registered, h.cacheMem, h.cache, ?_, ?_, ?_, ?_, ?_⟩
      · rw [h.calls, List.range'_succ]
        simp [Module.store, Module.kmemCacheAlloc]
      · intro j hj hlt
        rcases Nat.lt_or_ge i j with hij | hij
        · exact h.object j hij (by omega)
        · -- the later turns leave this entry alone
          obtain rfl : j = i := by omega
          rw [h.below j (by omega)]
          exact Function.update_self _ _ _
      · intro hlt
        rw [← Nat.add_assoc, Nat.add_right_comm]
        exact h.null (by omega)
      · intro j hj
        rw [h.below j (by omega)]
        exact Function.update_of_ne (by omega) _ _
      · intro a
        rw [h.accesses]
        simp only [Module.store, Module.kmemCacheAlloc, List.mem_append, List.mem_singleton,
          or_assoc]
        refine or_congr_right ?_
        omega

/-- Giving back the objects of `turns` entries from `i` on. -/
structure Emptied (turns i : ℕ) (m m' : Module) : Prop where
  registered : m'.registered = m.registered
  calls : m'.calls = m.calls ++ ((List.range' i turns).map some).map .free
  accesses : ∀ a, a ∈ m'.accesses ↔ a ∈ m.accesses ∨ i ≤ a ∧ a < i + turns

theorem freeLoop_spec (turns i : ℕ) (m : Module)
    (h : ∀ j, i ≤ j → j < i + turns → m.entries j = some j) :
    Emptied turns i m (freeLoop turns i m) := by
  induction turns generalizing i m with
  | zero => exact ⟨rfl, by simp [freeLoop], by simp [freeLoop]⟩
  | succ turns ih =>
    have hi : m.entries i = some i := h i (Nat.le_refl i) (by omega)
    simp only [freeLoop, Module.read, hi, Option.isSome_some, if_true]
    have hrest := ih (i + 1)
      (({ m with accesses := m.accesses ++ [i] ++ [i] } : Module).kmemCacheFree (some i))
      fun j hj hlt => h j (by omega) (by omega)
    refine ⟨hrest.registered, ?_, ?_⟩
    · rw [hrest.calls, List.range'_succ]
      simp [Module.kmemCacheFree]
    · intro a
      rw [hrest.accesses]
      simp only [Module.kmemCacheFree, List.mem_append, List.mem_singleton, or_assoc]
      refine or_congr_right ?_
      omega

def LoopReached (k : Kernel) : Prop :=
  k.registerFilesystem = 0 ∧ k.kmalloc = true ∧ k.kmemCacheCreate = true

/-- The kernel grants everything, but no object after the first `n`, and destroys no cache
with objects out. -/
def sparing (n : ℕ) : Kernel := ⟨0, 0, true, true, (· < n), fun calls => Pool.Returned calls⟩

/-- How a load ends, in a loop of `turns` turns. Whenever it fails the array is gone. -/
inductive InitOutcome (k : Kernel) (turns : ℕ) (m : Module) : ℤ → Prop
  | unregistered (hreg : k.registerFilesystem ≠ 0) (hm : m.registered = false)
      (hgone : m.cache = false ∧ m.cacheMem = false) (hcalls : m.calls = []) :
      InitOutcome k turns m k.registerFilesystem
  | noMemory (hreg : k.registerFilesystem = 0) (hloop : ¬ LoopReached k)
      (hm : m.registered = true) (hgone : m.cache = false ∧ m.cacheMem = false)
      (hcalls : m.calls = [] ∨ m.calls = [.destroy]) :
      InitOutcome k turns m (-ENOMEM)
  | stopped (hloop : LoopReached k) (htaken : taken k turns 0 < turns)
      (hm : m.registered = true) (hgone : m.cacheMem = false)
      (hcalls : m.calls = (List.range' 0 (taken k turns 0)).map .alloc ++
        [if taken k turns 0 = 0 then none else some 0].map .free ++ [.destroy])
      (hcache : m.cache = !k.kmemCacheDestroy ((List.range' 0 (taken k turns 0)).map .alloc ++
        [if taken k turns 0 = 0 then none else some 0].map .free)) :
      InitOutcome k turns m (-ENOMEM)
  | loaded (hcalls : m.calls = (List.range' 0 turns).map .alloc)
      (hobjects : ∀ j < turns, m.entries j = some j)
      (haccesses : ∀ a, a ∈ m.accesses ↔ a < turns) :
      InitOutcome k turns m 0

section Load

variable {pageSize : ℕ} {cachedCount ret : ℤ} {entries : ℕ → Option ℕ} {m : Module}

theorem initOutcome (h : myvfsInit k pageSize cachedCount (blank entries) = (ret, m)) :
    InitOutcome k cachedCount.toNat m ret := by
  unfold myvfsInit at h
  by_cases hreg : k.registerFilesystem = 0
  · cases hmalloc : k.kmalloc with
    | false =>
      simp only [hreg, hmalloc, ne_eq, not_true_eq_false, if_false, Bool.not_false, if_true,
        Prod.mk.injEq] at h
      obtain ⟨rfl, rfl⟩ := h
      exact .noMemory hreg (by simp [LoopReached, hmalloc]) rfl ⟨rfl, rfl⟩ (.inl rfl)
    | true =>
      cases hcreate : k.kmemCacheCreate with
      | false =>
        simp only [hreg, hmalloc, hcreate, ne_eq, not_true_eq_false, if_false, Bool.not_false,
          Bool.not_true, Bool.false_eq_true, if_true, Prod.mk.injEq] at h
        obtain ⟨rfl, rfl⟩ := h
        exact .noMemory hreg (by simp [LoopReached, hcreate]) rfl ⟨rfl, rfl⟩ (.inr rfl)
      | true =>
        simp only [hreg, hmalloc, hcreate, ne_eq, not_true_eq_false, if_false,
          Bool.not_true, Bool.false_eq_true] at h
        obtain ⟨hdone, hfill⟩ := allocLoop_spec (k := k) cachedCount.toNat 0
          { blank entries with registered := true, cacheMem := true, cache := true }
        generalize allocLoop k cachedCount.toNat 0 _ = r at h hdone hfill
        obtain ⟨ok, m'⟩ := r
        have hloop : LoopReached k := ⟨hreg, hmalloc, hcreate⟩
        have hle := taken_le (k := k) cachedCount.toNat 0
        cases ok with
        | false =>
          simp only [Prod.mk.injEq] at h
          obtain ⟨rfl, rfl⟩ := h
          have hne : taken k cachedCount.toNat 0 ≠ cachedCount.toNat := by simpa using hdone
          have hcalls : m'.calls = (List.range' 0 (taken k cachedCount.toNat 0)).map .alloc :=
            hfill.calls
          have hfirst : m'.entries 0 =
              if taken k cachedCount.toNat 0 = 0 then none else some 0 := by
            split
            · rename_i hzero
              simpa [hzero] using hfill.null (by omega)
            · exact hfill.object 0 (Nat.le_refl 0) (by omega)
          refine .stopped hloop (by omega) hfill.registered rfl ?_ ?_
          · simp only [Module.kfree, Module.kmemCacheDestroy, Module.kmemCacheFree, Module.read,
              Module.printk, hcalls, hfirst, List.map_singleton]
          · have hcache : m'.cache = true := hfill.cache
            simp only [Module.kfree, Module.kmemCacheDestroy, Module.kmemCacheFree, Module.read,
              Module.printk, hcalls, hfirst, hcache, List.map_singleton, Bool.true_and]
        | true =>
          have hn : taken k cachedCount.toNat 0 = cachedCount.toNat := by simpa using hdone
          rw [hn] at hfill
          simp only [Prod.mk.injEq] at h
          obtain ⟨rfl, rfl⟩ := h
          refine .loaded hfill.calls ?_ ?_
          · intro j hj
            exact hfill.object j (Nat.zero_le j) (by omega)
          · intro a
            refine (hfill.accesses a).trans ?_
            simp [blank]
  · simp only [hreg, ne_eq, not_false_eq_true, if_true, Prod.mk.injEq] at h
    obtain ⟨rfl, rfl⟩ := h
    exact .unregistered hreg rfl ⟨rfl, rfl⟩ rfl

/-- Nothing is left only when the file system type could not be registered: no path
after that takes it off the list again. The objects are all given back only if there was
at most one, since the path out of the loop gives back the first entry alone; if there were
more, the cache remains too. -/
theorem failed_load_iff (h : myvfsInit k pageSize cachedCount (blank entries) = (ret, m))
    (hret : ret ≠ 0) :
    (NothingLeft m ↔ k.registerFilesystem ≠ 0) ∧
      (Pool.Returned m.calls ↔ ¬ (LoopReached k ∧ k.kmemCacheAlloc 0 = true ∧
        k.kmemCacheAlloc 1 = true)) ∧
      m.cacheMem = false ∧
      (k.DestroysReturned → LoopReached k → k.kmemCacheAlloc 0 = true →
        k.kmemCacheAlloc 1 = true → m.cache = true) := by
  cases initOutcome h with
  | unregistered hreg hm hgone hcalls =>
    have hreturned : Pool.Returned m.calls := Pool.returned_of_no_alloc (by simp [hcalls])
    refine ⟨?_, ?_, hgone.2, fun _ hloop => absurd hloop.1 hreg⟩
    · simp only [hreg, ne_eq, not_false_eq_true, iff_true]
      exact ⟨hm, hreturned, hgone.1, hgone.2⟩
    · simp only [hreturned, true_iff]
      intro hall
      exact hreg hall.1.1
  | noMemory hreg hloop hm hgone hcalls =>
    have hreturned : Pool.Returned m.calls :=
      Pool.returned_of_no_alloc (by rcases hcalls with hcalls | hcalls <;> simp [hcalls])
    refine ⟨?_, ?_, hgone.2, fun _ h => absurd h hloop⟩
    · simp only [hreg, ne_eq, not_true_eq_false, iff_false]
      intro hleft
      exact absurd hleft.registered (by simp [hm])
    · simp only [hreturned, true_iff]
      intro hall
      exact hloop hall.1
  | stopped hloop htaken hm hgone hcalls hcache =>
    refine ⟨?_, ?_, hgone, ?_⟩
    · simp only [hloop.1, ne_eq, not_true_eq_false, iff_false]
      intro hleft
      exact absurd hleft.registered (by simp [hm])
    · rw [hcalls, Pool.returned_iff, count_first, one_lt_taken htaken]
      simp only [hloop, true_and]
    · intro hdestroy _ h0 h1
      rw [hcache, Bool.not_eq_true']
      by_contra hdone
      -- a cache that is destroyed has its objects back, and the second never came back
      have hreturned := hdestroy _ (by simpa using hdone)
      rw [Pool.returned_append_destroy, ← List.map_singleton, Pool.returned_iff] at hreturned
      exact (count_first _).1 hreturned ((one_lt_taken htaken).2 ⟨h0, h1⟩)
  | loaded => exact absurd rfl hret

theorem sparing_destroysReturned (n : ℕ) : (sparing n).DestroysReturned :=
  fun _ h => of_decide_eq_true h

/-- Three objects are wanted and the cache has two. -/
theorem failed_load_third :
    (myvfsInit (sparing 2) 4096 3 (blank fun _ => none)).1 ≠ 0 ∧
      (NothingLeft (myvfsInit (sparing 2) 4096 3 (blank fun _ => none)).2 ↔
        (sparing 2).registerFilesystem ≠ 0) ∧
      (myvfsInit (sparing 2) 4096 3 (blank fun _ => none)).2.cache = true := by
  have hret : (myvfsInit (sparing 2) 4096 3 (blank fun _ => none)).1 ≠ 0 := by decide
  obtain ⟨hleft, -, -, hcache⟩ := failed_load_iff (Prod.eta _).symm hret
  exact ⟨hret, hleft, hcache (sparing_destroysReturned 2) ⟨rfl, rfl, rfl⟩ rfl rfl⟩

/-- The second object is never given back, and the file system type stays registered. -/
theorem failed_load_fails :
    ¬ ∀ (k : Kernel) (pageSize : ℕ) (cachedCount ret : ℤ) (entries : ℕ → Option ℕ) (m : Module),
      0 ≤ cachedCount → cachedCount ≤ pageSize →
      myvfsInit k pageSize cachedCount (blank entries) = (ret, m) → ret ≠ 0 → NothingLeft m := by
  intro h
  have hleft := h (sparing 2) 4096 3 _ (fun _ => none) _ (by decide) (by decide) rfl (by decide)
  have hsecond := (hleft.objects 1 (by decide)).1
  exact absurd hsecond (by decide)

/-- With enough memory the load succeeds, whatever `cached_count` is. -/
theorem load_succeeds (hloop : LoopReached k)
    (halloc : ∀ i < cachedCount.toNat, k.kmemCacheAlloc i = true) :
    ∃ m, myvfsInit k pageSize cachedCount (blank entries) = (0, m) := by
  have htaken : taken k cachedCount.toNat 0 = cachedCount.toNat :=
    taken_all fun j _ hj => halloc j (by omega)
  generalize hr : myvfsInit k pageSize cachedCount (blank entries) = r
  obtain ⟨ret, m⟩ := r
  cases initOutcome hr with
  | unregistered hreg => exact absurd hloop.1 hreg
  | noMemory hreg hnot => exact absurd hloop hnot
  | stopped _ hlt => omega
  | loaded => exact ⟨m, rfl⟩

/-- A load that succeeds and the unload after it use as many entries as the loops make
turns, and give back every object. -/
theorem unloaded (h : myvfsInit k pageSize cachedCount (blank entries) = (ret, m))
    (hret : ret = 0) :
    (∀ a, a ∈ (myvfsExit k cachedCount m).accesses ↔ a < cachedCount.toNat) ∧
      Pool.Returned (myvfsExit k cachedCount m).calls := by
  cases initOutcome h with
  | unregistered hreg => exact absurd hret hreg
  | noMemory => exact absurd hret (by decide)
  | stopped => exact absurd hret (by decide)
  | loaded hcalls hobjects haccesses =>
    -- unregistering changes neither the array nor the cache
    obtain ⟨m', hm', hexit⟩ : ∃ m' : Module, (m'.entries = m.entries ∧ m'.calls = m.calls ∧
        m'.accesses = m.accesses) ∧ myvfsExit k cachedCount m =
          ((freeLoop cachedCount.toNat 0 m').kfree.kmemCacheDestroy k).printk
            "+ myvfs: module unloaded\n" := by
      refine ⟨_, ?_, rfl⟩
      split <;> exact ⟨rfl, rfl, rfl⟩
    obtain ⟨hentries, hcalls', haccesses'⟩ := hm'
    have hfree := freeLoop_spec cachedCount.toNat 0 m' fun j _ hj => by
      rw [hentries]
      exact hobjects j (by omega)
    refine ⟨?_, ?_⟩
    · intro a
      rw [hexit]
      refine (hfree.accesses a).trans ?_
      rw [haccesses', haccesses]
      omega
    · have hall : (myvfsExit k cachedCount m).calls =
          (List.range' 0 cachedCount.toNat).map .alloc ++
            ((List.range' 0 cachedCount.toNat).map some).map .free ++ [.destroy] := by
        rw [hexit, ← hcalls, ← hcalls', ← hfree.calls]
        rfl
      rw [hall]
      exact Pool.returned_all List.nodup_range'

/-- The loops of load and unload match for any `cached_count`, but the array is only as
long as a page has bytes. -/
theorem balanced_iff (h : myvfsInit k pageSize cachedCount (blank entries) = (0, m)) :
    Balanced pageSize (myvfsExit k cachedCount m) ↔ cachedCount ≤ pageSize := by
  obtain ⟨haccesses, hreturned⟩ := unloaded h rfl
  refine ⟨?_, ?_⟩
  · intro hbalanced
    by_contra hlt
    have hlast := hbalanced.inBounds (cachedCount.toNat - 1) ((haccesses _).2 (by omega))
    omega
  · intro hle
    refine ⟨?_, hreturned⟩
    intro a ha
    have hlt := (haccesses a).1 ha
    omega

theorem balanced_two :
    (myvfsInit (sparing 2) 4096 2 (blank fun _ => none)).1 = 0 ∧
      (Balanced 4096 (myvfsExit (sparing 2) 2
        (myvfsInit (sparing 2) 4096 2 (blank fun _ => none)).2) ↔ (2 : ℤ) ≤ (4096 : ℕ)) :=
  ⟨rfl, balanced_iff rfl⟩

/-- One more object than a page has bytes. -/
theorem balanced_fails :
    ¬ ∀ (k : Kernel) (pageSize : ℕ) (cachedCount : ℤ) (entries : ℕ → Option ℕ) (m : Module),
      myvfsInit k pageSize cachedCount (blank entries) = (0, m) →
      Balanced pageSize (myvfsExit k cachedCount m) := by
  intro h
  have hobjects : ∀ i < (4097 : ℤ).toNat, (sparing 4097).kmemCacheAlloc i = true :=
    fun i hi => decide_eq_true hi
  obtain ⟨m, hload⟩ : ∃ m, myvfsInit (sparing 4097) 4096 4097 (blank fun _ => none) = (0, m) :=
    load_succeeds ⟨rfl, rfl, rfl⟩ hobjects
  have haccess := ((unloaded hload rfl).1 4096).2 (by decide)
  exact absurd ((h _ _ _ _ _ hload).inBounds 4096 haccess) (by decide)

end Load

end OsLabs.Myvfs
