import OsLabs.Spec.ProcInfo

/-! When `print_stat` labels the fields of its line. -/

namespace OsLabs.ProcInfo

theorem length_NO_DESCR : NO_DESCR.length = 52 := rfl

theorem printTokens_eq_some {i : ℕ} {toks : List (List Char)} {out : List (String × List Char)} :
    printTokens i toks = some out ↔
      toks.length ≤ (NO_DESCR.drop i).length ∧ out = (NO_DESCR.drop i).zip toks := by
  induction toks generalizing i out with
  | nil =>
    rw [printTokens, List.zip_nil_right, Option.some.injEq, eq_comm]
    exact (and_iff_right (Nat.zero_le _)).symm
  | cons token rest ih =>
    rw [printTokens, ← List.head?_drop]
    cases hdrop : NO_DESCR.drop i with
    | nil => simp
    | cons descr table =>
      have htail : NO_DESCR.drop (i + 1) = table := by
        rw [← List.tail_drop, hdrop]
        rfl
      constructor
      · intro h
        obtain ⟨_, hhead, h⟩ := Option.bind_eq_some_iff.1 h
        obtain rfl := Option.some.inj hhead
        obtain ⟨printed, hprinted, h⟩ := Option.bind_eq_some_iff.1 h
        obtain ⟨hlen, rfl⟩ := ih.1 hprinted
        rw [htail] at hlen h
        exact ⟨Nat.succ_le_succ hlen, (Option.some.inj h).symm⟩
      · rintro ⟨hlen, rfl⟩
        have hprinted : printTokens (i + 1) rest = some (table.zip rest) := by
          rw [ih, htail]
          exact ⟨Nat.le_of_succ_le_succ hlen, rfl⟩
        rw [hprinted]
        rfl

/-- As many tokens as entries are printed together when the loop comes to its end on them. -/
theorem printTokens_eq_zip {toks fields : List (List Char)} (h : fields.length = 52) :
    printTokens 0 toks = some (NO_DESCR.zip fields) ↔ toks = fields := by
  rw [printTokens_eq_some, List.drop_zero]
  constructor
  · rintro ⟨hlen, hzip⟩
    have hcount := congrArg List.length hzip
    rw [List.length_zip, List.length_zip, h, length_NO_DESCR] at hcount
    rw [length_NO_DESCR] at hlen
    have hsnd := congrArg (List.map Prod.snd) hzip
    rw [List.map_snd_zip (by rw [length_NO_DESCR]; omega),
      List.map_snd_zip (by rw [length_NO_DESCR]; omega)] at hsnd
    exact hsnd.symm
  · rintro rfl
    exact ⟨by rw [h, length_NO_DESCR], rfl⟩

namespace StatLine

variable (l : StatLine)

def name : List Char := '(' :: l.comm ++ [')']

theorem length_fields : (l.init ++ [l.last]).length = 52 := by
  simp [init, l.length_eq]

theorem space_notMem_last : ' ' ∉ l.last := by
  have := l.exitCode.no_space
  simp [last, this]

theorem last_ne_nil : l.last ≠ [] := by simp [last]

theorem nul_notMem_text : NUL ∉ l.text := by
  have hsep : NUL ∉ [' '] := by decide
  have hname : NUL ∉ '(' :: l.comm ++ [')'] := by
    have h1 : NUL ≠ '(' := by decide
    have h2 : NUL ≠ ')' := by decide
    simp [l.no_nul, h1, h2]
  have hlast : NUL ∉ l.last := by
    have h1 : NUL ≠ '\n' := by decide
    simp [last, l.exitCode.no_nul, h1]
  have hinit : ∀ t ∈ l.init, NUL ∉ t := by
    rw [init, List.forall_mem_cons, List.forall_mem_cons, List.forall_mem_map]
    exact ⟨l.pid.no_nul, hname, fun f _ => f.no_nul⟩
  rw [text, List.mem_append, not_or, List.mem_flatMap]
  refine ⟨?_, hlast⟩
  rintro ⟨t, ht, hmem⟩
  rcases List.mem_append.1 hmem with hmem | hmem
  · exact hinit t ht hmem
  · exact hsep hmem

theorem tokens_text (junk : List Char) :
    tokens ' ' (l.text ++ junk) = l.pid.text :: (tokens ' ' l.name ++
      (l.fields.map Field.text ++ tokens ' ' (l.last ++ junk))) := by
  have hfield : ∀ f : Field, tokens ' ' f.text = [f.text] := fun f =>
    tokens_eq_singleton f.no_space f.ne_nil
  have hfields : (l.fields.map Field.text).flatMap (tokens ' ') = l.fields.map Field.text := by
    rw [List.flatMap_map, List.flatMap_congr fun f _ => hfield f, List.map_eq_flatMap]
  rw [text, List.append_assoc, tokens_words, init, List.flatMap_cons, List.flatMap_cons, hfields,
    hfield]
  simp [name]

theorem length_tokens_name : 0 < (tokens ' ' l.name).length := by
  rw [List.length_pos_iff, Ne, tokens_eq_nil_iff]
  intro hall
  exact absurd (hall '(' List.mem_cons_self) (by decide)

/-- The tokens are the fields exactly when the name is one, and nothing but spaces is behind
the last. -/
theorem tokens_text_eq_iff (junk : List Char) :
    tokens ' ' (l.text ++ junk) = l.init ++ [l.last] ↔ ' ' ∉ l.comm ∧ ∀ c ∈ junk, c = ' ' := by
  have hname : tokens ' ' l.name = [l.name] ↔ ' ' ∉ l.comm := by
    rw [tokens_eq_self_iff (by simp [name])]
    simp [name]
  rw [← tokens_append_eq_singleton l.space_notMem_last l.last_ne_nil, ← hname, l.tokens_text, init]
  constructor
  · intro h
    have hcount := congrArg List.length h
    have hpos := l.length_tokens_name
    have hpos' : 0 < (tokens ' ' (l.last ++ junk)).length := by
      rw [tokens_append l.space_notMem_last l.last_ne_nil]
      exact Nat.succ_pos _
    simp only [List.length_cons, List.length_append, List.length_map, List.length_nil] at hcount
    obtain ⟨t, ht⟩ := List.length_eq_one_iff.1 (show (tokens ' ' l.name).length = 1 by omega)
    rw [ht] at h ⊢
    simp only [List.cons_append, List.cons_eq_cons, List.nil_append, true_and] at h
    obtain ⟨rfl, h⟩ := h
    exact ⟨rfl, List.append_cancel_left h⟩
  · rintro ⟨hn, hl⟩
    rw [hn, hl]
    simp [name]

end StatLine

/-- The fields are labelled exactly when the name has no space, the line is shorter than the
array, and what the array held behind it up to the next NUL is nothing but spaces. -/
theorem labelled_iff (buf : List Char) (l : StatLine) :
    Labelled buf l ↔ ' ' ∉ l.comm ∧ NUL ∈ buf.drop l.text.length ∧
      ∀ c ∈ (buf.drop l.text.length).takeWhile (· ≠ NUL), c = ' ' := by
  have hnul := l.nul_notMem_text
  have hmem : NUL ∈ l.text.take buf.length ++ buf.drop l.text.length ↔
      NUL ∈ buf.drop l.text.length := by
    rw [List.mem_append, or_iff_right fun h => hnul (List.mem_of_mem_take h)]
  rw [Labelled, printStat]
  simp only [hmem]
  split_ifs with hin
  · have hlt : l.text.length < buf.length := by
      have := List.length_pos_of_mem hin
      rw [List.length_drop] at this
      omega
    have hstr : (l.text ++ buf.drop l.text.length).takeWhile (· ≠ NUL) =
        l.text ++ (buf.drop l.text.length).takeWhile (· ≠ NUL) := by
      refine List.takeWhile_append_of_pos fun c hc => ?_
      rw [decide_eq_true_eq]
      rintro rfl
      exact hnul hc
    rw [List.take_of_length_le (by omega), hstr, printTokens_eq_zip l.length_fields,
      l.tokens_text_eq_iff]
    exact and_congr_right fun _ => (and_iff_right hin).symm
  · exact ⟨nofun, fun h => absurd h.2.1 hin⟩

def twoWords : StatLine where
  pid := ⟨['1'], by decide, by decide, by decide⟩
  comm := "a b".toList
  fields := List.replicate 49 ⟨['0'], by decide, by decide, by decide⟩
  exitCode := ⟨['0'], by decide, by decide, by decide⟩
  no_nul := by decide
  length_eq := List.length_replicate

/-- The 53rd token has no entry. -/
theorem twoWords_not_labelled : printStat (List.replicate 4096 NUL) twoWords.text = none ∧
    ¬ Labelled (List.replicate 4096 NUL) twoWords := by
  have hnone : printStat (List.replicate 4096 NUL) twoWords.text = none := by decide +kernel
  refine ⟨hnone, ?_⟩
  rw [Labelled, hnone]
  exact nofun

end OsLabs.ProcInfo
