import Mathlib.Data.List.Basic
import Mathlib.Data.List.TakeWhile

/-! The tokens of a text, as `strtok` finds them one after the other, and what becomes of
them when the text comes in chunks. -/

namespace OsLabs

variable {α : Type*} [DecidableEq α] {d : α}

/-- The pieces between the separators, the empty ones left out. -/
def tokens (d : α) (s : List α) : List (List α) := (s.splitOn d).filter fun t => !t.isEmpty

theorem tokens_eq_singleton {s : List α} (hd : d ∉ s) (hs : s ≠ []) : tokens d s = [s] := by
  rw [tokens, List.splitOn_eq_singleton hd]
  simp [hs]

theorem tokens_nil : tokens d ([] : List α) = [] := by simp [tokens]

theorem tokens_append_cons (s t : List α) : tokens d (s ++ d :: t) = tokens d s ++ tokens d t := by
  rw [tokens, List.splitOn_append_cons_of_beq s t (beq_self_eq_true d), List.filter_append]
  rfl

theorem forall_tokens {s : List α} {p : List α → Prop} (h : p []) :
    (∀ t ∈ tokens d s, p t) ↔ ∀ t ∈ s.splitOn d, p t := by
  constructor
  · intro hall t ht
    by_cases hnil : t = []
    · rw [hnil]
      exact h
    · exact hall t (List.mem_filter.2 ⟨ht, by simpa using hnil⟩)
  · intro hall t ht
    exact hall t (List.mem_filter.1 ht).1

theorem flatMap_tokens {β : Type*} {s : List α} {f : List α → List β} (h : f [] = []) :
    (tokens d s).flatMap f = (s.splitOn d).flatMap f := by
  rw [tokens]
  generalize s.splitOn d = pieces
  induction pieces with
  | nil => rfl
  | cons t pieces ih =>
    by_cases hnil : t = []
    · simp [hnil, h, ih]
    · simp [hnil, ih]

/-- The first token of a text that begins with no separator. -/
theorem tokens_append {w : List α} (hd : d ∉ w) (hw : w ≠ []) (s : List α) :
    tokens d (w ++ s) =
      (w ++ s.takeWhile (· ≠ d)) :: tokens d (s.dropWhile (· ≠ d)) := by
  have hword : d ∉ w ++ s.takeWhile (· ≠ d) := by
    intro hmem
    rcases List.mem_append.1 hmem with hmem | hmem
    · exact hd hmem
    · have hne := List.mem_takeWhile_imp hmem
      simp at hne
  have hne : w ++ s.takeWhile (· ≠ d) ≠ [] := fun h => hw (List.append_eq_nil_iff.1 h).1
  conv_lhs => rw [← List.takeWhile_append_dropWhile (p := (· ≠ d)) (l := s), ← List.append_assoc]
  cases hrest : s.dropWhile (· ≠ d) with
  | nil => rw [List.append_nil, tokens_eq_singleton hword hne, tokens_nil]
  | cons c rest =>
    obtain rfl : c = d := by
      have hhead := List.head?_dropWhile_not (· ≠ d) s
      rw [hrest] at hhead
      simpa using hhead
    rw [tokens_append_cons, tokens_eq_singleton hword hne, ← List.nil_append (c :: rest),
      tokens_append_cons, tokens_nil]
    rfl

theorem tokens_cons_self (s : List α) : tokens d (d :: s) = tokens d s := by
  rw [← List.nil_append (d :: s), tokens_append_cons, tokens_nil]
  rfl

theorem tokens_eq_nil_iff {s : List α} : tokens d s = [] ↔ ∀ c ∈ s, c = d := by
  induction s with
  | nil => simp [tokens_nil]
  | cons c s ih =>
    by_cases hc : c = d
    · rw [hc, tokens_cons_self, ih]
      simp
    · have htok := tokens_append (d := d) (w := [c]) (by simpa using fun h => hc h.symm) (by simp) s
      rw [List.singleton_append] at htok
      simp [htok, hc]

/-- A word and what is behind it are one token, the word, exactly when nothing but separators
is behind it. -/
theorem tokens_append_eq_singleton {w s : List α} (hd : d ∉ w) (hw : w ≠ []) :
    tokens d (w ++ s) = [w] ↔ ∀ c ∈ s, c = d := by
  rw [tokens_append hd hw, List.cons_eq_cons, List.append_right_eq_self, tokens_eq_nil_iff]
  constructor
  · rintro ⟨hnil, hall⟩
    rw [← List.takeWhile_append_dropWhile (p := (· ≠ d)) (l := s), hnil]
    exact hall
  · intro hall
    refine ⟨List.eq_nil_iff_forall_not_mem.2 fun c hc => ?_, fun c hc => ?_⟩
    · have hne := List.mem_takeWhile_imp hc
      rw [hall c ((List.takeWhile_prefix _).subset hc)] at hne
      simp at hne
    · exact hall c ((List.dropWhile_suffix _).subset hc)

theorem notMem_of_mem_splitOn {s t : List α} (h : t ∈ s.splitOn d) : d ∉ t := by
  induction s generalizing t with
  | nil =>
    rw [List.splitOn_nil] at h
    rw [List.mem_singleton.1 h]
    exact List.not_mem_nil
  | cons c s ih =>
    rw [List.splitOn_cons_eq_if_modifyHead] at h
    split_ifs at h with hc
    · rcases List.mem_cons.1 h with rfl | h
      · exact List.not_mem_nil
      · exact ih h
    · obtain ⟨p, ps, hps⟩ := List.exists_cons_of_ne_nil (List.splitOn_ne_nil d s)
      rw [hps] at h ih
      rcases List.mem_cons.1 h with rfl | h
      · rw [List.mem_cons, not_or]
        exact ⟨fun h => hc (by simp [h]), ih List.mem_cons_self⟩
      · exact ih (List.mem_cons_of_mem p h)

theorem tokens_eq_self_iff {s : List α} (hs : s ≠ []) : tokens d s = [s] ↔ d ∉ s := by
  refine ⟨fun h => ?_, fun h => tokens_eq_singleton h hs⟩
  have hmem : s ∈ tokens d s := by
    rw [h]
    exact List.mem_singleton_self s
  exact notMem_of_mem_splitOn (List.mem_filter.1 hmem).1

theorem tokens_words (ws : List (List α)) (s : List α) :
    tokens d (ws.flatMap (· ++ [d]) ++ s) = ws.flatMap (tokens d) ++ tokens d s := by
  induction ws with
  | nil => rfl
  | cons w ws ih =>
    rw [List.flatMap_cons, List.append_assoc, List.append_assoc, List.singleton_append,
      tokens_append_cons, ih, List.flatMap_cons, List.append_assoc]

/-- One more chunk in front: its last piece belongs to the first line of the others. -/
def push (d : α) : List α → List (List (List α)) → List (List (List α))
  | [], lines => lines.modifyHead ([] :: ·)
  | x :: c, lines =>
    if x = d then [[]] :: push d c lines
    else (push d c lines).modifyHead fun pieces => pieces.modifyHead (x :: ·)

/-- The lines of a text that comes in chunks, each line as the list of its pieces. -/
def cuts (d : α) : List (List α) → List (List (List α))
  | [] => [[]]
  | c :: cs => push d c (cuts d cs)

/-- What `fread` returns, `n` at a time until nothing is left; each read takes something off,
so the text's length is fuel enough. -/
def reads (n : ℕ) (s : List α) : List (List α) := go s.length s
where
  go : ℕ → List α → List (List α)
    | 0, _ => []
    | fuel + 1, s => if s.isEmpty then [] else s.take n :: go fuel (s.drop n)

omit [DecidableEq α] in
theorem flatten_reads {n : ℕ} (hn : 0 < n) (s : List α) : (reads n s).flatten = s := by
  have hgo : ∀ fuel (s : List α), s.length ≤ fuel → (reads.go n fuel s).flatten = s := by
    intro fuel
    induction fuel with
    | zero =>
      intro s hs
      obtain rfl : s = [] := List.length_eq_zero_iff.1 (by omega)
      rfl
    | succ fuel ih =>
      intro s hs
      rw [reads.go]
      split_ifs with hnil
      · rw [List.isEmpty_iff.1 hnil]
        rfl
      · have hpos : 0 < s.length := List.length_pos_iff.2 fun h => hnil (List.isEmpty_iff.2 h)
        rw [List.flatten_cons, ih _ (by rw [List.length_drop]; omega), List.take_append_drop]
  exact hgo _ s (Nat.le_refl _)

theorem push_eq_cons (c : List α) {lines : List (List (List α))} (h : lines ≠ []) :
    ∃ p pieces rest, push d c lines = (p :: pieces) :: rest := by
  induction c with
  | nil =>
    obtain ⟨pieces, rest, rfl⟩ := List.exists_cons_of_ne_nil h
    exact ⟨[], pieces, rest, rfl⟩
  | cons x c ih =>
    obtain ⟨p, pieces, rest, heq⟩ := ih
    rw [push]
    split_ifs
    · exact ⟨[], [], _, rfl⟩
    · exact ⟨x :: p, pieces, rest, by rw [heq]; rfl⟩

theorem map_flatten_push (c : List α) {s : List α} {lines : List (List (List α))}
    (h : lines.map List.flatten = s.splitOn d) :
    (push d c lines).map List.flatten = (c ++ s).splitOn d := by
  have hne : lines ≠ [] := by
    rintro rfl
    exact List.splitOn_ne_nil d s h.symm
  induction c with
  | nil =>
    obtain ⟨pieces, rest, rfl⟩ := List.exists_cons_of_ne_nil hne
    exact h
  | cons x c ih =>
    rw [List.cons_append, List.splitOn_cons_eq_if_modifyHead, ← ih, push]
    obtain ⟨p, pieces, rest, heq⟩ := push_eq_cons (d := d) c hne
    by_cases hx : x = d
    · simp [hx]
    · simp [hx, heq]

theorem flatten_push (c : List α) {lines : List (List (List α))} (h : lines ≠ []) :
    (push d c lines).flatten = c.splitOn d ++ lines.flatten := by
  induction c with
  | nil =>
    obtain ⟨pieces, rest, rfl⟩ := List.exists_cons_of_ne_nil h
    simp [push]
  | cons x c ih =>
    rw [List.splitOn_cons_eq_if_modifyHead, push]
    obtain ⟨p, pieces, rest, heq⟩ := push_eq_cons (d := d) c h
    obtain ⟨q, qs, hq⟩ := List.exists_cons_of_ne_nil (List.splitOn_ne_nil d c)
    by_cases hx : x = d
    · simp [hx, ih]
    · rw [heq, hq] at ih
      obtain ⟨rfl, htail⟩ : p = q ∧ pieces ++ rest.flatten = qs ++ lines.flatten := by
        simpa using ih
      simp [hx, heq, hq, htail]

/-- Put together again, they are the lines of the whole text. -/
theorem map_flatten_cuts (cs : List (List α)) :
    (cuts d cs).map List.flatten = cs.flatten.splitOn d := by
  induction cs with
  | nil => simp [cuts]
  | cons c cs ih => exact map_flatten_push c ih

theorem flatten_cuts (cs : List (List α)) :
    (cuts d cs).flatten = cs.flatMap fun c => c.splitOn d := by
  induction cs with
  | nil => rfl
  | cons c cs ih =>
    have hne : cuts d cs ≠ [] := by
      intro hnil
      have hlines := map_flatten_cuts (d := d) cs
      rw [hnil] at hlines
      exact List.splitOn_ne_nil d _ hlines.symm
    rw [cuts, flatten_push c hne, ih]
    rfl

end OsLabs
