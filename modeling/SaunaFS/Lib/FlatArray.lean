import Mathlib

/-! Flat arrays, as functions from offsets to entries, and the two loops that
fill them: writing a run of consecutive entries, and packing the blocks of the
elements a predicate selects one after the other, with a cursor that counts the
blocks written so far.

The selected elements of a list are `l.filter keep`; the block of the `r`-th of
them starts at `(start + r) * w`. A grid of rows, each packed entry by entry
(blocks of width one), is read back the same way (`foldl_packBlocks_apply`).
-/

set_option autoImplicit false

namespace FlatArray

variable {α : Type}

/-- `f 0, ..., f (w - 1)` written at the offsets `base, ..., base + w - 1`. -/
def writeBlock (out : Nat → α) (base w : Nat) (f : Nat → α) : Nat → α :=
  (List.range w).foldl (fun out j => Function.update out (base + j) (f j)) out

theorem writeBlock_apply (out : Nat → α) (base w : Nat) (f : Nat → α) (t : Nat) :
    writeBlock out base w f t = if base ≤ t ∧ t < base + w then f (t - base) else out t := by
  induction w with
  | zero => simp [writeBlock]
  | succ w ih =>
    rw [writeBlock, List.range_succ, List.foldl_append, List.foldl_cons, List.foldl_nil]
    by_cases last : t = base + w
    · subst last
      simp
    · rw [Function.update_of_ne last, ← writeBlock, ih]
      by_cases inside : base ≤ t ∧ t < base + w
      · rw [if_pos inside, if_pos (by omega)]
      · rw [if_neg inside, if_neg (by omega)]

/-- Offsets `w * i + j` with `j < w` name each entry once: the block `i` and the place `j`. -/
theorem block_offset_inj {w i i' j j' : Nat} (hj : j < w) (hj' : j' < w)
    (same : w * i + j = w * i' + j') : i = i' ∧ j = j' := by
  have positive : 0 < w := by omega
  have row : (w * i + j) / w = (w * i' + j') / w := by rw [same]
  rw [Nat.mul_add_div positive, Nat.mul_add_div positive, Nat.div_eq_of_lt hj,
    Nat.div_eq_of_lt hj', Nat.add_zero, Nat.add_zero] at row
  subst row
  exact ⟨rfl, by omega⟩

/-- A loop that writes one fixed value at the offset `pos i` of each element `i`. -/
theorem foldl_update_const_apply (pos : Nat → Nat) (c : α) :
    ∀ (l : List Nat) (a : Nat → α) (t : Nat),
      l.foldl (fun a i => Function.update a (pos i) c) a t = if l.any (fun i => pos i == t) then c else a t
  | [], _, _ => rfl
  | i :: l, a, t => by
    rw [List.foldl_cons, foldl_update_const_apply pos c l, List.any_cons]
    by_cases hit : pos i = t
    · subst hit
      simp
    · simp [hit, Function.update_of_ne (Ne.symm hit)]

/-- A loop over `s, s + 1, ...` whose accumulator is, at each element `i`, the value
`h i` of a known sequence: the loop without the accumulator, and the sequence's next value. -/
theorem foldl_range'_counter {β γ : Type} (step : β × γ → Nat → β × γ) (F : β → Nat → β) (h : Nat → γ) :
    ∀ (s n : Nat), (∀ b, ∀ i, s ≤ i → i < s + n → step (b, h i) i = (F b i, h (i + 1))) →
      ∀ b, (List.range' s n).foldl step (b, h s) = ((List.range' s n).foldl F b, h (s + n))
  | _, 0, _, _ => rfl
  | s, n + 1, hstep, b => by
    rw [List.range'_succ, List.foldl_cons, List.foldl_cons, hstep b s le_rfl (by omega),
      foldl_range'_counter step F h (s + 1) n (fun b i lo hi => hstep b i (by omega) (by omega)),
      show s + 1 + n = s + (n + 1) by omega]

/-- Blocks `[w * i, w * i + w)` written for the rows `i ∈ l`, row `i` holding `f i j`. -/
theorem foldl_writeBlock_apply_of_not_mem (w : Nat) (f : Nat → Nat → α) :
    ∀ (l : List Nat) (a : Nat → α) {t : Nat}, (∀ i ∈ l, ¬ (w * i ≤ t ∧ t < w * i + w)) →
      l.foldl (fun a i => writeBlock a (w * i) w (f i)) a t = a t
  | [], _, _, _ => rfl
  | i :: l, a, t, outside => by
    rw [List.foldl_cons, foldl_writeBlock_apply_of_not_mem w f l _ fun i' mem => outside i' (by simp [mem]),
      writeBlock_apply, if_neg (outside i (by simp))]

theorem foldl_writeBlock_apply (w : Nat) (f : Nat → Nat → α) :
    ∀ (l : List Nat) (a : Nat → α) {i j : Nat}, l.Nodup → i ∈ l → j < w →
      l.foldl (fun a i => writeBlock a (w * i) w (f i)) a (w * i + j) = f i j
  | [], _, _, _, _, mem, _ => by simp at mem
  | i₀ :: l, a, i, j, nodup, mem, hj => by
    rw [List.foldl_cons]
    rcases List.mem_cons.mp mem with rfl | later
    · -- the later rows are other rows, whose blocks do not meet this one
      rw [foldl_writeBlock_apply_of_not_mem w f l _ fun i' mem' inside => ?_, writeBlock_apply,
        if_pos (by omega)]
      · simp
      · have other := (List.nodup_cons.mp nodup).1
        have offset : w * i' + (w * i + j - w * i') = w * i + j := by omega
        obtain ⟨same, -⟩ := block_offset_inj (by omega) hj offset
        exact other (same ▸ mem')
    · exact foldl_writeBlock_apply w f l _ (List.nodup_cons.mp nodup).2 later hj

/-- For each element `i` of `l` that `keep` selects, the block `f i 0, ..., f i (w - 1)`
written at the next free block; the second component counts the blocks. -/
def packBlocks (keep : Nat → Bool) (w : Nat) (f : Nat → Nat → α) (l : List Nat)
    (acc : (Nat → α) × Nat) : (Nat → α) × Nat :=
  l.foldl (fun acc i => if keep i then (writeBlock acc.1 (acc.2 * w) w (f i), acc.2 + 1) else acc) acc

section Pack

variable (keep : Nat → Bool) (w : Nat) (f : Nat → Nat → α)

@[simp] theorem packBlocks_nil (acc : (Nat → α) × Nat) : packBlocks keep w f [] acc = acc := rfl

theorem packBlocks_cons (i : Nat) (l : List Nat) (acc : (Nat → α) × Nat) :
    packBlocks keep w f (i :: l) acc =
      packBlocks keep w f l (if keep i then (writeBlock acc.1 (acc.2 * w) w (f i), acc.2 + 1) else acc) :=
  rfl

theorem packBlocks_snd (l : List Nat) (acc : (Nat → α) × Nat) :
    (packBlocks keep w f l acc).2 = acc.2 + (l.filter keep).length := by
  induction l generalizing acc with
  | nil => rfl
  | cons i l ih =>
    rw [packBlocks_cons, ih]
    by_cases kept : keep i
    · simp [kept]
      omega
    · simp [kept]

/-- Entries before the first free block are not written. -/
theorem packBlocks_apply_below (l : List Nat) (acc : (Nat → α) × Nat) {t : Nat} (below : t < acc.2 * w) :
    (packBlocks keep w f l acc).1 t = acc.1 t := by
  induction l generalizing acc with
  | nil => rfl
  | cons i l ih =>
    rw [packBlocks_cons]
    by_cases kept : keep i
    · rw [if_pos kept, ih _ (by simp only; nlinarith)]
      dsimp only
      rw [writeBlock_apply, if_neg (by omega)]
    · rw [if_neg kept, ih _ below]

/-- The `r`-th selected element's block holds its entries. -/
theorem packBlocks_apply_block (l : List Nat) (acc : (Nat → α) × Nat) {r j : Nat}
    (hr : r < (l.filter keep).length) (hj : j < w) :
    (packBlocks keep w f l acc).1 ((acc.2 + r) * w + j) = f (l.filter keep)[r] j := by
  induction l generalizing acc r with
  | nil => simp at hr
  | cons i l ih =>
    rw [packBlocks_cons]
    by_cases kept : keep i
    · simp only [List.filter_cons_of_pos kept, List.length_cons] at hr ⊢
      rw [if_pos kept]
      cases r with
      | zero =>
        -- the block just written, which the later elements leave alone
        simp only [Nat.add_zero]
        rw [packBlocks_apply_below _ _ _ _ _ (by simp only; nlinarith)]
        dsimp only
        rw [writeBlock_apply, if_pos (by omega)]
        simp
      | succ r =>
        rw [show (acc.2 + (r + 1)) * w + j = ((acc.2 + 1) + r) * w + j by ring_nf]
        exact ih _ (by omega)
    · simp only [List.filter_cons_of_neg (by simpa using kept)] at hr ⊢
      rw [if_neg kept]
      exact ih _ hr

end Pack

/-- Rows packed one after the other, entry by entry: for each row `i`, the entries
`g i j` of the columns `j ∈ cols` that `keep` selects. -/
theorem foldl_packBlocks_snd (keep : Nat → Bool) (g : Nat → Nat → α) (cols : List Nat) :
    ∀ (rows : List Nat) (acc : (Nat → α) × Nat),
      (rows.foldl (fun acc i => packBlocks keep 1 (fun j _ => g i j) cols acc) acc).2 =
        acc.2 + rows.length * (cols.filter keep).length
  | [], _ => by simp
  | i :: rows, acc => by
    rw [List.foldl_cons, foldl_packBlocks_snd keep g cols rows, packBlocks_snd, List.length_cons]
    ring

theorem foldl_packBlocks_apply_below (keep : Nat → Bool) (g : Nat → Nat → α) (cols : List Nat) :
    ∀ (rows : List Nat) (acc : (Nat → α) × Nat) {t : Nat}, t < acc.2 →
      (rows.foldl (fun acc i => packBlocks keep 1 (fun j _ => g i j) cols acc) acc).1 t = acc.1 t
  | [], _, _, _ => rfl
  | i :: rows, acc, t, below => by
    rw [List.foldl_cons, foldl_packBlocks_apply_below keep g cols rows _ (by rw [packBlocks_snd]; omega),
      packBlocks_apply_below _ _ _ _ _ (by omega)]

theorem foldl_packBlocks_apply (keep : Nat → Bool) (g : Nat → Nat → α) (cols : List Nat) :
    ∀ (rows : List Nat) (acc : (Nat → α) × Nat) {q r : Nat} (hq : q < rows.length)
      (hr : r < (cols.filter keep).length),
      (rows.foldl (fun acc i => packBlocks keep 1 (fun j _ => g i j) cols acc) acc).1
        (acc.2 + q * (cols.filter keep).length + r) = g rows[q] (cols.filter keep)[r]
  | [], _, _, _, hq, _ => by simp at hq
  | i :: rows, acc, q, r, hq, hr => by
    rw [List.foldl_cons]
    cases q with
    | zero =>
      -- row `i` comes first: the later rows write only past its entries
      rw [foldl_packBlocks_apply_below keep g cols rows _ (by rw [packBlocks_snd]; omega)]
      simpa using packBlocks_apply_block keep 1 (fun j _ => g i j) cols acc hr Nat.zero_lt_one
    | succ q =>
      have shift : acc.2 + (q + 1) * (cols.filter keep).length + r =
          (packBlocks keep 1 (fun j _ => g i j) cols acc).2 + q * (cols.filter keep).length + r := by
        rw [packBlocks_snd]
        ring
      rw [shift, foldl_packBlocks_apply keep g cols rows _ (by simpa using hq) hr]
      simp

/-! ## The selected elements, read back -/

section Selected

variable {β : Type}

/-- A sum over the positions of a list is the sum over its elements. -/
theorem sum_getD_eq_sum_map [AddCommMonoid β] (f : Nat → β) (l : List Nat) :
    ∑ r ∈ Finset.range l.length, f (l.getD r 0) = (l.map f).sum := by
  induction l with
  | nil => rfl
  | cons x l ih =>
    rw [List.length_cons, Finset.sum_range_succ', List.map_cons, List.sum_cons, ← ih, add_comm]
    rfl

/-- A sum over the selected indices below `n` is the sum over all of them with
the others counted as zero. -/
theorem sum_filter_range [AddCommMonoid β] (p : Nat → Bool) (f : Nat → β) (n : Nat) :
    (((List.range n).filter p).map f).sum = ∑ j ∈ Finset.range n, if p j then f j else 0 := by
  induction n with
  | zero => rfl
  | succ n ih =>
    rw [List.range_succ, List.filter_append, List.map_append, List.sum_append, ih, Finset.sum_range_succ]
    by_cases kept : p n <;> simp [kept]

/-- A `filterMap` over a list is one over its positions. -/
theorem filterMap_eq_filterMap_range (f : α → Option β) (l : List α) (d : α) :
    l.filterMap f = (List.range l.length).filterMap fun a => f (l.getD a d) := by
  induction l with
  | nil => rfl
  | cons x l ih =>
    -- position `a + 1` of `x :: l` is position `a` of `l`
    have shift : ((fun a => f ((x :: l).getD a d)) ∘ Nat.succ) = fun a => f (l.getD a d) := by
      funext a
      simp
    rw [List.length_cons, List.range_succ_eq_map, List.filterMap_cons, List.filterMap_cons, List.filterMap_map,
      shift, ← ih]
    rfl

/-- What a `filterMap` keeps, read back by position: the value at the element
of that position among those it keeps. -/
theorem getD_filterMap (f : α → Option β) (l : List α) (d : α) (e : β) {r : Nat}
    (hr : r < (l.filter fun x => (f x).isSome).length) :
    (l.filterMap f).getD r e = (f ((l.filter fun x => (f x).isSome).getD r d)).getD e := by
  induction l generalizing r with
  | nil => simp at hr
  | cons x l ih =>
    cases present : f x with
    | none =>
      have skipped : ((x :: l).filter fun x => (f x).isSome) = l.filter fun x => (f x).isSome := by
        simp [present]
      rw [skipped] at hr ⊢
      rw [List.filterMap_cons_none present]
      exact ih hr
    | some value =>
      have kept : ((x :: l).filter fun x => (f x).isSome) = x :: l.filter fun x => (f x).isSome := by
        simp [present]
      rw [kept] at hr ⊢
      rw [List.filterMap_cons_some present]
      cases r with
      | zero => simp [present]
      | succ r => exact ih (by simpa using hr)

/-- Looking up the `q`-th of distinct keys finds the `q`-th value. -/
theorem lookup_zip_getElem [BEq α] [LawfulBEq α] {keys : List α} (nodup : keys.Nodup) (values : List β) {q : Nat}
    (hq : q < keys.length) (hv : q < values.length) :
    (keys.zip values).lookup keys[q] = some values[q] := by
  induction keys generalizing q values with
  | nil => simp at hq
  | cons x keys ih =>
    cases values with
    | nil => simp at hv
    | cons y values =>
      cases q with
      | zero => simp
      | succ q =>
        have inside : q < keys.length := by simpa using hq
        have fresh : keys[q] ≠ x := fun same => (List.nodup_cons.mp nodup).1 (same ▸ List.getElem_mem inside)
        rw [List.zip_cons_cons, List.lookup_cons]
        simp only [List.getElem_cons_succ, beq_false_of_ne fresh]
        exact ih (List.nodup_cons.mp nodup).2 values inside (by simpa using hv)

end Selected

end FlatArray
