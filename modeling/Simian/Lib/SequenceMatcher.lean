import Mathlib.Algebra.Order.Field.Basic
import Mathlib.Algebra.Order.Ring.Rat
import Mathlib.Data.Multiset.UnionInter
import Simian.Lib.FirstMax

/-! # Sequence matching

`difflib` without junk: the longest block that two sequences have in common, what is matched around
it in turn, and the ratio of similarity with its two upper bounds. The ranges of positions are the
parts of the sequences themselves. -/

universe u

namespace SequenceMatcher
variable {α : Type u} [DecidableEq α]

/-- The length of what two sequences have in common at their beginnings, up to the first element
that is skipped. -/
def common (skip : α → Bool) : List α → List α → Nat
  | x :: xs, y :: ys => if x = y ∧ skip x = false then common skip xs ys + 1 else 0
  | [], _ | _ :: _, [] => 0

/-- `Match(a, b, size)` -/
structure Match where
  a : Nat
  b : Nat
  size : Nat

/-! ## The longest block -/

/-- `newj2len` for the element `x` of `a`; `prev` is the entry before the row `j2len`. -/
def nextRow (skip : α → Bool) (x : α) : Nat → List α → List Nat → List Nat
  | prev, y :: bs, k :: row =>
    (if x = y ∧ skip x = false then prev + 1 else 0) :: nextRow skip x k bs row
  | _, [], _ | _, _ :: _, [] => []

/-- The blocks that end before the positions `i` of `a` and `j`, `j + 1`, ... of `b`. -/
def rowMatches (i : Nat) : Nat → List Nat → List Match
  | _, [] => []
  | j, k :: row => ⟨i - k, j - k, k⟩ :: rowMatches i (j + 1) row

/-- The blocks in the order in which the loops come to them. -/
def table (skip : α → Bool) (bs : List α) : Nat → List Nat → List α → List Match
  | _, _, [] => []
  | i, row, x :: as =>
    let row := nextRow skip x 0 bs row
    rowMatches (i + 1) 1 row ++ table skip bs (i + 1) row as

/-- The first of the longest blocks without skipped elements. -/
def longest (skip : α → Bool) (as bs : List α) : Match :=
  (FirstMax.scan Match.size 0 (table skip bs 0 (bs.map fun _ => 0) as)).getD ⟨0, 0, 0⟩

/-- A block is extended at its beginning by what is equal. -/
def extendBack (as bs : List α) (m : Match) : Match :=
  let k := common (fun _ => false) (as.take m.a).reverse (bs.take m.b).reverse
  ⟨m.a - k, m.b - k, m.size + k⟩

/-- A block is extended at its end by what is equal. -/
def extendForth (as bs : List α) (m : Match) : Match :=
  { m with size := m.size +
      common (fun _ => false) (as.drop (m.a + m.size)) (bs.drop (m.b + m.size)) }

def find_longest_match (skip : α → Bool) (as bs : List α) : Match :=
  extendForth as bs (extendBack as bs (longest skip as bs))

variable {skip : α → Bool} {as bs xs ys zs ra rb : List α} {x y : α} {m m' : Match} {i j k : Nat}

@[simp] theorem common_nil : common skip xs [] = 0 := by
  cases xs <;> rfl

@[simp] theorem nil_common : common skip [] ys = 0 := rfl

theorem common_split : ∃ zs xs' ys', xs = zs ++ xs' ∧ ys = zs ++ ys' ∧
    zs.length = common skip xs ys ∧ ∀ z ∈ zs, skip z = false := by
  induction xs generalizing ys with
  | nil => exact ⟨[], [], ys, rfl, rfl, rfl, fun z hz => absurd hz List.not_mem_nil⟩
  | cons x xs ih =>
    cases ys with
    | nil => exact ⟨[], x :: xs, [], rfl, rfl, rfl, fun z hz => absurd hz List.not_mem_nil⟩
    | cons y ys =>
      rw [common]
      split
      · rename_i h
        obtain ⟨rfl, hx⟩ := h
        obtain ⟨zs, xs', ys', rfl, rfl, hlength, hskip⟩ := @ih ys
        exact ⟨x :: zs, xs', ys', rfl, rfl, congrArg (· + 1) hlength,
          List.forall_mem_cons.2 ⟨hx, hskip⟩⟩
      · exact ⟨[], x :: xs, y :: ys, rfl, rfl, rfl, fun z hz => absurd hz List.not_mem_nil⟩

theorem le_common (h : ∀ z ∈ zs, skip z = false) :
    zs.length ≤ common skip (zs ++ xs) (zs ++ ys) := by
  induction zs with
  | nil => exact Nat.zero_le _
  | cons z zs ih =>
    obtain ⟨hz, hzs⟩ := List.forall_mem_cons.1 h
    rw [List.cons_append, List.cons_append, common, if_pos ⟨rfl, hz⟩]
    exact Nat.succ_le_succ (ih hzs)

theorem common_self : common (fun _ => false) xs xs = xs.length := by
  induction xs with
  | nil => rfl
  | cons x xs ih => rw [common, if_pos ⟨rfl, rfl⟩, ih, List.length_cons]

theorem common_le : common skip xs ys ≤ xs.length ∧ common skip xs ys ≤ ys.length := by
  obtain ⟨zs, xs', ys', rfl, rfl, hlength, -⟩ := @common_split _ _ skip xs ys
  rw [← hlength]
  simp

/-! ## The table -/

/-- The longest block that ends with both of two beginnings, which are given from their ends. -/
def endAt (skip : α → Bool) (ra rb : List α) : Match :=
  ⟨ra.length - common skip ra rb, rb.length - common skip ra rb, common skip ra rb⟩

theorem endAt_a : (endAt skip ra rb).a + (endAt skip ra rb).size = ra.length :=
  Nat.sub_add_cancel common_le.1

theorem endAt_b : (endAt skip ra rb).b + (endAt skip ra rb).size = rb.length :=
  Nat.sub_add_cancel common_le.2

/-- The blocks that end with the beginning `ra` of one sequence and reach into the rest `bs` of the
other, after its beginning `rb`. -/
def cells (skip : α → Bool) (ra : List α) : List α → List α → List Match
  | _, [] => []
  | rb, y :: bs => endAt skip ra (y :: rb) :: cells skip ra (y :: rb) bs

/-- The row for the beginning `ra`. -/
def lengths (skip : α → Bool) (ra : List α) : List α → List α → List Nat
  | _, [] => []
  | rb, y :: bs => common skip ra (y :: rb) :: lengths skip ra (y :: rb) bs

theorem lengths_nil : lengths skip [] rb bs = bs.map fun _ => 0 := by
  induction bs generalizing rb with
  | nil => rfl
  | cons y bs ih => rw [lengths, ih, nil_common, List.map_cons]

theorem nextRow_lengths : nextRow skip x (common skip ra rb) bs (lengths skip ra rb bs) =
    lengths skip (x :: ra) rb bs := by
  induction bs generalizing rb with
  | nil => rfl
  | cons y bs ih => rw [lengths, lengths, nextRow, ih, common]

theorem rowMatches_lengths :
    rowMatches ra.length (rb.length + 1) (lengths skip ra rb bs) = cells skip ra rb bs := by
  induction bs generalizing rb with
  | nil => rfl
  | cons y bs ih => rw [lengths, cells, rowMatches, ← ih, endAt, List.length_cons]

/-- All blocks that end in the rest of the first sequence, after its beginning `ra`. -/
def allCells (skip : α → Bool) (bs : List α) : List α → List α → List Match
  | _, [] => []
  | ra, x :: as => cells skip (x :: ra) [] bs ++ allCells skip bs (x :: ra) as

/-- The rows hold the lengths of the longest blocks that end at each pair of positions. -/
theorem table_lengths :
    table skip bs ra.length (lengths skip ra [] bs) as = allCells skip bs ra as := by
  induction as generalizing ra with
  | nil => rfl
  | cons x as ih =>
    have hrow : nextRow skip x 0 bs (lengths skip ra [] bs) = lengths skip (x :: ra) [] bs := by
      rw [← nextRow_lengths, common_nil]
    have hcells := @rowMatches_lengths _ _ skip bs (x :: ra) []
    rw [table, allCells, hrow, ← ih, ← hcells]
    rfl

theorem table_eq : table skip bs 0 (bs.map fun _ => 0) as = allCells skip bs [] as := by
  rw [← table_lengths, lengths_nil]
  rfl

theorem mem_cells : m ∈ cells skip ra rb bs ↔
    ∃ q y t, bs = q ++ y :: t ∧ m = endAt skip ra (y :: q.reverse ++ rb) := by
  induction bs generalizing rb with
  | nil => simp [cells]
  | cons y bs ih =>
    rw [cells, List.mem_cons, ih]
    constructor
    · intro h
      rcases h with rfl | ⟨q, z, t, rfl, rfl⟩
      · exact ⟨[], y, bs, rfl, rfl⟩
      · exact ⟨y :: q, z, t, rfl, by simp⟩
    · intro h
      obtain ⟨q, z, t, hsplit, rfl⟩ := h
      cases q with
      | nil =>
        cases hsplit
        exact .inl rfl
      | cons w q =>
        cases hsplit
        exact .inr ⟨q, z, t, rfl, by simp⟩

theorem mem_allCells : m ∈ allCells skip bs ra as ↔
    ∃ p x s q y t, as = p ++ x :: s ∧ bs = q ++ y :: t ∧
      m = endAt skip (x :: p.reverse ++ ra) (y :: q.reverse) := by
  induction as generalizing ra with
  | nil => simp [allCells]
  | cons x as ih =>
    rw [allCells, List.mem_append, ih, mem_cells]
    constructor
    · intro h
      rcases h with ⟨q, y, t, rfl, rfl⟩ | ⟨p, z, s, q, y, t, rfl, rfl, rfl⟩
      · exact ⟨[], x, as, q, y, t, rfl, rfl, by simp⟩
      · exact ⟨x :: p, z, s, q, y, t, rfl, rfl, by simp⟩
    · intro h
      obtain ⟨p, z, s, q, y, t, hsplit, rfl, rfl⟩ := h
      cases p with
      | nil =>
        cases hsplit
        exact .inl ⟨q, y, t, rfl, by simp⟩
      | cons w p =>
        cases hsplit
        exact .inr ⟨p, z, s, q, y, t, rfl, rfl, by simp⟩

/-- The order of the loops, by where the blocks end. -/
def Match.Before (m m' : Match) : Prop :=
  m.a + m.size < m'.a + m'.size ∨
    m.a + m.size = m'.a + m'.size ∧ m.b + m.size < m'.b + m'.size

theorem pairwise_cells : (cells skip ra rb bs).Pairwise Match.Before := by
  induction bs generalizing rb with
  | nil => exact .nil
  | cons y bs ih =>
    refine .cons (fun m hm => ?_) ih
    obtain ⟨q, z, t, rfl, rfl⟩ := mem_cells.1 hm
    refine .inr ⟨endAt_a.trans endAt_a.symm, ?_⟩
    rw [endAt_b, endAt_b]
    simp only [List.cons_append, List.length_cons, List.length_append, List.length_reverse]
    omega

theorem pairwise_allCells : (allCells skip bs ra as).Pairwise Match.Before := by
  induction as generalizing ra with
  | nil => exact .nil
  | cons x as ih =>
    refine List.pairwise_append.2 ⟨pairwise_cells, ih, fun m hm m' hm' => .inl ?_⟩
    obtain ⟨q, y, t, rfl, rfl⟩ := mem_cells.1 hm
    obtain ⟨p, z, s, q', y', t', rfl, -, rfl⟩ := mem_allCells.1 hm'
    rw [endAt_a, endAt_a]
    simp only [List.cons_append, List.length_cons, List.length_append, List.length_reverse]
    omega

/-! ## What is found -/

/-- `m` is a block of both sequences with the elements `mid`. -/
def Splits (as bs : List α) (m : Match) (mid : List α) : Prop :=
  ∃ pre post pre' post', as = pre ++ (mid ++ post) ∧ bs = pre' ++ (mid ++ post') ∧
    pre.length = m.a ∧ pre'.length = m.b ∧ mid.length = m.size

theorem kept_longest : FirstMax.Kept Match.size 0 (allCells skip bs [] as)
    (FirstMax.scan Match.size 0 (table skip bs 0 (bs.map fun _ => 0) as)) := by
  rw [table_eq]
  exact FirstMax.kept_scan

theorem endAt_splits {p s q t : List α} : ∃ mid, Splits (p ++ x :: s) (q ++ y :: t)
    (endAt skip (x :: p.reverse) (y :: q.reverse)) mid := by
  obtain ⟨zs, xs', ys', hxs, hys, hlength, -⟩ :=
    @common_split _ _ skip (x :: p.reverse) (y :: q.reverse)
  have hp : p ++ [x] = xs'.reverse ++ zs.reverse := by
    rw [← List.reverse_append, ← hxs]
    simp
  have hq : q ++ [y] = ys'.reverse ++ zs.reverse := by
    rw [← List.reverse_append, ← hys]
    simp
  refine ⟨zs.reverse, xs'.reverse, s, ys'.reverse, t, ?_, ?_, ?_, ?_, ?_⟩
  · rw [← List.append_assoc, ← hp]
    simp
  · rw [← List.append_assoc, ← hq]
    simp
  · rw [endAt, ← hlength, hxs]
    simp
  · rw [endAt, ← hlength, hys]
    simp
  · rw [List.length_reverse, hlength]
    rfl

theorem longest_splits : ∃ mid, Splits as bs (longest skip as bs) mid := by
  have hkept := @kept_longest _ _ skip as bs
  rw [longest]
  cases hscan : FirstMax.scan Match.size 0 (table skip bs 0 (bs.map fun _ => 0) as) with
  | none => exact ⟨[], [], as, [], bs, rfl, rfl, rfl, rfl, rfl⟩
  | some m =>
    rw [hscan] at hkept
    obtain ⟨p, x, s, q, y, t, rfl, rfl, rfl⟩ := mem_allCells.1 hkept.2.mem
    rw [List.append_nil]
    exact endAt_splits

theorem Splits.extendBack {mid : List α} (h : Splits as bs m mid) :
    ∃ mid', Splits as bs (extendBack as bs m) mid' := by
  obtain ⟨pre, post, pre', post', rfl, rfl, ha, hb, hsize⟩ := h
  obtain ⟨zs, xs, ys, hpre, hpre', hlength, -⟩ :=
    @common_split _ _ (fun _ => false) pre.reverse pre'.reverse
  have hxs : pre = xs.reverse ++ zs.reverse := by
    rw [← List.reverse_append, ← hpre, List.reverse_reverse]
  have hys : pre' = ys.reverse ++ zs.reverse := by
    rw [← List.reverse_append, ← hpre', List.reverse_reverse]
  rw [SequenceMatcher.extendBack, ← ha, ← hb, ← hsize, List.take_left, List.take_left, ← hlength]
  refine ⟨zs.reverse ++ mid, xs.reverse, post, ys.reverse, post', ?_, ?_, ?_, ?_, ?_⟩
  · rw [hxs]
    simp
  · rw [hys]
    simp
  · rw [hxs]
    simp
  · rw [hys]
    simp
  · simp [Nat.add_comm]

theorem Splits.extendForth {mid : List α} (h : Splits as bs m mid) :
    ∃ mid', Splits as bs (extendForth as bs m) mid' := by
  obtain ⟨pre, post, pre', post', rfl, rfl, ha, hb, hsize⟩ := h
  obtain ⟨zs, xs, ys, rfl, rfl, hlength, -⟩ := @common_split _ _ (fun _ => false) post post'
  refine ⟨mid ++ zs, pre, xs, pre', ys, by simp, by simp, ha, hb, ?_⟩
  have hdrop : ∀ u v : List α, (u ++ (mid ++ v)).drop (u.length + m.size) = v := by
    intro u v
    rw [← List.append_assoc, ← hsize, ← List.length_append, List.drop_left]
  rw [SequenceMatcher.extendForth]
  simp only
  rw [← ha, hdrop, ← hb, hdrop, ← hlength, List.length_append, hsize]

theorem find_longest_match_splits : ∃ mid, Splits as bs (find_longest_match skip as bs) mid := by
  obtain ⟨mid, hmid⟩ := @longest_splits _ _ skip as bs
  obtain ⟨mid', hmid'⟩ := hmid.extendBack
  exact hmid'.extendForth

theorem longest_le : (longest skip as bs).size ≤ (find_longest_match skip as bs).size :=
  Nat.le_trans (Nat.le_add_right _ _) (Nat.le_add_right _ _)

/-- No block without skipped elements is longer. -/
theorem le_find_longest_match {pre post pre' post' : List α} (h : ∀ z ∈ zs, skip z = false) :
    zs.length ≤
      (find_longest_match skip (pre ++ (zs ++ post)) (pre' ++ (zs ++ post'))).size := by
  refine Nat.le_trans ?_ longest_le
  rcases List.eq_nil_or_concat zs with rfl | ⟨ws, z, rfl⟩
  · exact Nat.zero_le _
  have hmem : endAt skip (z :: (pre ++ ws).reverse) (z :: (pre' ++ ws).reverse) ∈
      allCells skip (pre' ++ (ws.concat z ++ post')) [] (pre ++ (ws.concat z ++ post)) :=
    mem_allCells.2 ⟨pre ++ ws, z, post, pre' ++ ws, z, post', by simp, by simp, by simp⟩
  have hsize : (ws.concat z).length ≤
      (endAt skip (z :: (pre ++ ws).reverse) (z :: (pre' ++ ws).reverse)).size := by
    have hle := @le_common _ _ skip pre.reverse pre'.reverse (ws.concat z).reverse
      fun w hw => h w (List.mem_reverse.1 hw)
    rw [List.length_reverse] at hle
    simpa [endAt] using hle
  have hkept := @kept_longest _ _ skip (pre ++ (ws.concat z ++ post))
    (pre' ++ (ws.concat z ++ post'))
  refine Nat.le_trans (Nat.le_trans hsize (hkept.le_toBeat hmem)) (Nat.le_of_eq ?_)
  rw [longest]
  cases FirstMax.scan Match.size 0 (table skip (pre' ++ (ws.concat z ++ post')) 0
      ((pre' ++ (ws.concat z ++ post')).map fun _ => 0) (pre ++ (ws.concat z ++ post))) with
  | none => rfl
  | some m => rfl

/-- Of a sequence and itself, the whole is found. -/
theorem longest_self : (longest skip as as).a = (longest skip as as).b := by
  have hkept := @kept_longest _ _ skip as as
  rw [longest]
  cases hscan : FirstMax.scan Match.size 0 (table skip as 0 (as.map fun _ => 0) as) with
  | none => rfl
  | some m =>
    rw [hscan] at hkept
    obtain ⟨-, hfirst⟩ := hkept
    obtain ⟨p, x, s, q, y, t, hp, hq, hm⟩ := mem_allCells.1 hfirst.mem
    rw [List.append_nil] at hm
    -- The block ends in `as` at two places. At the earlier of them it also ends with itself, which
    -- the loops would have come to before.
    have hself : ∀ ra, (∃ p x s, as = p ++ x :: s ∧ ra = x :: p.reverse) →
        endAt skip ra ra ∈ allCells skip as [] as := by
      intro ra h
      obtain ⟨p, x, s, hsplit, rfl⟩ := h
      exact mem_allCells.2 ⟨p, x, s, p, x, s, hsplit, hsplit, by simp⟩
    obtain ⟨zs, xs', ys', hxs, hys, hlength, hskip⟩ :=
      @common_split _ _ skip (x :: p.reverse) (y :: q.reverse)
    have hsize : m.size = zs.length := by rw [hm, hlength, endAt]
    have hnot : ∀ ra xs, ra = zs ++ xs → ¬ (endAt skip ra ra).size < m.size := by
      intro ra xs hra
      rw [hsize, hra]
      exact Nat.not_lt.2 (le_common hskip)
    have hends : m.a + m.size = (x :: p.reverse).length ∧ m.b + m.size = (y :: q.reverse).length := by
      rw [hm]
      exact ⟨endAt_a, endAt_b⟩
    rcases Nat.lt_trichotomy (x :: p.reverse).length (y :: q.reverse).length with hlt | heq | hgt
    · refine absurd (hfirst.lt_of_pairwise pairwise_allCells (hself _ ⟨p, x, s, hp, rfl⟩) ?_ ?_)
        (hnot _ _ hxs)
      · rw [Match.Before, endAt_a, endAt_b]
        omega
      · rw [Match.Before, endAt_a, endAt_b]
        omega
    · simp only [Option.getD_some]
      omega
    · refine absurd (hfirst.lt_of_pairwise pairwise_allCells (hself _ ⟨q, y, t, hq, rfl⟩) ?_ ?_)
        (hnot _ _ hys)
      · rw [Match.Before, endAt_a, endAt_b]
        omega
      · rw [Match.Before, endAt_a, endAt_b]
        omega

theorem find_longest_match_self : find_longest_match skip as as = ⟨0, 0, as.length⟩ := by
  obtain ⟨mid, pre, post, pre', post', hsplit, -, hpre, -, hsize⟩ := @longest_splits _ _ skip as as
  have hself := @longest_self _ _ skip as
  have hle : (longest skip as as).b + (longest skip as as).size ≤ as.length := by
    rw [← hself, ← hpre, ← hsize]
    conv_rhs => rw [hsplit]
    simp only [List.length_append]
    omega
  rw [find_longest_match, extendBack, hself, common_self, extendForth]
  simp only [common_self, List.length_reverse, List.length_take, List.length_drop]
  have hmin : min (longest skip as as).b as.length = (longest skip as as).b := by omega
  rw [hmin, Nat.sub_self, Match.mk.injEq]
  omega

/-! ## The ratio -/

/-- `b2j` has no entry for an element that a long sequence has too often. -/
def popular (bs : List α) (x : α) : Bool :=
  decide (200 ≤ bs.length) && decide (bs.length / 100 + 1 < bs.count x)

theorem find_longest_match_le :
    (find_longest_match skip as bs).a + (find_longest_match skip as bs).size ≤ as.length := by
  obtain ⟨mid, pre, post, pre', post', hsplit, -, hpre, -, hsize⟩ :=
    @find_longest_match_splits _ _ skip as bs
  rw [← hpre, ← hsize]
  conv_rhs => rw [hsplit]
  simp only [List.length_append]
  omega

/-- The elements of the matching blocks, in order: of the longest block and of what comes before
and after it in both sequences. -/
def matched (skip : α → Bool) (as bs : List α) : List α :=
  match _h : find_longest_match skip as bs with
  | ⟨_, _, 0⟩ => []
  | ⟨i, j, k + 1⟩ =>
    matched skip (as.take i) (bs.take j) ++ ((as.drop i).take (k + 1) ++
      matched skip (as.drop (i + (k + 1))) (bs.drop (j + (k + 1))))
termination_by as.length
decreasing_by
  all_goals
    have hle := @find_longest_match_le _ _ skip as bs
    rw [_h] at hle
    simp only [List.length_take, List.length_drop] at hle ⊢
    omega

def _calculate_ratio (found length : Nat) : ℚ :=
  if length = 0 then 1 else 2 * found / length

def ratio (as bs : List α) : ℚ :=
  _calculate_ratio (matched (popular bs) as bs).length (as.length + bs.length)

/-- The loop of `quick_ratio`, with what is left of the counts of the other sequence. -/
def quickMatches : (α → Int) → List α → Nat
  | _, [] => 0
  | avail, x :: as =>
    (if 0 < avail x then 1 else 0) + quickMatches (Function.update avail x (avail x - 1)) as

def quick_ratio (as bs : List α) : ℚ :=
  _calculate_ratio (quickMatches (fun x => bs.count x) as) (as.length + bs.length)

def real_quick_ratio (as bs : List α) : ℚ :=
  _calculate_ratio (min as.length bs.length) (as.length + bs.length)

/-- What is matched are the parts around the block, and the block. -/
theorem matched_cases : (find_longest_match skip as bs).size = 0 ∧ matched skip as bs = [] ∨
    ∃ pre mid post pre' post', as = pre ++ (mid ++ post) ∧ bs = pre' ++ (mid ++ post') ∧
      mid.length = (find_longest_match skip as bs).size ∧ mid ≠ [] ∧
        matched skip as bs = matched skip pre pre' ++ (mid ++ matched skip post post') := by
  obtain ⟨mid, pre, post, pre', post', has, hbs, hpre, hpre', hmid⟩ :=
    @find_longest_match_splits _ _ skip as bs
  rw [matched]
  split
  · rename_i h
    exact .inl ⟨by rw [h], rfl⟩
  · rename_i i j k h
    rw [h] at hpre hpre' hmid ⊢
    simp only at hpre hpre' hmid
    refine .inr ⟨pre, mid, post, pre', post', has, hbs, hmid, ?_, ?_⟩
    · rintro rfl
      cases hmid
    · have hdrop : ∀ u v : List α, (u ++ (mid ++ v)).drop (u.length + mid.length) = v := by
        intro u v
        rw [← List.append_assoc, ← List.length_append, List.drop_left]
      have hk : k + 1 = mid.length := hmid.symm
      rw [← hpre, ← hpre', hk, has, hbs, hdrop, hdrop]
      simp only [List.take_left, List.drop_left]

theorem matched_sublist : (matched skip as bs).Sublist as ∧ (matched skip as bs).Sublist bs := by
  induction hn : as.length using Nat.strong_induction_on generalizing as bs with
  | _ n ih =>
    rcases @matched_cases _ _ skip as bs with ⟨-, hnil⟩ | h
    · rw [hnil]
      exact ⟨List.nil_sublist as, List.nil_sublist bs⟩
    · obtain ⟨pre, mid, post, pre', post', rfl, rfl, -, hne, heq⟩ := h
      have hpos := List.length_pos_iff.2 hne
      rw [List.length_append, List.length_append] at hn
      obtain ⟨hpre, hpre'⟩ := @ih pre.length (by omega) pre pre' rfl
      obtain ⟨hpost, hpost'⟩ := @ih post.length (by omega) post post' rfl
      rw [heq]
      exact ⟨hpre.append (hpost.append_left mid), hpre'.append (hpost'.append_left mid)⟩

/-- The loop counts the elements that the sequences have in common as multisets. -/
theorem quickMatches_eq {avail : α → Int} (h : ∀ x, (avail x).toNat = bs.count x) :
    quickMatches avail as = (as.bagInter bs).length := by
  induction as generalizing avail bs with
  | nil => rw [quickMatches, List.nil_bagInter, List.length_nil]
  | cons x as ih =>
    have hx := h x
    by_cases hmem : x ∈ bs
    · have hcount := List.count_pos_iff.2 hmem
      rw [quickMatches, if_pos (by omega), List.cons_bagInter_of_mem as hmem, List.length_cons,
        @ih (bs.erase x), Nat.add_comm]
      intro y
      rw [Function.update_apply, List.count_erase]
      have hy := h y
      by_cases hxy : y = x
      · subst hxy
        simp only [if_true, beq_self_eq_true]
        omega
      · rw [if_neg hxy, if_neg (by simpa using fun heq => hxy heq.symm), hy, Nat.sub_zero]
    · have hcount := List.count_eq_zero.2 hmem
      rw [quickMatches, if_neg (by omega), List.cons_bagInter_of_not_mem as hmem, @ih bs,
        Nat.zero_add]
      intro y
      rw [Function.update_apply]
      split
      · rename_i hxy
        rw [hxy, hcount]
        omega
      · exact h y

theorem quick_ratio_eq :
    quick_ratio as bs = _calculate_ratio (as.bagInter bs).length (as.length + bs.length) := by
  rw [quick_ratio, quickMatches_eq fun x => Int.toNat_natCast _]

theorem length_matched_le : (matched skip as bs).length ≤ (as.bagInter bs).length := by
  obtain ⟨has, hbs⟩ := @matched_sublist _ _ skip as bs
  have hle : (matched skip as bs : Multiset α) ≤ (as : Multiset α) ∩ bs :=
    Multiset.le_inter (Multiset.coe_le.2 has.subperm) (Multiset.coe_le.2 hbs.subperm)
  rw [Multiset.coe_inter] at hle
  exact Multiset.card_le_card hle

theorem length_bagInter_le : (as.bagInter bs).length ≤ min as.length bs.length := by
  have hleft : (as : Multiset α) ∩ bs ≤ as := Multiset.inter_le_left
  have hright : (as : Multiset α) ∩ bs ≤ bs := Multiset.inter_le_right
  rw [Multiset.coe_inter] at hleft hright
  exact Nat.le_min.2 ⟨Multiset.card_le_card hleft, Multiset.card_le_card hright⟩

theorem _calculate_ratio_mono {n : Nat} (h : i ≤ j) :
    _calculate_ratio i n ≤ _calculate_ratio j n := by
  rw [_calculate_ratio, _calculate_ratio]
  split
  · exact le_refl 1
  · have hij : (i : ℚ) ≤ j := by exact_mod_cast h
    have hn : (0 : ℚ) ≤ n := Nat.cast_nonneg n
    exact div_le_div_of_nonneg_right (mul_le_mul_of_nonneg_left hij zero_le_two) hn

theorem ratio_le_quick_ratio : ratio as bs ≤ quick_ratio as bs := by
  rw [quick_ratio_eq]
  exact _calculate_ratio_mono length_matched_le

theorem quick_ratio_le_real_quick_ratio : quick_ratio as bs ≤ real_quick_ratio as bs := by
  rw [quick_ratio_eq]
  exact _calculate_ratio_mono length_bagInter_le

theorem le_calculate_ratio_iff {n : Nat} {p q : Nat} (hq : 0 < q) (hn : 0 < n) :
    (p : ℚ) / q ≤ _calculate_ratio i n ↔ p * n ≤ 2 * i * q := by
  have hq' : (0 : ℚ) < q := Nat.cast_pos.2 hq
  have hn' : (0 : ℚ) < n := Nat.cast_pos.2 hn
  rw [_calculate_ratio, if_neg (Nat.ne_of_gt hn), div_le_div_iff₀ hq' hn']
  exact_mod_cast Iff.rfl

theorem matched_self : matched skip as as = as := by
  rcases @matched_cases _ _ skip as as with ⟨hzero, hnil⟩ | h
  · rw [find_longest_match_self] at hzero
    rw [hnil, List.length_eq_zero_iff.1 hzero]
  · obtain ⟨pre, mid, post, pre', post', hsplit, hsplit', hmid, -, heq⟩ := h
    rw [find_longest_match_self] at hmid
    have hlength := congrArg List.length hsplit
    have hlength' := congrArg List.length hsplit'
    simp only [List.length_append] at hlength hlength' hmid
    obtain rfl : pre = [] := List.length_eq_zero_iff.1 (by omega)
    obtain rfl : pre' = [] := List.length_eq_zero_iff.1 (by omega)
    obtain rfl : post = [] := List.length_eq_zero_iff.1 (by omega)
    obtain rfl : post' = [] := List.length_eq_zero_iff.1 (by omega)
    have hnil : matched skip ([] : List α) [] = [] := List.sublist_nil.1 matched_sublist.1
    rw [heq, hnil]
    exact hsplit.symm

theorem ratio_self : ratio as as = 1 := by
  rw [ratio, matched_self, _calculate_ratio]
  split
  · rfl
  · rename_i h
    have hne : ((as.length + as.length : Nat) : ℚ) ≠ 0 := Nat.cast_ne_zero.2 h
    rw [div_eq_one_iff_eq hne, Nat.cast_add, two_mul]

theorem ratio_disjoint (hne : as ≠ bs) (h : ∀ x ∈ as, x ∉ bs) : ratio as bs = 0 := by
  have hnil : matched (popular bs) as bs = [] := by
    obtain ⟨has, hbs⟩ := @matched_sublist _ _ (popular bs) as bs
    exact List.eq_nil_iff_forall_not_mem.2 fun x hx => h x (has.subset hx) (hbs.subset hx)
  rw [ratio, hnil, _calculate_ratio, if_neg]
  · simp
  · intro hzero
    obtain ⟨has, hbs⟩ := Nat.add_eq_zero_iff.1 hzero
    exact hne ((List.length_eq_zero_iff.1 has).trans (List.length_eq_zero_iff.1 hbs).symm)

/-- A sequence that is a part of the other is matched as a whole. -/
theorem matched_of_infix (hskip : ∀ x ∈ as, skip x = false) (h : as <:+: bs) :
    matched skip as bs = as := by
  obtain ⟨before, after, rfl⟩ := h
  have hle := @le_find_longest_match _ _ skip as [] [] before after hskip
  rw [List.nil_append, List.append_nil, ← List.append_assoc] at hle
  rcases @matched_cases _ _ skip as (before ++ as ++ after) with ⟨hzero, hnil⟩ | h
  · rw [hzero] at hle
    rw [hnil, List.length_eq_zero_iff.1 (Nat.le_zero.1 hle)]
  · obtain ⟨pre, mid, post, pre', post', hsplit, -, hmid, -, heq⟩ := h
    have hlength := congrArg List.length hsplit
    simp only [List.length_append] at hlength
    obtain rfl : pre = [] := List.length_eq_zero_iff.1 (by omega)
    obtain rfl : post = [] := List.length_eq_zero_iff.1 (by omega)
    have hnil : ∀ ys : List α, matched skip [] ys = [] := fun ys =>
      List.sublist_nil.1 matched_sublist.1
    rw [heq, hnil, hnil]
    exact hsplit.symm

theorem popular_of_short (h : bs.length < 200) : popular bs x = false := by
  rw [popular, decide_eq_false (Nat.not_le.2 h), Bool.false_and]

/-! ## The close matches -/

/-- The two upper bounds are looked at before the ratio. -/
def passes (word x : List α) (cutoff : ℚ) : Bool :=
  decide (cutoff ≤ real_quick_ratio x word) && (decide (cutoff ≤ quick_ratio x word) &&
    decide (cutoff ≤ ratio x word))

/-- The two upper bounds exclude nothing that the ratio would let pass. -/
theorem passes_iff {word : List α} {cutoff : ℚ} : passes word as cutoff = true ↔ cutoff ≤ ratio as word := by
  rw [passes, Bool.and_eq_true, Bool.and_eq_true, decide_eq_true_iff, decide_eq_true_iff,
    decide_eq_true_iff]
  constructor
  · intro h
    exact h.2.2
  · intro h
    have hquick := le_trans h ratio_le_quick_ratio
    exact ⟨le_trans hquick quick_ratio_le_real_quick_ratio, hquick, h⟩

section CloseMatches
variable [LT α] [DecidableLT α] {word : List α} {possibilities : List (List α)} {n : Nat}
  {cutoff : ℚ}

/-- The order of pairs of a score and a sequence, the greatest first. -/
def notBelow (p q : ℚ × List α) : Bool :=
  decide (q.1 < p.1) || decide (q.1 = p.1) && !decide (p.2 < q.2)

/-- `heapq.nlargest` -/
def nlargest (n : Nat) (result : List (ℚ × List α)) : List (ℚ × List α) :=
  (result.mergeSort notBelow).take n

/-- Nothing for arguments that are out of their bounds. -/
def get_close_matches (word : List α) (possibilities : List (List α)) (n : Nat) (cutoff : ℚ) :
    Option (List (List α)) :=
  if 0 < n ∧ 0 ≤ cutoff ∧ cutoff ≤ 1 then
    let result := (possibilities.filter fun x => passes word x cutoff).map fun x =>
      (ratio x word, x)
    some ((nlargest n result).map Prod.snd)
  else none

theorem nlargest_eq_nil_iff {result : List (ℚ × List α)} (hn : 0 < n) :
    nlargest n result = [] ↔ result = [] := by
  rw [nlargest, List.take_eq_nil_iff, or_iff_right (Nat.ne_of_gt hn),
    ← List.length_eq_zero_iff, List.length_mergeSort, List.length_eq_zero_iff]

/-- Something is found exactly when the ratio of one of the sequences reaches the cutoff. -/
theorem get_close_matches_spec (hn : 0 < n) (hlow : 0 ≤ cutoff) (hhigh : cutoff ≤ 1) :
    ∃ found, get_close_matches word possibilities n cutoff = some found ∧
      (found ≠ [] ↔ ∃ x ∈ possibilities, cutoff ≤ ratio x word) := by
  refine ⟨_, if_pos ⟨hn, hlow, hhigh⟩, ?_⟩
  rw [Ne, List.map_eq_nil_iff, nlargest_eq_nil_iff hn, List.map_eq_nil_iff,
    List.filter_eq_nil_iff]
  simp only [passes_iff, not_forall, not_not, exists_prop]

end CloseMatches

end SequenceMatcher
