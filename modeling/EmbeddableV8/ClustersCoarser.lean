import Mathlib.Data.List.Permutation
import Mathlib.Data.List.Sort
set_option autoImplicit false

/-!
`ClustersCoarser` of `heap-profiler.cc`. `heap-profiler.h` is not in the repository:
`JSObjectsCluster` is its two pointers, compared as addresses, and `kMaxPassesCount` is a
parameter. `qsort` leaves equal records in an unspecified order: `SortFn` is any sort with its
contract.
-/

namespace EmbeddableV8

/-- A `JSObjectsCluster`: the addresses of its `constructor_` and its `instance_`, `0` for
`NULL`. -/
@[ext]
structure Cluster where
  constructor : Nat
  inst : Nat
  deriving DecidableEq, Repr

namespace Cluster

def null : Cluster := ⟨0, 0⟩

def isNull (c : Cluster) : Bool := c.constructor = 0

def canBeCoarsed (c : Cluster) : Bool := c.inst ≠ 0

def compareConstructors (a b : Cluster) : Int :=
  if a.constructor = b.constructor then 0 else if a.constructor < b.constructor then -1 else 1

def compare (a b : Cluster) : Int :=
  let consCmp := compareConstructors a b
  if consCmp = 0 then (if a.inst = b.inst then 0 else if a.inst < b.inst then -1 else 1)
  else consCmp

end Cluster

structure ClusterBackRefs where
  cluster : Cluster
  refs : List Cluster
  deriving DecidableEq, Repr

def compareRefs : List Cluster → List Cluster → Int
  | a :: as, b :: bs =>
    let cmp := Cluster.compare a b
    if cmp ≠ 0 then cmp else compareRefs as bs
  | _, _ => 0

def ClusterBackRefs.compare (a b : ClusterBackRefs) : Int :=
  let cmp := Cluster.compareConstructors a.cluster b.cluster
  if cmp ≠ 0 then cmp
  else if a.refs.length < b.refs.length then -1
  else if a.refs.length > b.refs.length then 1
  else compareRefs a.refs b.refs

/-- A retainer tree as `ForEach` visits it: each cluster with the tree of its retainers, both
levels splay trees traversed in increasing order. -/
structure RetainerTree where
  entries : List (Cluster × List Cluster)
  sorted : entries.Pairwise fun a b => Cluster.compare a.1 b.1 < 0
  retainers_sorted : ∀ e ∈ entries, e.2.Pairwise fun a b => Cluster.compare a b < 0

abbrev EqualityTree := Cluster → Option Cluster

def getCoarseEquivalent (eqTree : EqualityTree) (c : Cluster) : Cluster :=
  if c.canBeCoarsed then (eqTree c).getD Cluster.null else Cluster.null

/-- The second-level `Call`s over the retainers of one cluster, with `current_set_`: each
retainer's coarse equivalent once, or the retainer itself where it has none. -/
def backRefs (eqTree : EqualityTree) : List Cluster → List Cluster → List Cluster
  | _, [] => []
  | currentSet, r :: rs =>
    let eq := getCoarseEquivalent eqTree r
    if !eq.isNull then
      if eq ∈ currentSet then backRefs eqTree currentSet rs
      else eq :: backRefs eqTree (eq :: currentSet) rs
    else r :: backRefs eqTree currentSet rs

def simList (eqTree : EqualityTree) (tree : RetainerTree) : List ClusterBackRefs :=
  tree.entries.filterMap fun e =>
    if e.1.canBeCoarsed then some ⟨e.1, backRefs eqTree [] e.2⟩ else none

def fillLoop (eqTo : ClusterBackRefs) (firstAdded : Bool) :
    List ClusterBackRefs → EqualityTree → Int → EqualityTree × Int
  | [], t, n => (t, n)
  | x :: xs, t, n =>
    if ClusterBackRefs.compare x eqTo = 0 then
      let t := if firstAdded then t else Function.update t eqTo.cluster (some eqTo.cluster)
      fillLoop eqTo true xs (Function.update t x.cluster (some eqTo.cluster)) (n + 1)
    else fillLoop x false xs t n

/-- `ClustersCoarser::FillEqualityTree` over the sorted `sim_list_`: each run of equal records
maps to its first; the number of records mapped to another. -/
def fillEqualityTree (t : EqualityTree) : List ClusterBackRefs → EqualityTree × Int
  | [] => (t, 0)
  | x :: xs => fillLoop x false xs t 0

abbrev BackRefsSorted (l : List ClusterBackRefs) : Prop :=
  l.Pairwise fun a b => ClusterBackRefs.compare a b ≤ 0

/-- What `sim_list_.Sort(ClusterBackRefsCmp)` may return: `qsort` gives a permutation sorted by
`ClusterBackRefs::Compare`, with equal records in an unspecified order. -/
structure SortFn where
  sort : List ClusterBackRefs → List ClusterBackRefs
  perm : ∀ l, (sort l).Perm l
  sorted : ∀ l, BackRefsSorted (sort l)

namespace Cluster

variable {a b c : Cluster}

theorem compareConstructors_cases (a b : Cluster) :
    compareConstructors a b = -1 ∧ a.constructor < b.constructor ∨
      compareConstructors a b = 0 ∧ a.constructor = b.constructor ∨
      compareConstructors a b = 1 ∧ b.constructor < a.constructor := by
  unfold compareConstructors
  split_ifs <;> omega

theorem compare_cases (a b : Cluster) :
    compare a b = -1 ∧ (a.constructor < b.constructor ∨
        a.constructor = b.constructor ∧ a.inst < b.inst) ∨
      compare a b = 0 ∧ a.constructor = b.constructor ∧ a.inst = b.inst ∨
      compare a b = 1 ∧ (b.constructor < a.constructor ∨
        a.constructor = b.constructor ∧ b.inst < a.inst) := by
  unfold compare
  dsimp only
  rcases compareConstructors_cases a b with ⟨h, hc⟩ | ⟨h, hc⟩ | ⟨h, hc⟩ <;> rw [h]
  · exact Or.inl ⟨rfl, Or.inl hc⟩
  · rw [if_pos rfl]
    split_ifs <;> omega
  · exact Or.inr (Or.inr ⟨rfl, Or.inl hc⟩)

theorem compare_nonpos_iff : compare a b ≤ 0 ↔
    a.constructor < b.constructor ∨ a.constructor = b.constructor ∧ a.inst ≤ b.inst := by
  rcases compare_cases a b with ⟨h, hc⟩ | ⟨h, hc⟩ | ⟨h, hc⟩ <;> rw [h] <;> omega

theorem compare_neg_iff : compare a b < 0 ↔
    a.constructor < b.constructor ∨ a.constructor = b.constructor ∧ a.inst < b.inst := by
  rcases compare_cases a b with ⟨h, hc⟩ | ⟨h, hc⟩ | ⟨h, hc⟩ <;> rw [h] <;> omega

theorem compare_eq_zero_iff : compare a b = 0 ↔ a = b := by
  rw [Cluster.ext_iff]
  rcases compare_cases a b with ⟨h, hc⟩ | ⟨h, hc⟩ | ⟨h, hc⟩ <;> rw [h] <;> omega

theorem compare_self : compare a a = 0 := compare_eq_zero_iff.2 rfl

theorem compare_swap : compare b a = -compare a b := by
  rcases compare_cases a b with ⟨h, hc⟩ | ⟨h, hc⟩ | ⟨h, hc⟩ <;>
    rcases compare_cases b a with ⟨h', hc'⟩ | ⟨h', hc'⟩ | ⟨h', hc'⟩ <;> rw [h, h'] <;> omega

theorem compareConstructors_swap : compareConstructors b a = -compareConstructors a b := by
  rcases compareConstructors_cases a b with ⟨h, hc⟩ | ⟨h, hc⟩ | ⟨h, hc⟩ <;>
    rcases compareConstructors_cases b a with ⟨h', hc'⟩ | ⟨h', hc'⟩ | ⟨h', hc'⟩ <;>
    rw [h, h'] <;> omega

end Cluster

theorem compareRefs_swap : ∀ as bs : List Cluster, compareRefs bs as = -compareRefs as bs
  | a :: as, b :: bs => by
    simp only [compareRefs, Cluster.compare_swap (a := a), compareRefs_swap as bs]
    split_ifs <;> omega
  | [], _ :: _ | [], [] | _ :: _, [] => rfl

theorem compareRefs_trans : ∀ {as bs cs : List Cluster}, as.length = bs.length →
    bs.length = cs.length → compareRefs as bs ≤ 0 → compareRefs bs cs ≤ 0 →
    compareRefs as cs ≤ 0
  | a :: as, b :: bs, c :: cs, hab, hbc, h₁, h₂ => by
    simp only [List.length_cons, Nat.add_right_cancel_iff] at hab hbc
    simp only [compareRefs] at h₁ h₂ ⊢
    by_cases ab : Cluster.compare a b = 0
    · obtain rfl := Cluster.compare_eq_zero_iff.1 ab
      by_cases ac : Cluster.compare a c = 0
      · simp only [ab, ac, ne_eq, not_true_eq_false, if_false] at h₁ h₂ ⊢
        exact compareRefs_trans hab hbc h₁ h₂
      · simp_all
    · have hab' : Cluster.compare a b < 0 := by split_ifs at h₁ <;> omega
      have hbc' : Cluster.compare b c ≤ 0 := by split_ifs at h₂ <;> omega
      have hac : Cluster.compare a c < 0 := by
        rw [Cluster.compare_neg_iff] at hab' ⊢
        rw [Cluster.compare_nonpos_iff] at hbc'
        omega
      simp [hac.ne, hac.le]
  | [], [], [], _, _, _, _ => le_refl _
  | [], _ :: _, _, h, _, _, _ | _ :: _, [], _, h, _, _, _ => nomatch h
  | _, [], _ :: _, _, h, _, _ | _, _ :: _, [], _, h, _, _ => nomatch h

namespace ClusterBackRefs

variable {a b c : ClusterBackRefs}

theorem compare_cases (a b : ClusterBackRefs) :
    compare a b = Cluster.compareConstructors a.cluster b.cluster ∧
        a.cluster.constructor ≠ b.cluster.constructor ∨
      a.cluster.constructor = b.cluster.constructor ∧
        (compare a b = -1 ∧ a.refs.length < b.refs.length ∨
          compare a b = 1 ∧ b.refs.length < a.refs.length ∨
          compare a b = compareRefs a.refs b.refs ∧ a.refs.length = b.refs.length) := by
  unfold compare
  dsimp only
  rcases Cluster.compareConstructors_cases a.cluster b.cluster with ⟨h, hc⟩ | ⟨h, hc⟩ | ⟨h, hc⟩ <;>
    rw [h]
  · exact Or.inl ⟨rfl, by omega⟩
  · rw [if_neg (not_not.2 rfl)]
    refine Or.inr ⟨hc, ?_⟩
    split_ifs <;> omega
  · exact Or.inl ⟨rfl, by omega⟩

theorem compare_swap : compare b a = -compare a b := by
  have hc := Cluster.compareConstructors_swap (a := a.cluster) (b := b.cluster)
  have hr := compareRefs_swap a.refs b.refs
  rcases compare_cases a b with ⟨h, e⟩ | ⟨e, ⟨h, l⟩ | ⟨h, l⟩ | ⟨h, l⟩⟩ <;>
    rcases compare_cases b a with ⟨h', e'⟩ | ⟨e', ⟨h', l'⟩ | ⟨h', l'⟩ | ⟨h', l'⟩⟩ <;>
    omega

theorem compare_nonpos_iff : compare a b ≤ 0 ↔
    a.cluster.constructor < b.cluster.constructor ∨
      a.cluster.constructor = b.cluster.constructor ∧ (a.refs.length < b.refs.length ∨
        a.refs.length = b.refs.length ∧ compareRefs a.refs b.refs ≤ 0) := by
  rcases compare_cases a b with ⟨h, hne⟩ | ⟨he, ⟨h, hl⟩ | ⟨h, hl⟩ | ⟨h, hl⟩⟩
  · rcases Cluster.compareConstructors_cases a.cluster b.cluster with
      ⟨h', hc⟩ | ⟨h', hc⟩ | ⟨h', hc⟩ <;> omega
  all_goals omega

theorem compare_trans (h₁ : compare a b ≤ 0) (h₂ : compare b c ≤ 0) : compare a c ≤ 0 := by
  rw [compare_nonpos_iff] at h₁ h₂ ⊢
  rcases h₁ with h₁ | ⟨e₁, h₁ | ⟨l₁, h₁⟩⟩ <;> rcases h₂ with h₂ | ⟨e₂, h₂ | ⟨l₂, h₂⟩⟩ <;>
    first
      | exact Or.inr ⟨e₁.trans e₂, Or.inr ⟨l₁.trans l₂, compareRefs_trans l₁ l₂ h₁ h₂⟩⟩
      | omega

theorem compare_self : compare a a = 0 := by
  have := compare_swap (a := a) (b := a)
  omega

theorem compare_eq_zero_symm (h : compare a b = 0) : compare b a = 0 := by
  rw [compare_swap, h, Int.neg_zero]

theorem compare_eq_zero_trans (h₁ : compare a b = 0) (h₂ : compare b c = 0) :
    compare a c = 0 := by
  have hac := compare_trans h₁.le h₂.le
  have hca := compare_trans (compare_eq_zero_symm h₂).le (compare_eq_zero_symm h₁).le
  rw [compare_swap] at hca
  omega

end ClusterBackRefs

def SortFn.mergeSort : SortFn where
  sort l := l.mergeSort fun a b => decide (ClusterBackRefs.compare a b ≤ 0)
  perm l := List.mergeSort_perm l _
  sorted l := by
    have htrans : ∀ a b c : ClusterBackRefs, decide (a.compare b ≤ 0) = true →
        decide (b.compare c ≤ 0) = true → decide (a.compare c ≤ 0) = true := by
      simp only [decide_eq_true_eq]
      exact fun _ _ _ => ClusterBackRefs.compare_trans
    have htotal : ∀ a b : ClusterBackRefs,
        (decide (a.compare b ≤ 0) || decide (b.compare a ≤ 0)) = true := fun a b => by
      have := ClusterBackRefs.compare_swap (a := a) (b := b)
      simp only [Bool.or_eq_true, decide_eq_true_eq]
      omega
    simpa using List.sorted_mergeSort htrans htotal l

theorem SortFn.mem_permutations' (sort : SortFn) (l : List ClusterBackRefs) :
    sort.sort l ∈ l.permutations' :=
  List.mem_permutations'.2 (sort.perm l)

theorem compare_ne_zero_of_sorted {eqTo x : ClusterBackRefs} {xs : List ClusterBackRefs}
    (hs : BackRefsSorted (eqTo :: x :: xs)) (hx : ClusterBackRefs.compare x eqTo ≠ 0) :
    ∀ w ∈ x :: xs, ClusterBackRefs.compare w eqTo ≠ 0 := by
  intro w hw hwe
  have hex : ClusterBackRefs.compare eqTo x ≤ 0 :=
    List.rel_of_pairwise_cons hs (List.mem_cons_self _ _)
  rcases List.mem_cons.1 hw with rfl | hw
  · exact hx hwe
  · have hxw : ClusterBackRefs.compare x w ≤ 0 := List.rel_of_pairwise_cons hs.of_cons hw
    have hxe := ClusterBackRefs.compare_trans hxw hwe.le
    rw [ClusterBackRefs.compare_swap] at hex
    omega

theorem fillLoop_frame : ∀ {xs : List ClusterBackRefs} {eqTo : ClusterBackRefs} {fa : Bool}
    {t : EqualityTree} {n : Int} {c : Cluster}, c ∉ xs.map ClusterBackRefs.cluster →
    (fa = true ∨ c ≠ eqTo.cluster) → (fillLoop eqTo fa xs t n).1 c = t c
  | [], _, _, _, _, _, _, _ => rfl
  | x :: xs, eqTo, fa, t, n, c, hc, hf => by
    simp only [List.map_cons, List.mem_cons, not_or] at hc
    unfold fillLoop
    split
    · rw [fillLoop_frame hc.2 (Or.inl rfl), Function.update_noteq hc.1]
      cases fa
      · exact Function.update_noteq (hf.resolve_left Bool.false_ne_true) _ _
      · rfl
    · exact fillLoop_frame hc.2 (Or.inr hc.1)

theorem fillLoop_groups : ∀ {xs : List ClusterBackRefs} {eqTo : ClusterBackRefs} {fa : Bool}
    {t : EqualityTree} {n : Int}, BackRefsSorted (eqTo :: xs) →
    ((eqTo :: xs).map ClusterBackRefs.cluster).Nodup →
    (fa = true → t eqTo.cluster = some eqTo.cluster) →
    ∀ u ∈ eqTo :: xs, ∀ v ∈ eqTo :: xs, u ≠ v → ClusterBackRefs.compare u v = 0 →
      (fillLoop eqTo fa xs t n).1 u.cluster = (fillLoop eqTo fa xs t n).1 v.cluster ∧
        ((fillLoop eqTo fa xs t n).1 u.cluster).isSome
  | [], _, _, _, _, _, _, _, u, hu, v, hv, huv, _ => by
    rw [List.mem_singleton] at hu hv
    exact absurd (hu.trans hv.symm) huv
  | x :: xs, eqTo, fa, t, n, hs, hd, hfa, u, hu, v, hv, huv, hc => by
    have hd' := hd
    simp only [List.map_cons, List.nodup_cons, List.mem_cons, not_or] at hd'
    unfold fillLoop
    split
    · next hx =>
      -- `x` joins the run of `eq_to`, which maps to `eq_to.cluster` from now on.
      dsimp only
      let t₀ := if fa then t else Function.update t eqTo.cluster (some eqTo.cluster)
      have ht₀ : t₀ eqTo.cluster = some eqTo.cluster := by
        cases fa
        · exact Function.update_same _ _ _
        · exact hfa rfl
      have hsub : List.Sublist (eqTo :: xs) (eqTo :: x :: xs) :=
        (List.sublist_cons_self x xs).cons₂ eqTo
      have ih := @fillLoop_groups xs eqTo true (Function.update t₀ x.cluster (some eqTo.cluster))
        (n + 1) (hs.sublist hsub) (hd.sublist (hsub.map _))
        (fun _ => by rw [Function.update_noteq hd'.1.1, ht₀])
      have hrun : ∀ w ∈ eqTo :: x :: xs, ClusterBackRefs.compare w eqTo = 0 →
          (fillLoop eqTo true xs (Function.update t₀ x.cluster (some eqTo.cluster)) (n + 1)).1
            w.cluster = some eqTo.cluster := by
        have hhead : (fillLoop eqTo true xs (Function.update t₀ x.cluster (some eqTo.cluster))
            (n + 1)).1 eqTo.cluster = some eqTo.cluster := by
          rw [fillLoop_frame hd'.1.2 (Or.inl rfl), Function.update_noteq hd'.1.1, ht₀]
        intro w hw hwe
        rcases List.mem_cons.1 hw with rfl | hw
        · exact hhead
        rcases List.mem_cons.1 hw with rfl | hw
        · rw [fillLoop_frame hd'.2.1 (Or.inl rfl), Function.update_same]
        by_cases hweq : w = eqTo
        · rw [hweq, hhead]
        · rw [(ih w (List.mem_cons_of_mem _ hw) eqTo (List.mem_cons_self _ _) hweq hwe).1, hhead]
      by_cases hue : ClusterBackRefs.compare u eqTo = 0
      · have hve :=
          ClusterBackRefs.compare_eq_zero_trans (ClusterBackRefs.compare_eq_zero_symm hc) hue
        rw [hrun u hu hue, hrun v hv hve]
        exact ⟨rfl, rfl⟩
      · -- Neither `u` nor `v` is in the run of `eq_to`: both come after `x`.
        have hve : ClusterBackRefs.compare v eqTo ≠ 0 := fun hve =>
          hue (ClusterBackRefs.compare_eq_zero_trans hc hve)
        have hmem : ∀ w ∈ eqTo :: x :: xs, ClusterBackRefs.compare w eqTo ≠ 0 →
            w ∈ eqTo :: xs := by
          intro w hw hwe
          rcases List.mem_cons.1 hw with rfl | hw
          · exact absurd ClusterBackRefs.compare_self hwe
          rcases List.mem_cons.1 hw with rfl | hw
          · exact absurd hx hwe
          · exact List.mem_cons_of_mem _ hw
        exact ih u (hmem u hu hue) v (hmem v hv hve) huv hc
    · next hx =>
      -- `x` starts a new run; no record after it is equal to `eq_to`.
      have hsep := compare_ne_zero_of_sorted hs hx
      have hmem : ∀ w ∈ eqTo :: x :: xs, ∀ w' ∈ eqTo :: x :: xs, w ≠ w' →
          ClusterBackRefs.compare w w' = 0 → w ∈ x :: xs := by
        intro w hw w' hw' hww' hc
        rcases List.mem_cons.1 hw with rfl | hw
        · rcases List.mem_cons.1 hw' with rfl | hw'
          · exact absurd rfl hww'
          · exact absurd (ClusterBackRefs.compare_eq_zero_symm hc) (hsep w' hw')
        · exact hw
      exact fillLoop_groups hs.of_cons hd.of_cons (fun h : false = true => nomatch h)
        u (hmem u hu v hv huv hc) v
        (hmem v hv u hu (Ne.symm huv) (ClusterBackRefs.compare_eq_zero_symm hc)) huv hc

theorem fillEqualityTree_groups : ∀ {l : List ClusterBackRefs}, BackRefsSorted l →
    (l.map ClusterBackRefs.cluster).Nodup → ∀ t : EqualityTree,
    ∀ u ∈ l, ∀ v ∈ l, u ≠ v → ClusterBackRefs.compare u v = 0 →
      (fillEqualityTree t l).1 u.cluster = (fillEqualityTree t l).1 v.cluster ∧
        ((fillEqualityTree t l).1 u.cluster).isSome
  | [], _, _, _, _, hu, _, _, _, _ => nomatch hu
  | _ :: _, hs, hd, _, u, hu, v, hv, huv, hc =>
    fillLoop_groups hs hd (fun h : false = true => nomatch h) u hu v hv huv hc

def doProcess (sort : SortFn) (tree : RetainerTree) (t : EqualityTree) : EqualityTree × Int :=
  fillEqualityTree t (sort.sort (simList t tree))

def processLoop (sort : SortFn) (tree : RetainerTree) : Nat → Int → EqualityTree → EqualityTree
  | 0, _, t => t
  | passes + 1, last, t =>
    let r := doProcess sort tree t
    if last = r.2 then r.1 else processLoop sort tree passes r.2 r.1

def process (sort : SortFn) (kMaxPassesCount : Nat) (tree : RetainerTree) : EqualityTree :=
  processLoop sort tree kMaxPassesCount (-1) fun _ => none

/-! ### What one pass does -/

section Pass

variable {t : EqualityTree} {tree : RetainerTree}

theorem canBeCoarsed_of_mem_simList {u : ClusterBackRefs} (hu : u ∈ simList t tree) :
    u.cluster.canBeCoarsed = true := by
  obtain ⟨e, -, he⟩ := List.mem_filterMap.1 hu
  simp only [Option.ite_none_right_eq_some, Option.some.injEq] at he
  obtain ⟨hc, rfl⟩ := he
  exact hc

theorem simList_clusters_sorted (t : EqualityTree) (tree : RetainerTree) :
    (simList t tree).Pairwise fun a b => Cluster.compare a.cluster b.cluster < 0 := by
  unfold simList
  rw [List.pairwise_filterMap]
  refine tree.sorted.imp fun {a b} h x hx y hy => ?_
  simp only [Option.mem_def, Option.ite_none_right_eq_some, Option.some.injEq] at hx hy
  obtain ⟨-, rfl⟩ := hx
  obtain ⟨-, rfl⟩ := hy
  exact h

theorem simList_nodup (t : EqualityTree) (tree : RetainerTree) :
    ((simList t tree).map ClusterBackRefs.cluster).Nodup :=
  List.pairwise_map.2 <| (simList_clusters_sorted t tree).imp fun h heq => by
    rw [heq, Cluster.compare_self] at h
    exact Int.lt_irrefl 0 h

theorem doProcess_groups_equal_records (sort : SortFn) (tree : RetainerTree) (t : EqualityTree) :
    ∀ u ∈ simList t tree, ∀ v ∈ simList t tree, u ≠ v → ClusterBackRefs.compare u v = 0 →
      getCoarseEquivalent (doProcess sort tree t).1 u.cluster =
          getCoarseEquivalent (doProcess sort tree t).1 v.cluster ∧
        ((doProcess sort tree t).1 u.cluster).isSome := by
  intro u hu v hv huv hc
  have hp := sort.perm (simList t tree)
  have hg := fillEqualityTree_groups (sort.sorted _) ((hp.map _).nodup_iff.2 (simList_nodup t tree))
    t u (hp.mem_iff.2 hu) v (hp.mem_iff.2 hv) huv hc
  unfold getCoarseEquivalent doProcess
  rw [canBeCoarsed_of_mem_simList hu, canBeCoarsed_of_mem_simList hv, if_pos rfl, if_pos rfl, hg.1]
  exact ⟨rfl, hg.1 ▸ hg.2⟩

theorem backRefs_empty : ∀ s rs : List Cluster, backRefs (fun _ => none) s rs = rs
  | _, [] => rfl
  | s, r :: rs => by
    have hnull : getCoarseEquivalent (fun _ => none) r = Cluster.null := by
      unfold getCoarseEquivalent
      split <;> rfl
    simp only [backRefs, hnull, backRefs_empty s rs]
    rfl

theorem ClusterBackRefs.compare_eq_zero_of {a b : ClusterBackRefs}
    (hc : a.cluster.constructor = b.cluster.constructor) (hr : a.refs = b.refs) :
    ClusterBackRefs.compare a b = 0 := by
  have hs := compareRefs_swap a.refs a.refs
  rcases ClusterBackRefs.compare_cases a b with ⟨-, hne⟩ | ⟨-, ⟨-, hl⟩ | ⟨-, hl⟩ | ⟨h, -⟩⟩
  · exact absurd hc hne
  · rw [hr] at hl; omega
  · rw [hr] at hl; omega
  · rw [h, ← hr]; omega

theorem eq_of_sorted_of_mem_iff {l₁ l₂ : List Cluster}
    (h₁ : l₁.Pairwise fun a b => Cluster.compare a b < 0)
    (h₂ : l₂.Pairwise fun a b => Cluster.compare a b < 0) (hm : ∀ r, r ∈ l₁ ↔ r ∈ l₂) :
    l₁ = l₂ := by
  haveI : IsAntisymm Cluster fun a b => Cluster.compare a b < 0 :=
    ⟨fun a b hab hba => by rw [Cluster.compare_swap] at hba; omega⟩
  have hnd : ∀ {l : List Cluster}, l.Pairwise (fun a b => Cluster.compare a b < 0) → l.Nodup :=
    fun h => h.imp fun h heq => by rw [heq, Cluster.compare_self] at h; exact Int.lt_irrefl 0 h
  exact List.eq_of_perm_of_sorted ((List.perm_ext_iff_of_nodup (hnd h₁) (hnd h₂)).2 hm) h₁ h₂

/-- The first pass is sound: two coarsable clusters of one constructor retained by the same
clusters get one coarse equivalent, recorded in `eq_tree_`, whatever order `qsort` leaves equal
records in. -/
theorem doProcess_first_pass_merges (sort : SortFn) (tree : RetainerTree) {c₁ c₂ : Cluster}
    {rs₁ rs₂ : List Cluster} (h₁ : (c₁, rs₁) ∈ tree.entries) (h₂ : (c₂, rs₂) ∈ tree.entries)
    (hc₁ : c₁.canBeCoarsed = true) (hc₂ : c₂.canBeCoarsed = true)
    (hk : c₁.constructor = c₂.constructor) (hm : ∀ r, r ∈ rs₁ ↔ r ∈ rs₂) :
    getCoarseEquivalent (doProcess sort tree fun _ => none).1 c₁ =
        getCoarseEquivalent (doProcess sort tree fun _ => none).1 c₂ ∧
      (c₁ ≠ c₂ → ((doProcess sort tree fun _ => none).1 c₁).isSome) := by
  have hmem : ∀ {c rs}, (c, rs) ∈ tree.entries → c.canBeCoarsed = true →
      (⟨c, rs⟩ : ClusterBackRefs) ∈ simList (fun _ => none) tree := fun h hc =>
    List.mem_filterMap.2 ⟨_, h, by simp [hc, backRefs_empty]⟩
  by_cases h : c₁ = c₂
  · exact ⟨h ▸ rfl, fun hne => absurd h hne⟩
  have hr := eq_of_sorted_of_mem_iff (tree.retainers_sorted _ h₁) (tree.retainers_sorted _ h₂) hm
  have hg := doProcess_groups_equal_records sort tree _ _ (hmem h₁ hc₁) _ (hmem h₂ hc₂)
    (fun he => h (congrArg ClusterBackRefs.cluster he)) (ClusterBackRefs.compare_eq_zero_of hk hr)
  exact ⟨hg.1, fun _ => hg.2⟩

end Pass

/-! ### A retainer tree whose second pass sees unsorted `refs`

`O1 = (1, 1)` and `O3 = (1, 3)` are each retained by `A = (5, 0)`, `X = (7, 1)` by `P = (1, 2)`
and `O3`, `Y = (7, 2)` by `O1` and `P`. Once the first pass maps `O1` and `O3` together, the
`refs` of `X` and `Y` are one set in opposite orders. -/

def crossedRetainers : RetainerTree where
  entries := [(⟨1, 1⟩, [⟨5, 0⟩]), (⟨1, 3⟩, [⟨5, 0⟩]), (⟨7, 1⟩, [⟨1, 2⟩, ⟨1, 3⟩]),
    (⟨7, 2⟩, [⟨1, 1⟩, ⟨1, 2⟩])]
  sorted := by decide
  retainers_sorted := by decide

theorem doProcess_first_pass_merges_crossed :
    getCoarseEquivalent (doProcess .mergeSort crossedRetainers fun _ => none).1 ⟨1, 1⟩ =
        getCoarseEquivalent (doProcess .mergeSort crossedRetainers fun _ => none).1 ⟨1, 3⟩ ∧
      ((doProcess .mergeSort crossedRetainers fun _ => none).1 ⟨1, 1⟩).isSome :=
  have h := @doProcess_first_pass_merges .mergeSort crossedRetainers ⟨1, 1⟩ ⟨1, 3⟩ [⟨5, 0⟩]
    [⟨5, 0⟩] (by decide) (by decide) (by decide) (by decide) rfl fun _ => Iff.rfl
  ⟨h.1, h.2 (by decide)⟩

theorem crossedRetainers_passes :
    ∀ S₁ ∈ (simList (fun _ => none) crossedRetainers).permutations', BackRefsSorted S₁ →
    let t₁ := fillEqualityTree (fun _ => none) S₁
    t₁.2 = 1 ∧
    (∃ rx ∈ [[(⟨1, 2⟩ : Cluster), ⟨1, 1⟩], [⟨1, 2⟩, ⟨1, 3⟩]],
      ∃ ry ∈ [[(⟨1, 1⟩ : Cluster), ⟨1, 2⟩], [⟨1, 3⟩, ⟨1, 2⟩]],
      ⟨⟨7, 1⟩, rx⟩ ∈ simList t₁.1 crossedRetainers ∧ ⟨⟨7, 2⟩, ry⟩ ∈ simList t₁.1 crossedRetainers ∧
      rx.reverse = ry ∧
      ¬(rx.Pairwise (fun a b => Cluster.compare a b < 0) ∧
        ry.Pairwise (fun a b => Cluster.compare a b < 0))) ∧
    ∀ S₂ ∈ (simList t₁.1 crossedRetainers).permutations', BackRefsSorted S₂ →
      (fillEqualityTree t₁.1 S₂).2 = 1 ∧ (fillEqualityTree t₁.1 S₂).1 ⟨7, 1⟩ = none ∧
        (fillEqualityTree t₁.1 S₂).1 ⟨7, 2⟩ = none := by
  decide

theorem process_splits_crossed_retainers (sort : SortFn) (n : Nat) :
    let t₁ := (doProcess sort crossedRetainers fun _ => none).1
    (∃ rx ry, ⟨⟨7, 1⟩, rx⟩ ∈ simList t₁ crossedRetainers ∧
      ⟨⟨7, 2⟩, ry⟩ ∈ simList t₁ crossedRetainers ∧ (∀ c, c ∈ rx ↔ c ∈ ry) ∧
      ¬(rx.Pairwise (fun a b => Cluster.compare a b < 0) ∧
        ry.Pairwise (fun a b => Cluster.compare a b < 0))) ∧
    getCoarseEquivalent (doProcess sort crossedRetainers t₁).1 ⟨7, 1⟩ = Cluster.null ∧
    getCoarseEquivalent (doProcess sort crossedRetainers t₁).1 ⟨7, 2⟩ = Cluster.null ∧
    getCoarseEquivalent (process sort (n + 2) crossedRetainers) ⟨7, 1⟩ = Cluster.null ∧
    getCoarseEquivalent (process sort (n + 2) crossedRetainers) ⟨7, 2⟩ = Cluster.null := by
  obtain ⟨h₁, ⟨rx, -, ry, -, hx, hy, hrev, hns⟩, h₂⟩ :=
    crossedRetainers_passes _ (sort.mem_permutations' _) (sort.sorted _)
  obtain ⟨hc₂, hnx, hny⟩ := h₂ _ (sort.mem_permutations' _) (sort.sorted _)
  have hp : process sort (n + 2) crossedRetainers =
      (doProcess sort crossedRetainers (doProcess sort crossedRetainers fun _ => none).1).1 := by
    simp only [process, processLoop, doProcess, h₁, hc₂]
    rfl
  simp only [hp, getCoarseEquivalent, doProcess, hnx, hny]
  refine ⟨⟨rx, ry, hx, hy, fun c => ?_, hns⟩, rfl, rfl, rfl, rfl⟩
  rw [← hrev, List.mem_reverse]

end EmbeddableV8
