import EmbeddableV8.ClustersCoarser
set_option autoImplicit false

/-!
The retainer tree of `RetainerHeapProfile` in `heap-profiler.cc`, its splay trees held as their
in-order lists. The symbols `Clusterize` tests are parameters, as `heap.h` and
`heap-profiler.h` are not in the repository.
-/

namespace EmbeddableV8

namespace Cluster

variable {a b c : Cluster}

theorem compare_lt_trans (h₁ : compare a b < 0) (h₂ : compare b c < 0) : compare a c < 0 := by
  rw [compare_neg_iff] at h₁ h₂ ⊢
  omega

theorem ne_of_compare_neg (h : compare a b < 0) : a ≠ b := by
  rintro rfl
  rw [compare_self] at h
  exact Int.lt_irrefl 0 h

end Cluster

abbrev ClustersSorted (l : List Cluster) : Prop :=
  l.Pairwise fun a b => Cluster.compare a b < 0

/-- `Insert` into a `JSObjectsClusterTree` used as a set, held as its in-order list: the cluster
goes in its place by `JSObjectsCluster::Compare` unless it is there already. -/
def insertCluster (c : Cluster) : List Cluster → List Cluster
  | [] => [c]
  | d :: ds =>
    if Cluster.compare c d < 0 then c :: d :: ds
    else if Cluster.compare c d = 0 then d :: ds
    else d :: insertCluster c ds

@[simp] theorem mem_insertCluster {c x : Cluster} {l : List Cluster} :
    x ∈ insertCluster c l ↔ x = c ∨ x ∈ l := by
  induction l with
  | nil => simp [insertCluster]
  | cons d ds ih =>
    unfold insertCluster
    split_ifs with hlt heq
    · exact List.mem_cons
    · obtain rfl := Cluster.compare_eq_zero_iff.1 heq
      simp
    · rw [List.mem_cons, ih, List.mem_cons, or_left_comm]

theorem insertCluster_sorted (c : Cluster) {l : List Cluster} (hl : ClustersSorted l) :
    ClustersSorted (insertCluster c l) := by
  induction l with
  | nil => exact List.pairwise_singleton _ _
  | cons d ds ih =>
    obtain ⟨hd, hds⟩ := List.pairwise_cons.1 hl
    unfold insertCluster
    split_ifs with hlt heq
    · exact List.pairwise_cons.2 ⟨fun x hx => by
        rcases List.mem_cons.1 hx with rfl | hx
        · exact hlt
        · exact Cluster.compare_lt_trans hlt (hd x hx), hl⟩
    · exact hl
    · refine List.pairwise_cons.2 ⟨fun x hx => ?_, ih hds⟩
      rcases mem_insertCluster.1 hx with rfl | hx
      · have := Cluster.compare_swap (a := d) (b := x)
        have := Cluster.compare_eq_zero_iff (a := x) (b := d)
        omega
      · exact hd x hx

/-- `Insert` of `k` into a `JSObjectsClusterTree` with values, then `set_value` through the
returned locator: a new key gets `f v`, a present one has its value `w` replaced by `f w`. -/
def insertWith {V : Type} (k : Cluster) (v : V) (f : V → V) :
    List (Cluster × V) → List (Cluster × V)
  | [] => [(k, f v)]
  | e :: es =>
    if Cluster.compare k e.1 < 0 then (k, f v) :: e :: es
    else if Cluster.compare k e.1 = 0 then (e.1, f e.2) :: es
    else e :: insertWith k v f es

theorem mem_of_lookup_eq_some {K V : Type} [BEq K] [LawfulBEq K] {l : List (K × V)} {k : K} {v : V}
    (h : l.lookup k = some v) : (k, v) ∈ l := by
  obtain ⟨l₁, l₂, rfl, -⟩ := List.lookup_eq_some_iff.1 h
  simp

theorem lookup_cons_ne {K V : Type} [BEq K] [LawfulBEq K] {k' k : K} {w : V} {es : List (K × V)}
    (h : k' ≠ k) : ((k, w) :: es).lookup k' = es.lookup k' := by
  rw [List.lookup_cons, beq_false_of_ne h]

section InsertWith

variable {V : Type} {k k' : Cluster} {v : V} {f : V → V}

theorem insertWith_keys (l : List (Cluster × V)) :
    (insertWith k v f l).map Prod.fst = insertCluster k (l.map Prod.fst) := by
  induction l with
  | nil => rfl
  | cons e es ih =>
    unfold insertWith
    simp only [List.map_cons, insertCluster]
    split_ifs
    · rfl
    · rfl
    · rw [List.map_cons, ih]

theorem lookup_eq_none_of_lt {l : List (Cluster × V)} (hl : ClustersSorted (l.map Prod.fst))
    {e : Cluster × V} (he : e ∈ l.head?) (hk : Cluster.compare k e.1 < 0) : l.lookup k = none := by
  obtain _ | ⟨e', es⟩ := l
  · rfl
  obtain rfl : e' = e := Option.some.inj he
  rw [List.lookup_eq_none_iff]
  intro p hp
  rw [bne_iff_ne]
  rcases List.mem_cons.1 hp with rfl | hp
  · exact Cluster.ne_of_compare_neg hk
  · exact Cluster.ne_of_compare_neg
      (Cluster.compare_lt_trans hk (List.rel_of_pairwise_cons hl (List.mem_map_of_mem Prod.fst hp)))

theorem lookup_insertWith {l : List (Cluster × V)} (hl : ClustersSorted (l.map Prod.fst)) :
    (insertWith k v f l).lookup k' =
      if k' = k then some (f ((l.lookup k).getD v)) else l.lookup k' := by
  induction l with
  | nil =>
    by_cases hk' : k' = k
    · subst hk'; simp [insertWith]
    · rw [insertWith, lookup_cons_ne hk', if_neg hk']
  | cons e es ih =>
    obtain ⟨ke, w⟩ := e
    have hes : ClustersSorted (es.map Prod.fst) := (List.pairwise_cons.1 hl).2
    unfold insertWith
    dsimp only
    by_cases hlt : Cluster.compare k ke < 0
    · rw [if_pos hlt, lookup_eq_none_of_lt hl rfl hlt]
      by_cases hk' : k' = k
      · subst hk'; simp
      · rw [lookup_cons_ne hk', if_neg hk']
    by_cases heq : Cluster.compare k ke = 0
    · obtain rfl := Cluster.compare_eq_zero_iff.1 heq
      rw [if_neg hlt, if_pos heq]
      by_cases hk' : k' = k
      · subst hk'; simp
      · rw [lookup_cons_ne hk', if_neg hk', lookup_cons_ne hk']
    have hne : k ≠ ke := fun h => heq (by rw [h, Cluster.compare_self])
    rw [if_neg hlt, if_neg heq]
    by_cases hke : k' = ke
    · subst hke
      rw [List.lookup_cons_self, if_neg (Ne.symm hne), List.lookup_cons_self]
    · rw [lookup_cons_ne hke, ih hes, lookup_cons_ne hne, lookup_cons_ne hke]

theorem mem_insertWith {l : List (Cluster × V)} {p : Cluster × V} (hp : p ∈ insertWith k v f l) :
    p ∈ l ∨ p.1 = k ∧ (p.2 = f v ∨ ∃ q ∈ l, p.2 = f q.2) := by
  induction l with
  | nil =>
    obtain rfl := List.mem_singleton.1 hp
    exact .inr ⟨rfl, .inl rfl⟩
  | cons e es ih =>
    unfold insertWith at hp
    split_ifs at hp with hlt heq
    · rcases List.mem_cons.1 hp with rfl | hp
      · exact .inr ⟨rfl, .inl rfl⟩
      · exact .inl hp
    · rcases List.mem_cons.1 hp with rfl | hp
      · exact .inr ⟨(Cluster.compare_eq_zero_iff.1 heq).symm, .inr ⟨e, List.mem_cons_self _ _, rfl⟩⟩
      · exact .inl (List.mem_cons_of_mem _ hp)
    · rcases List.mem_cons.1 hp with rfl | hp
      · exact .inl (List.mem_cons_self _ _)
      · rcases ih hp with hp | ⟨hk, hv | ⟨q, hq, hpq⟩⟩
        · exact .inl (List.mem_cons_of_mem _ hp)
        · exact .inr ⟨hk, .inl hv⟩
        · exact .inr ⟨hk, .inr ⟨q, List.mem_cons_of_mem _ hq, hpq⟩⟩

theorem lookup_eq_some_of_mem {l : List (Cluster × V)} (hl : ClustersSorted (l.map Prod.fst))
    (hm : (k, v) ∈ l) : l.lookup k = some v := by
  induction l with
  | nil => nomatch hm
  | cons e es ih =>
    obtain ⟨ke, w⟩ := e
    rcases List.mem_cons.1 hm with he | hm
    · cases he
      exact List.lookup_cons_self
    · have hne := Cluster.ne_of_compare_neg
        (List.rel_of_pairwise_cons hl (List.mem_map_of_mem Prod.fst hm))
      rw [lookup_cons_ne (Ne.symm hne), ih (List.pairwise_cons.1 hl).2 hm]

end InsertWith

namespace RetainerTree

def empty : RetainerTree := ⟨[], List.Pairwise.nil, fun _ h => nomatch h⟩

def insertRetainer (t : RetainerTree) (cluster refCluster : Cluster) : RetainerTree where
  entries := insertWith refCluster [] (insertCluster cluster) t.entries
  sorted := by
    rw [← List.pairwise_map (R := fun a b => Cluster.compare a b < 0), insertWith_keys]
    exact insertCluster_sorted _ (List.pairwise_map.2 t.sorted)
  retainers_sorted e he := by
    rcases mem_insertWith he with he | ⟨-, hw | ⟨q, hq, hw⟩⟩ <;> try rw [hw]
    · exact t.retainers_sorted e he
    · exact insertCluster_sorted _ List.Pairwise.nil
    · exact insertCluster_sorted _ (t.retainers_sorted q hq)

def Records (t : RetainerTree) (r k : Cluster) : Prop :=
  ∃ rs, t.entries.lookup k = some rs ∧ r ∈ rs

theorem mem_getD_iff {r : Cluster} {o : Option (List Cluster)} :
    r ∈ o.getD [] ↔ ∃ rs, o = some rs ∧ r ∈ rs := by
  cases o <;> simp

variable {t : RetainerTree} {r k : Cluster}

theorem records_insertRetainer {c k₀ : Cluster} :
    (t.insertRetainer c k₀).Records r k ↔ t.Records r k ∨ k = k₀ ∧ r = c := by
  unfold Records insertRetainer
  dsimp only
  rw [lookup_insertWith (List.pairwise_map.2 t.sorted)]
  by_cases hk : k = k₀
  · subst hk
    simp only [if_true, Option.some.injEq, exists_eq_left', mem_insertCluster, mem_getD_iff,
      true_and]
    exact or_comm
  · simp [hk]

theorem records_foldl {α : Type} {f : RetainerTree → α → RetainerTree}
    {P : α → Cluster → Cluster → Prop} (hf : ∀ t a, (f t a).Records r k ↔ t.Records r k ∨ P a r k)
    (l : List α) (t : RetainerTree) :
    (l.foldl f t).Records r k ↔ t.Records r k ∨ ∃ a ∈ l, P a r k := by
  induction l generalizing t with
  | nil => simp
  | cons a l ih => simp only [List.foldl_cons, ih, hf, List.mem_cons, exists_eq_or_imp, or_assoc]

theorem not_records_empty : ¬RetainerTree.empty.Records r k := fun ⟨_, h, _⟩ => nomatch h

end RetainerTree

/-- A heap object as `RetainerHeapProfile` tells them apart (`IsJSObject`, `IsString`,
`IsFixedArray`, `IsJSGlobalPropertyCell`), with the pointers its `Iterate` visits; a `Smi` is
`other`. -/
inductive HeapObject where
  | jsObject (constructorName : Nat) (pointers : List Nat)
  | string
  | fixedArray (elements : List Nat)
  | jsGlobalPropertyCell (pointers : List Nat)
  | other
  deriving DecidableEq, Repr

abbrev ObjectHeap := Nat → HeapObject

/-- The constructor symbols `Clusterize` tests (`Heap::Object_symbol`, `Array_symbol`,
`String_symbol`) and the constructors of the two `JSObjectsCluster::SpecialCase`s, `ROOTS` and
`GLOBAL_PROPERTY`: addresses fixed by `heap.h` and `heap-profiler.h`, not in the repository. -/
structure ProfilerSymbols where
  objectSymbol : Nat
  arraySymbol : Nat
  stringSymbol : Nat
  roots : Nat
  globalProperty : Nat

section Retainers

variable (sym : ProfilerSymbols) (h : ObjectHeap)

def isReferenced (o : Nat) : Bool :=
  match h o with
  | .jsObject _ _ => true
  | .string => true
  | _ => false

/-- `RetainerHeapProfile::Clusterize`: `Object` and `Array` instances are told apart, other
objects go by constructor. -/
def clusterize (o : Nat) : Cluster :=
  match h o with
  | .jsObject ctor _ =>
    if ctor = sym.objectSymbol ∨ ctor = sym.arraySymbol then ⟨ctor, o⟩ else ⟨ctor, 0⟩
  | .string => ⟨sym.stringSymbol, 0⟩
  | _ => Cluster.null

def storeReference (t : RetainerTree) (cluster : Cluster) (ref : Nat) : RetainerTree :=
  t.insertRetainer cluster (clusterize sym h ref)

def visitPointerInArray (cluster : Cluster) (t : RetainerTree) (o : Nat) : RetainerTree :=
  if isReferenced h o then storeReference sym h t cluster o else t

/-- `ReferencesExtractor::VisitPointer`: a `FixedArray` is entered one level deep. -/
def visitPointer (cluster : Cluster) (t : RetainerTree) (o : Nat) : RetainerTree :=
  if isReferenced h o then storeReference sym h t cluster o
  else match h o with
    | .fixedArray es => es.foldl (visitPointerInArray sym h cluster) t
    | _ => t

def collectStats (t : RetainerTree) (o : Nat) : RetainerTree :=
  match h o with
  | .jsObject _ ptrs => ptrs.foldl (visitPointer sym h (clusterize sym h o)) t
  | .jsGlobalPropertyCell ptrs => ptrs.foldl (visitPointer sym h ⟨sym.globalProperty, 0⟩) t
  | _ => t

def RetainerHeapProfile.init (roots : List Nat) : RetainerTree :=
  roots.foldl (visitPointer sym h ⟨sym.roots, 0⟩) RetainerTree.empty

def retainerProfile (roots objs : List Nat) : RetainerTree :=
  objs.foldl (collectStats sym h) (RetainerHeapProfile.init sym h roots)

def Reaches (ptrs : List Nat) (o : Nat) : Prop :=
  isReferenced h o = true ∧ (o ∈ ptrs ∨ ∃ a ∈ ptrs, ∃ es, h a = .fixedArray es ∧ o ∈ es)

def VisitsUnder (x : Nat) (ptrs : List Nat) (r : Cluster) : Prop :=
  (∃ c, h x = .jsObject c ptrs) ∧ r = clusterize sym h x ∨
    h x = .jsGlobalPropertyCell ptrs ∧ r = ⟨sym.globalProperty, 0⟩

/-- `r` retains `k`: `r` is `ROOTS`, a global property cell or the cluster of a `JSObject` of
`objs`, and points, directly or through one `FixedArray`, to an object of cluster `k`. -/
def Retains (roots objs : List Nat) (r k : Cluster) : Prop :=
  (r = ⟨sym.roots, 0⟩ ∧ ∃ o, Reaches h roots o ∧ clusterize sym h o = k) ∨
  ∃ x ∈ objs, ∃ ptrs, VisitsUnder sym h x ptrs r ∧ ∃ o, Reaches h ptrs o ∧ clusterize sym h o = k

variable {sym h} {r k : Cluster}

theorem records_visitPointerInArray {c : Cluster} (t : RetainerTree) (o : Nat) :
    (visitPointerInArray sym h c t o).Records r k ↔
      t.Records r k ∨ r = c ∧ isReferenced h o = true ∧ clusterize sym h o = k := by
  unfold visitPointerInArray storeReference
  split
  · next hr => simp [RetainerTree.records_insertRetainer, hr, eq_comm, and_comm]
  · next hr => simp [hr]

theorem records_visitPointer {c : Cluster} (t : RetainerTree) (o : Nat) :
    (visitPointer sym h c t o).Records r k ↔ t.Records r k ∨ r = c ∧
      ∃ o', Reaches h [o] o' ∧ clusterize sym h o' = k := by
  unfold visitPointer
  by_cases hr : isReferenced h o = true
  · have hfa : ∀ es, h o ≠ .fixedArray es := fun es he => by simp [isReferenced, he] at hr
    simp only [if_pos hr, storeReference, RetainerTree.records_insertRetainer, Reaches,
      List.mem_singleton, exists_eq_left, hfa, false_and, exists_false, or_false]
    refine or_congr_right ⟨fun ⟨hk, hc⟩ => ⟨hc, o, ⟨hr, rfl⟩, hk.symm⟩, ?_⟩
    rintro ⟨hc, o', ⟨-, rfl⟩, hk⟩
    exact ⟨hk.symm, hc⟩
  · rw [if_neg hr]
    split
    · next es hes =>
      rw [RetainerTree.records_foldl
        (P := fun o' r k => r = c ∧ isReferenced h o' = true ∧ clusterize sym h o' = k)
        (fun t o' => records_visitPointerInArray t o')]
      simp only [Reaches, List.mem_singleton, exists_eq_left, hes, HeapObject.fixedArray.injEq,
        exists_eq_left']
      refine or_congr_right ⟨fun ⟨a, ha, hc, hra, hk⟩ => ⟨hc, a, ⟨hra, .inr ha⟩, hk⟩, ?_⟩
      rintro ⟨hc, o', ⟨hro, rfl | ho⟩, hk⟩
      · exact absurd hro hr
      · exact ⟨o', ho, hc, hro, hk⟩
    · next hnot =>
      refine ⟨.inl, fun h' => h'.elim id ?_⟩
      rintro ⟨-, o', ⟨hro, ho | ⟨a, ha, es, hes, -⟩⟩, -⟩
      · exact absurd (List.mem_singleton.1 ho ▸ hro) hr
      · exact absurd (List.mem_singleton.1 ha ▸ hes) (hnot es)

theorem records_visitPointers {c : Cluster} (ptrs : List Nat) (t : RetainerTree) :
    (ptrs.foldl (visitPointer sym h c) t).Records r k ↔
      t.Records r k ∨ r = c ∧ ∃ o, Reaches h ptrs o ∧ clusterize sym h o = k := by
  rw [RetainerTree.records_foldl
    (P := fun o r k => r = c ∧ ∃ o', Reaches h [o] o' ∧ clusterize sym h o' = k)
    (fun t o => records_visitPointer t o)]
  refine or_congr_right ⟨?_, ?_⟩
  · rintro ⟨p, hp, hc, o', ⟨hro, ho⟩, hk⟩
    refine ⟨hc, o', ⟨hro, ?_⟩, hk⟩
    rcases ho with ho | ⟨a, ha, es, hes, hoe⟩
    · exact .inl (List.mem_singleton.1 ho ▸ hp)
    · exact .inr ⟨p, hp, es, List.mem_singleton.1 ha ▸ hes, hoe⟩
  · rintro ⟨hc, o', ⟨hro, ho | ⟨a, ha, es, hes, hoe⟩⟩, hk⟩
    · exact ⟨o', ho, hc, o', ⟨hro, .inl (List.mem_singleton_self _)⟩, hk⟩
    · exact ⟨a, ha, hc, o', ⟨hro, .inr ⟨a, List.mem_singleton_self _, es, hes, hoe⟩⟩, hk⟩

theorem records_collectStats (t : RetainerTree) (x : Nat) :
    (collectStats sym h t x).Records r k ↔ t.Records r k ∨
      ∃ ptrs, VisitsUnder sym h x ptrs r ∧ ∃ o, Reaches h ptrs o ∧ clusterize sym h o = k := by
  unfold collectStats
  split
  · next c ptrs hx =>
    rw [records_visitPointers]
    simp [VisitsUnder, hx, and_assoc]
  · next ptrs hx =>
    rw [records_visitPointers]
    simp [VisitsUnder, hx, and_assoc]
  · next hj hg =>
    refine ⟨.inl, fun h' => h'.elim id ?_⟩
    rintro ⟨ptrs, ⟨⟨c, hc⟩, -⟩ | ⟨hc, -⟩, -⟩
    · exact absurd hc (hj c ptrs)
    · exact absurd hc (hg ptrs)

theorem retainerProfile_records (roots objs : List Nat) (r k : Cluster) :
    (retainerProfile sym h roots objs).Records r k ↔ Retains sym h roots objs r k := by
  unfold retainerProfile RetainerHeapProfile.init Retains
  rw [RetainerTree.records_foldl
    (P := fun x r k => ∃ ptrs, VisitsUnder sym h x ptrs r ∧ ∃ o, Reaches h ptrs o ∧ clusterize sym h o = k)
    (fun t x => records_collectStats t x), records_visitPointers]
  simp only [RetainerTree.not_records_empty, false_or]

theorem retainerProfile_preserves {P : RetainerTree → Prop}
    (hP : ∀ t c o, isReferenced h o = true → P t → P (storeReference sym h t c o))
    (h0 : P RetainerTree.empty) (roots objs : List Nat) : P (retainerProfile sym h roots objs) := by
  have hvp : ∀ c t o, P t → P (visitPointer sym h c t o) := fun c t o ht => by
    unfold visitPointer
    split
    · exact hP t c o ‹_› ht
    · split
      · refine List.foldlRecOn _ _ t ht fun t ht o _ => ?_
        unfold visitPointerInArray
        split
        · exact hP t c o ‹_› ht
        · exact ht
      · exact ht
  have hvps : ∀ c (ptrs : List Nat) t, P t → P (ptrs.foldl (visitPointer sym h c) t) :=
    fun c _ t ht => List.foldlRecOn _ _ t ht fun t ht o _ => hvp c t o ht
  refine List.foldlRecOn _ _ _ (hvps _ roots _ h0) fun t ht x _ => ?_
  unfold collectStats
  split
  · exact hvps _ _ t ht
  · exact hvps _ _ t ht
  · exact ht

theorem retainerProfile_retainers_nonempty (roots objs : List Nat) :
    ∀ e ∈ (retainerProfile sym h roots objs).entries, e.2 ≠ [] := by
  refine retainerProfile_preserves (P := fun t => ∀ e ∈ t.entries, e.2 ≠ [])
    (fun t c o _ ht e he => ?_) (fun _ h => nomatch h) roots objs
  rcases mem_insertWith he with he | ⟨-, he | ⟨q, -, he⟩⟩
  · exact ht e he
  all_goals exact he ▸ List.ne_nil_of_mem (mem_insertCluster.2 (.inl rfl))

/-- `retainers_tree_` after `WriteSample`'s loop: a cluster has an entry exactly when something
retains it, and its entry is the non-empty set of what retains it. -/
theorem retainerProfile_lookup (roots objs : List Nat) (k : Cluster) :
    ((retainerProfile sym h roots objs).entries.lookup k = none ↔
      ∀ r, ¬Retains sym h roots objs r k) ∧
    ∀ rs, (retainerProfile sym h roots objs).entries.lookup k = some rs →
      rs ≠ [] ∧ ∀ r, r ∈ rs ↔ Retains sym h roots objs r k := by
  simp only [← retainerProfile_records, RetainerTree.Records]
  refine ⟨⟨?_, fun hn => ?_⟩, fun rs hrs => ?_⟩
  · rintro hk r ⟨rs, hrs, -⟩
    exact nomatch hk.symm.trans hrs
  · cases hk : (retainerProfile sym h roots objs).entries.lookup k with
    | none => rfl
    | some rs =>
      obtain ⟨r, hr⟩ := List.exists_mem_of_ne_nil rs <|
        retainerProfile_retainers_nonempty roots objs (k, rs) (mem_of_lookup_eq_some hk)
      exact absurd ⟨rs, hk, hr⟩ (hn r)
  · refine ⟨retainerProfile_retainers_nonempty roots objs (k, rs) (mem_of_lookup_eq_some hrs),
      fun r => ⟨fun hr => ⟨rs, hrs, hr⟩, ?_⟩⟩
    rintro ⟨rs', hrs', hr⟩
    exact Option.some.inj (hrs'.symm.trans hrs) ▸ hr

theorem clusterize_isNull_eq_false (hs : sym.stringSymbol ≠ 0)
    (hc : ∀ o c ptrs, h o = .jsObject c ptrs → c ≠ 0) {o : Nat} (ho : isReferenced h o = true) :
    (clusterize sym h o).isNull = false := by
  unfold isReferenced at ho
  unfold clusterize
  split at ho
  · next c ptrs hx =>
    split <;> simpa [Cluster.isNull] using hc o c ptrs hx
  · next hx => simpa [hx, Cluster.isNull] using hs
  · exact absurd ho Bool.false_ne_true

theorem retainerProfile_keys_nonnull (hs : sym.stringSymbol ≠ 0)
    (hc : ∀ o c ptrs, h o = .jsObject c ptrs → c ≠ 0) (roots objs : List Nat) :
    ∀ e ∈ (retainerProfile sym h roots objs).entries, e.1.isNull = false := by
  refine retainerProfile_preserves (P := fun t => ∀ e ∈ t.entries, e.1.isNull = false)
    (fun t c o ho ht e he => ?_) (fun _ h => nomatch h) roots objs
  rcases mem_insertWith he with he | ⟨he, -⟩
  · exact ht e he
  · exact he ▸ clusterize_isNull_eq_false hs hc ho

end Retainers

end EmbeddableV8
