import EmbeddableV8.RetainerTree
set_option autoImplicit false

namespace EmbeddableV8

/-! ### The equality tree `Process` leaves -/

/-- Every value of `eq_tree_` is a coarsable, non-null cluster with an entry of its own. -/
def EqualityTree.Closed (t : EqualityTree) : Prop :=
  ∀ c d, t c = some d → d.canBeCoarsed = true ∧ d.isNull = false ∧ (t d).isSome

section Closed

variable {t : EqualityTree}

theorem EqualityTree.Closed.update (ht : EqualityTree.Closed t) {k v : Cluster}
    (hc : v.canBeCoarsed = true) (hn : v.isNull = false)
    (hv : (Function.update t k (some v) v).isSome) :
    EqualityTree.Closed (Function.update t k (some v)) := by
  intro c d hd
  by_cases hck : c = k
  · subst hck
    rw [Function.update_same, Option.some.injEq] at hd
    exact hd ▸ ⟨hc, hn, hv⟩
  · rw [Function.update_noteq hck] at hd
    obtain ⟨hdc, hdn, hds⟩ := ht c d hd
    refine ⟨hdc, hdn, ?_⟩
    by_cases hdk : d = k
    · subst hdk; simp
    · rwa [Function.update_noteq hdk]

abbrev Coarsable (c : Cluster) : Prop := c.canBeCoarsed = true ∧ c.isNull = false

theorem fillLoop_closed : ∀ {xs : List ClusterBackRefs} {eqTo : ClusterBackRefs} {fa : Bool}
    {t : EqualityTree} {n : Int}, (∀ x ∈ eqTo :: xs, Coarsable x.cluster) →
    EqualityTree.Closed t → (fa = true → (t eqTo.cluster).isSome) →
    EqualityTree.Closed (fillLoop eqTo fa xs t n).1
  | [], _, _, _, _, _, ht, _ => ht
  | x :: xs, eqTo, fa, t, n, hgood, ht, hfa => by
    have ⟨hec, hen⟩ := hgood eqTo (List.mem_cons_self _ _)
    unfold fillLoop
    split
    · let t₁ := if fa then t else Function.update t eqTo.cluster (some eqTo.cluster)
      have h₁ : EqualityTree.Closed t₁ ∧ (t₁ eqTo.cluster).isSome := by
        cases fa
        · exact ⟨ht.update hec hen (by simp), by simp [t₁]⟩
        · exact ⟨ht, hfa rfl⟩
      refine fillLoop_closed (fun y hy => hgood y ?_) (h₁.1.update hec hen ?_) fun _ => ?_
      · rcases List.mem_cons.1 hy with rfl | hy
        · exact List.mem_cons_self _ _
        · exact List.mem_cons_of_mem _ (List.mem_cons_of_mem _ hy)
      all_goals
        by_cases hx : eqTo.cluster = x.cluster
        · rw [← hx, Function.update_same]; rfl
        · rw [Function.update_noteq hx]; exact h₁.2
    · exact fillLoop_closed (fun y hy => hgood y (List.mem_cons_of_mem _ hy)) ht
        (fun h => nomatch h)

theorem doProcess_closed {sort : SortFn} {tree : RetainerTree}
    (hkeys : ∀ e ∈ tree.entries, e.1.isNull = false) (ht : EqualityTree.Closed t) :
    EqualityTree.Closed (doProcess sort tree t).1 := by
  have hgood : ∀ u ∈ sort.sort (simList t tree), Coarsable u.cluster := fun u hu => by
    have hu := (sort.perm _).mem_iff.1 hu
    refine ⟨canBeCoarsed_of_mem_simList hu, ?_⟩
    obtain ⟨e, he, hue⟩ := List.mem_filterMap.1 hu
    simp only [Option.ite_none_right_eq_some, Option.some.injEq] at hue
    exact hue.2 ▸ hkeys e he
  unfold doProcess fillEqualityTree
  split
  · exact ht
  · next x xs hx => exact fillLoop_closed (hx ▸ hgood) ht (fun h => nomatch h)

theorem process_closed (sort : SortFn) (kMaxPassesCount : Nat) {tree : RetainerTree}
    (hkeys : ∀ e ∈ tree.entries, e.1.isNull = false) :
    EqualityTree.Closed (process sort kMaxPassesCount tree) := by
  unfold process
  suffices ∀ n last t, EqualityTree.Closed t → EqualityTree.Closed (processLoop sort tree n last t)
    from this _ _ _ fun _ _ h => nomatch h
  intro n
  induction n with
  | zero => exact fun _ _ ht => ht
  | succ n ih =>
    intro last t ht
    unfold processLoop
    dsimp only
    split
    · exact doProcess_closed hkeys ht
    · exact ih _ _ (doProcess_closed hkeys ht)

theorem EqualityTree.Closed.getCoarseEquivalent (ht : EqualityTree.Closed t) {c : Cluster}
    (hc : (getCoarseEquivalent t c).isNull = false) :
    (getCoarseEquivalent t (getCoarseEquivalent t c)).isNull = false := by
  unfold EmbeddableV8.getCoarseEquivalent at *
  split at hc
  · next hcc =>
    cases htc : t c with
    | none => simp [htc, Cluster.null, Cluster.isNull] at hc
    | some d =>
      obtain ⟨hdc, -, hds⟩ := ht c d htc
      obtain ⟨d', hd'⟩ := Option.isSome_iff_exists.1 hds
      simp only [hcc, htc, Option.getD_some, hdc, if_true, hd']
      exact (ht d d' hd').2.1
  · simp [Cluster.null, Cluster.isNull] at hc

theorem backRefs_cons (t : EqualityTree) (S : List Cluster) (r : Cluster) (rs : List Cluster) :
    backRefs t S (r :: rs) =
      if (getCoarseEquivalent t r).isNull then r :: backRefs t S rs
      else if getCoarseEquivalent t r ∈ S then backRefs t S rs
      else getCoarseEquivalent t r :: backRefs t (getCoarseEquivalent t r :: S) rs := by
  rw [backRefs]
  cases (getCoarseEquivalent t r).isNull <;> rfl

theorem mem_backRefs (ht : EqualityTree.Closed t) {x : Cluster} :
    ∀ {S rs : List Cluster}, x ∈ backRefs t S rs →
      (getCoarseEquivalent t x).isNull = false ∧ x ∉ S ∨
        (getCoarseEquivalent t x).isNull = true ∧ x ∈ rs
  | _, [], hx => nomatch hx
  | S, r :: rs, hx => by
    rw [backRefs_cons] at hx
    split_ifs at hx with hn hS
    · rcases List.mem_cons.1 hx with rfl | hx
      · exact .inr ⟨hn, List.mem_cons_self _ _⟩
      · exact (mem_backRefs ht hx).imp_right fun h => ⟨h.1, List.mem_cons_of_mem _ h.2⟩
    · exact (mem_backRefs ht hx).imp_right fun h => ⟨h.1, List.mem_cons_of_mem _ h.2⟩
    · rcases List.mem_cons.1 hx with rfl | hx
      · exact .inl ⟨ht.getCoarseEquivalent (by simpa using hn), hS⟩
      · exact (mem_backRefs ht hx).imp (fun h => ⟨h.1, fun h' => h.2 (List.mem_cons_of_mem _ h')⟩)
          fun h => ⟨h.1, List.mem_cons_of_mem _ h.2⟩

theorem backRefs_nodup (ht : EqualityTree.Closed t) :
    ∀ {S rs : List Cluster}, rs.Nodup → (backRefs t S rs).Nodup
  | _, [], _ => List.nodup_nil
  | S, r :: rs, hrs => by
    obtain ⟨hr, hrs⟩ := List.nodup_cons.1 hrs
    rw [backRefs_cons]
    split_ifs with hn hS
    · refine List.nodup_cons.2 ⟨fun hx => ?_, backRefs_nodup ht hrs⟩
      rcases mem_backRefs ht hx with h | h
      · exact Bool.false_ne_true (h.1.symm.trans hn)
      · exact hr h.2
    · exact backRefs_nodup ht hrs
    · refine List.nodup_cons.2 ⟨fun hx => ?_, backRefs_nodup ht hrs⟩
      rcases mem_backRefs ht hx with h | h
      · exact h.2 (List.mem_cons_self _ _)
      · rw [ht.getCoarseEquivalent (by simpa using hn)] at h
        exact Bool.false_ne_true h.1

end Closed

/-! ### Printing: `DebugPrintStats` -/

/-- What `Call` writes to `current_stream_` after a cluster: a retainer, or the ",..." that stands
for those past `kMaxRetainersToPrint`. -/
inductive RetainerItem where
  | cluster (c : Cluster)
  | ellipsis
  deriving DecidableEq, Repr

structure PrintState where
  retainersPrinted : Nat
  coarseClusterTree : List Cluster
  stream : List RetainerItem

def hasAnEquivalent (eqTree : EqualityTree) (c : Cluster) : Bool :=
  c.canBeCoarsed && Cluster.compare c (getCoarseEquivalent eqTree c) != 0

def printRetainer (eqTree : EqualityTree) (kMaxRetainersToPrint : Nat) (st : PrintState)
    (c : Cluster) : PrintState :=
  if st.retainersPrinted ≥ kMaxRetainersToPrint then
    if st.retainersPrinted = kMaxRetainersToPrint then
      { st with stream := st.stream ++ [.ellipsis], retainersPrinted := st.retainersPrinted + 1 }
    else st
  else
    let eq := getCoarseEquivalent eqTree c
    if eq.isNull then
      { st with stream := st.stream ++ [.cluster c], retainersPrinted := st.retainersPrinted + 1 }
    else if eq ∈ st.coarseClusterTree then st
    else
      { coarseClusterTree := eq :: st.coarseClusterTree, stream := st.stream ++ [.cluster eq],
        retainersPrinted := st.retainersPrinted + 1 }

def retainersLine (eqTree : EqualityTree) (kMaxRetainersToPrint : Nat) (rs : List Cluster) :
    List RetainerItem :=
  (rs.foldl (printRetainer eqTree kMaxRetainersToPrint) ⟨0, [], []⟩).stream

/-- `RetainerHeapProfile::DebugPrintStats`: `coarser_.Process`, then the first-level `Call`s, one
line for each cluster of `retainers_tree_` that has no equivalent. -/
def debugPrintStats (sort : SortFn) (kMaxPassesCount kMaxRetainersToPrint : Nat)
    (tree : RetainerTree) : List (Cluster × List RetainerItem) :=
  let eqTree := process sort kMaxPassesCount tree
  tree.entries.filterMap fun e =>
    if hasAnEquivalent eqTree e.1 then none
    else some (e.1, retainersLine eqTree kMaxRetainersToPrint e.2)

/-- The cluster under which `Call` prints the retainer `r`: its coarse equivalent, or `r` itself
where that is null. -/
def printedAs (eqTree : EqualityTree) (r : Cluster) : Cluster :=
  if (getCoarseEquivalent eqTree r).isNull then r else getCoarseEquivalent eqTree r

section Print

variable {eqTree : EqualityTree} {kMax : Nat}

theorem backRefs_step (S : List Cluster) (r : Cluster) : ∃ out S', out.length ≤ 1 ∧
    ∀ rs, backRefs eqTree S (r :: rs) = out ++ backRefs eqTree S' rs := by
  simp only [backRefs_cons]
  split_ifs
  · exact ⟨[r], S, le_rfl, fun _ => rfl⟩
  · exact ⟨[], S, Nat.zero_le _, fun _ => rfl⟩
  · exact ⟨[_], _, le_rfl, fun _ => rfl⟩

theorem backRefs_append (S : List Cluster) :
    ∀ l₁ l₂ : List Cluster, ∃ S', backRefs eqTree S (l₁ ++ l₂) = backRefs eqTree S l₁ ++ backRefs eqTree S' l₂
  | [], _ => ⟨S, by simp [backRefs]⟩
  | r :: l₁, l₂ => by
    obtain ⟨out, S₁, -, hb⟩ := @backRefs_step eqTree S r
    obtain ⟨S', h⟩ := backRefs_append S₁ l₁ l₂
    exact ⟨S', by rw [List.cons_append, hb, hb, h, List.append_assoc]⟩

theorem length_backRefs_le_dropLast {rs : List Cluster} (hrs : rs ≠ []) (S : List Cluster) :
    (backRefs eqTree S rs).length ≤ (backRefs eqTree S rs.dropLast).length + 1 := by
  obtain ⟨S', h⟩ := @backRefs_append eqTree S rs.dropLast [rs.getLast hrs]
  obtain ⟨out, S'', hout, hb⟩ := @backRefs_step eqTree S' (rs.getLast hrs)
  rw [List.dropLast_concat_getLast hrs] at h
  rw [h, hb, List.length_append, List.length_append]
  simp [backRefs]
  omega

theorem exists_of_mem_backRefs {x : Cluster} :
    ∀ {S rs : List Cluster}, x ∈ backRefs eqTree S rs → ∃ r ∈ rs, x = printedAs eqTree r
  | _, [], hx => nomatch hx
  | S, r :: rs, hx => by
    rw [backRefs_cons] at hx
    have tail : ∀ {S'}, x ∈ backRefs eqTree S' rs → ∃ y ∈ r :: rs, x = printedAs eqTree y :=
      fun hx => (exists_of_mem_backRefs hx).imp fun _ h => ⟨List.mem_cons_of_mem _ h.1, h.2⟩
    split_ifs at hx with hn hS
    · rcases List.mem_cons.1 hx with rfl | hx
      · exact ⟨x, List.mem_cons_self _ _, by simp [printedAs, hn]⟩
      · exact tail hx
    · exact tail hx
    · rcases List.mem_cons.1 hx with rfl | hx
      · exact ⟨r, List.mem_cons_self _ _, by simp [printedAs, hn]⟩
      · exact tail hx

theorem printedAs_mem_backRefs {r : Cluster} :
    ∀ {S rs : List Cluster}, r ∈ rs → printedAs eqTree r ∈ backRefs eqTree S rs ∨ printedAs eqTree r ∈ S
  | _, [], hr => nomatch hr
  | S, r' :: rs, hr => by
    rw [backRefs_cons]
    rcases List.mem_cons.1 hr with rfl | hr
    · unfold printedAs
      split_ifs with hn hS
      · simp
      · exact .inr hS
      · simp
    · split_ifs with hn hS
      · exact (printedAs_mem_backRefs hr).imp_left (List.mem_cons_of_mem _)
      · exact printedAs_mem_backRefs hr
      · rcases printedAs_mem_backRefs (S := getCoarseEquivalent eqTree r' :: S) hr with h | h
        · exact .inl (List.mem_cons_of_mem _ h)
        · rcases List.mem_cons.1 h with h | h
          · exact .inl (h ▸ List.mem_cons_self _ _)
          · exact .inr h

theorem printRetainer_of_lt (st : PrintState) (r : Cluster) (h : st.retainersPrinted < kMax) :
    ∃ out S, out.length ≤ 1 ∧
      (∀ rs, backRefs eqTree st.coarseClusterTree (r :: rs) = out ++ backRefs eqTree S rs) ∧
      printRetainer eqTree kMax st r =
        ⟨st.retainersPrinted + out.length, S, st.stream ++ out.map .cluster⟩ := by
  unfold printRetainer
  simp only [backRefs_cons, ge_iff_le, Nat.not_le.2 h, if_false]
  by_cases hn : (getCoarseEquivalent eqTree r).isNull
  · exact ⟨[r], st.coarseClusterTree, le_rfl, fun _ => by simp [hn], by simp [hn]⟩
  · by_cases hS : getCoarseEquivalent eqTree r ∈ st.coarseClusterTree
    · exact ⟨[], st.coarseClusterTree, Nat.zero_le _, fun _ => by simp [hn, hS], by simp [hn, hS]⟩
    · exact ⟨[getCoarseEquivalent eqTree r], getCoarseEquivalent eqTree r :: st.coarseClusterTree, le_rfl,
        fun _ => by simp [hn, hS], by simp [hn, hS]⟩

theorem foldl_printRetainer_of_lt {st : PrintState} (h : kMax < st.retainersPrinted) :
    ∀ rs : List Cluster, rs.foldl (printRetainer eqTree kMax) st = st
  | [] => rfl
  | r :: rs => by
    rw [List.foldl_cons, printRetainer, if_pos h.le, if_neg (Nat.ne_of_gt h)]
    exact foldl_printRetainer_of_lt h rs

theorem foldl_printRetainer_stream :
    ∀ (rs : List Cluster) (st : PrintState), st.retainersPrinted ≤ kMax →
      (rs.foldl (printRetainer eqTree kMax) st).stream = st.stream ++
        ((backRefs eqTree st.coarseClusterTree rs).take (kMax - st.retainersPrinted)).map .cluster ++
        if rs ≠ [] ∧ kMax - st.retainersPrinted ≤
            (backRefs eqTree st.coarseClusterTree rs.dropLast).length then [.ellipsis] else []
  | [], st, _ => by simp [backRefs]
  | r :: rs, st, hst => by
    rcases Nat.lt_or_eq_of_le hst with hlt | heq
    · obtain ⟨out, S, hout, hb, hp⟩ := @printRetainer_of_lt eqTree kMax st r hlt
      have hle : out.length ≤ kMax - st.retainersPrinted := by omega
      rw [List.foldl_cons, hp, foldl_printRetainer_stream rs _ (by dsimp only; omega)]
      dsimp only
      rw [hb, List.take_append_eq_append_take, List.take_of_length_le hle]
      by_cases hrs : rs = []
      · subst hrs
        simp [backRefs]
        omega
      · rw [List.dropLast_cons_of_ne_nil hrs, hb]
        simp [hrs, Nat.sub_sub]
        split_ifs <;> first | rfl | omega
    · rw [List.foldl_cons, printRetainer, if_pos heq.ge, if_pos heq,
        foldl_printRetainer_of_lt (by simp [heq])]
      simp [heq]

/-- The limited print loop prints the first `kMaxRetainersToPrint` of the retainers that
`ClustersCoarser::Call` collects, and ",..." once the limit is reached before the last retainer,
even where that retainer adds nothing. -/
theorem retainersLine_eq (eqTree : EqualityTree) (kMaxRetainersToPrint : Nat) (rs : List Cluster) :
    retainersLine eqTree kMaxRetainersToPrint rs =
      ((backRefs eqTree [] rs).take kMaxRetainersToPrint).map .cluster ++
        if rs ≠ [] ∧ kMaxRetainersToPrint ≤ (backRefs eqTree [] rs.dropLast).length then
          [.ellipsis] else [] := by
  simpa using foldl_printRetainer_stream rs ⟨0, [], []⟩ (Nat.zero_le kMaxRetainersToPrint)

theorem mem_backRefs_of_mem_retainersLine {x : Cluster} {rs : List Cluster}
    (hx : .cluster x ∈ retainersLine eqTree kMax rs) : x ∈ backRefs eqTree [] rs := by
  rw [retainersLine, foldl_printRetainer_stream rs _ (Nat.zero_le _)] at hx
  simp only [List.nil_append, List.mem_append, List.mem_ite_nil_right, List.mem_singleton,
    reduceCtorEq, and_false, or_false] at hx
  obtain ⟨y, hy, hyx⟩ := List.mem_map.1 hx
  exact RetainerItem.cluster.inj hyx ▸ List.mem_of_mem_take hy

theorem mem_retainersLine_of_not_ellipsis {rs : List Cluster}
    (he : .ellipsis ∉ retainersLine eqTree kMax rs) {x : Cluster} (hx : x ∈ backRefs eqTree [] rs) :
    .cluster x ∈ retainersLine eqTree kMax rs := by
  rw [retainersLine, foldl_printRetainer_stream rs _ (Nat.zero_le _)] at he ⊢
  have hlen : (backRefs eqTree [] rs).length ≤ kMax := by
    rcases eq_or_ne rs [] with rfl | hrs
    · simp [backRefs]
    · have := @length_backRefs_le_dropLast eqTree rs hrs []
      have : ¬kMax ≤ (backRefs eqTree [] rs.dropLast).length := fun hk => he (by simp [hrs, hk])
      omega
  simp only [List.nil_append, Nat.sub_zero, List.take_of_length_le hlen]
  exact List.mem_append_left _ (List.mem_map_of_mem _ hx)

theorem retainersLine_nodup (ht : EqualityTree.Closed eqTree) {rs : List Cluster} (hrs : rs.Nodup) :
    (retainersLine eqTree kMax rs).Nodup := by
  rw [retainersLine, foldl_printRetainer_stream rs _ (Nat.zero_le _)]
  simp only [List.nil_append, Nat.sub_zero]
  refine List.Nodup.append (((backRefs_nodup ht hrs).sublist (List.take_sublist _ _)).map
    fun _ _ h => RetainerItem.cluster.inj h) (by split <;> simp) ?_
  split
  · simpa using fun h => by simpa using List.mem_of_mem_take h
  · exact List.disjoint_nil_right _

end Print

/-! ### The report on a heap -/

section Report

variable {sym : ProfilerSymbols} {h : ObjectHeap} {roots objs : List Nat} {sort : SortFn}
  {kMaxPassesCount kMaxRetainersToPrint : Nat} {k : Cluster} {items : List RetainerItem}

theorem mem_debugPrintStats {tree : RetainerTree} :
    (k, items) ∈ debugPrintStats sort kMaxPassesCount kMaxRetainersToPrint tree ↔
      ∃ rs, (k, rs) ∈ tree.entries ∧ hasAnEquivalent (process sort kMaxPassesCount tree) k = false ∧
        items = retainersLine (process sort kMaxPassesCount tree) kMaxRetainersToPrint rs := by
  simp only [debugPrintStats, List.mem_filterMap]
  constructor
  · rintro ⟨⟨k', rs⟩, he, hl⟩
    split_ifs at hl with hq
    cases hl
    exact ⟨rs, he, by simpa using hq, rfl⟩
  · rintro ⟨rs, he, hq, rfl⟩
    exact ⟨(k, rs), he, by simp [hq]⟩

theorem ClustersSorted.nodup {l : List Cluster} (hl : ClustersSorted l) : l.Nodup :=
  hl.imp Cluster.ne_of_compare_neg

theorem line_of_mem_debugPrintStats (hl : (k, items) ∈
    debugPrintStats sort kMaxPassesCount kMaxRetainersToPrint (retainerProfile sym h roots objs)) :
    ∃ rs, rs.Nodup ∧ (∀ r, r ∈ rs ↔ Retains sym h roots objs r k) ∧
      items = retainersLine (process sort kMaxPassesCount (retainerProfile sym h roots objs))
        kMaxRetainersToPrint rs := by
  obtain ⟨rs, he, -, rfl⟩ := mem_debugPrintStats.1 hl
  have hk := lookup_eq_some_of_mem (List.pairwise_map.2 (retainerProfile sym h roots objs).sorted) he
  refine ⟨rs, ClustersSorted.nodup ((retainerProfile sym h roots objs).retainers_sorted _ he),
    fun r => ?_, rfl⟩
  rw [← retainerProfile_records]
  exact ⟨fun hr => ⟨rs, hk, hr⟩, fun ⟨_, h', hr⟩ => Option.some.inj (h'.symm.trans hk) ▸ hr⟩

/-- Each line printed for a heap names only what retains its cluster, each retainer under the
cluster `Call` prints it as; unless it ends in ",...", it names every retainer. -/
theorem debugPrintStats_reports_retainers (hl : (k, items) ∈
    debugPrintStats sort kMaxPassesCount kMaxRetainersToPrint (retainerProfile sym h roots objs)) :
    (∀ x, .cluster x ∈ items → ∃ r, Retains sym h roots objs r k ∧
      x = printedAs (process sort kMaxPassesCount (retainerProfile sym h roots objs)) r) ∧
    (.ellipsis ∉ items → ∀ r, Retains sym h roots objs r k →
      .cluster (printedAs (process sort kMaxPassesCount (retainerProfile sym h roots objs)) r) ∈
        items) := by
  obtain ⟨rs, -, hrs, rfl⟩ := line_of_mem_debugPrintStats hl
  refine ⟨fun x hx => ?_, fun he r hr => ?_⟩
  · obtain ⟨r, hr, rfl⟩ := exists_of_mem_backRefs (mem_backRefs_of_mem_retainersLine hx)
    exact ⟨r, (hrs r).1 hr, rfl⟩
  · exact mem_retainersLine_of_not_ellipsis he
      ((printedAs_mem_backRefs ((hrs r).2 hr)).resolve_right (List.not_mem_nil _))

/-- Symbols `Object` = 1, `Array` = 2, `String` = 3, and the `ROOTS` and `GLOBAL_PROPERTY`
clusters' 4 and 5. -/
def sampleSymbols : ProfilerSymbols := ⟨1, 2, 3, 4, 5⟩

def sampleHeap : ObjectHeap := fun o =>
  if o = 10 then .jsObject 7 [11] else if o = 11 then .string else .other

/-- Two root `Object`s 20 and 21 and an object 22 of constructor 7, each pointing to the string
30: `Process` finds the clusters of 20 and 21 equivalent. -/
def coarsedHeap : ObjectHeap := fun o =>
  if o = 20 ∨ o = 21 then .jsObject 1 [30] else if o = 22 then .jsObject 7 [30]
  else if o = 30 then .string else .other

theorem debugPrintStats_reports_coarsed_string :
    hasAnEquivalent (process .mergeSort 3
        (retainerProfile sampleSymbols coarsedHeap [20, 21] [20, 21, 22, 30])) ⟨1, 21⟩ = true ∧
      ((⟨3, 0⟩ : Cluster), [.cluster ⟨1, 20⟩, .ellipsis]) ∈ debugPrintStats .mergeSort 3 1
        (retainerProfile sampleSymbols coarsedHeap [20, 21] [20, 21, 22, 30]) ∧
      (∀ x, .cluster x ∈ [RetainerItem.cluster ⟨1, 20⟩, .ellipsis] → ∃ r,
        Retains sampleSymbols coarsedHeap [20, 21] [20, 21, 22, 30] r ⟨3, 0⟩ ∧ x = printedAs
          (process .mergeSort 3 (retainerProfile sampleSymbols coarsedHeap [20, 21]
            [20, 21, 22, 30])) r) ∧
      ((⟨3, 0⟩ : Cluster), [.cluster ⟨1, 20⟩, .cluster ⟨7, 0⟩]) ∈ debugPrintStats .mergeSort 3 2
        (retainerProfile sampleSymbols coarsedHeap [20, 21] [20, 21, 22, 30]) ∧
      ∀ r, Retains sampleSymbols coarsedHeap [20, 21] [20, 21, 22, 30] r ⟨3, 0⟩ → .cluster
        (printedAs (process .mergeSort 3 (retainerProfile sampleSymbols coarsedHeap [20, 21]
          [20, 21, 22, 30])) r) ∈ [RetainerItem.cluster ⟨1, 20⟩, .cluster ⟨7, 0⟩] := by
  have hl₁ : ((⟨3, 0⟩ : Cluster), [.cluster ⟨1, 20⟩, .ellipsis]) ∈ debugPrintStats .mergeSort 3 1
      (retainerProfile sampleSymbols coarsedHeap [20, 21] [20, 21, 22, 30]) :=
    mem_debugPrintStats.2 ⟨[⟨1, 20⟩, ⟨1, 21⟩, ⟨7, 0⟩], by decide, by with_unfolding_all decide,
      by with_unfolding_all decide⟩
  have hl₂ : ((⟨3, 0⟩ : Cluster), [.cluster ⟨1, 20⟩, .cluster ⟨7, 0⟩]) ∈
      debugPrintStats .mergeSort 3 2
        (retainerProfile sampleSymbols coarsedHeap [20, 21] [20, 21, 22, 30]) :=
    mem_debugPrintStats.2 ⟨[⟨1, 20⟩, ⟨1, 21⟩, ⟨7, 0⟩], by decide, by with_unfolding_all decide,
      by with_unfolding_all decide⟩
  exact ⟨by with_unfolding_all decide, hl₁, (debugPrintStats_reports_retainers hl₁).1, hl₂,
    (debugPrintStats_reports_retainers hl₂).2 (by decide)⟩

/-- With the `String` symbol and every constructor name non-null, no line printed for a heap
names a cluster twice. -/
theorem debugPrintStats_line_nodup (hs : sym.stringSymbol ≠ 0)
    (hc : ∀ o c ptrs, h o = .jsObject c ptrs → c ≠ 0) (hl : (k, items) ∈
      debugPrintStats sort kMaxPassesCount kMaxRetainersToPrint (retainerProfile sym h roots objs)) :
    items.Nodup := by
  obtain ⟨rs, hnd, -, rfl⟩ := line_of_mem_debugPrintStats hl
  exact retainersLine_nodup (process_closed sort _ (retainerProfile_keys_nonnull hs hc roots objs)) hnd

theorem debugPrintStats_line_nodup_coarsed :
    sampleSymbols.stringSymbol ≠ 0 ∧ (∀ o c ptrs, coarsedHeap o = .jsObject c ptrs → c ≠ 0) ∧
      ((⟨3, 0⟩ : Cluster), [.cluster ⟨1, 20⟩, .cluster ⟨7, 0⟩]) ∈ debugPrintStats .mergeSort 3 2
        (retainerProfile sampleSymbols coarsedHeap [20, 21] [20, 21, 22, 30]) ∧
      [RetainerItem.cluster ⟨1, 20⟩, .cluster ⟨7, 0⟩].Nodup := by
  have hs : sampleSymbols.stringSymbol ≠ 0 := by decide
  have hc : ∀ o c ptrs, coarsedHeap o = .jsObject c ptrs → c ≠ 0 := fun o c ptrs hx => by
    unfold coarsedHeap at hx
    split_ifs at hx <;> cases hx <;> decide
  have hl : ((⟨3, 0⟩ : Cluster), [.cluster ⟨1, 20⟩, .cluster ⟨7, 0⟩]) ∈
      debugPrintStats .mergeSort 3 2
        (retainerProfile sampleSymbols coarsedHeap [20, 21] [20, 21, 22, 30]) :=
    mem_debugPrintStats.2 ⟨[⟨1, 20⟩, ⟨1, 21⟩, ⟨7, 0⟩], by decide, by with_unfolding_all decide,
      by with_unfolding_all decide⟩
  exact ⟨hs, hc, hl, debugPrintStats_line_nodup hs hc hl⟩

end Report

end EmbeddableV8
