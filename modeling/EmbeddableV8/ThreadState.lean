import EmbeddableV8.Archivable
import Mathlib.Data.List.Chain
import Mathlib.Data.List.Nodup
set_option autoImplicit false

namespace EmbeddableV8

/-- Modelled from the spec: `ThreadManager::kInvalidId` is declared in `v8threads.h`, which
is not in the repository; §3 gives 0 as the invalid id. -/
def kInvalidId : Int := 0

structure ThreadState where
  id : Int
  terminateOnRestore : Bool
  next : Nat
  previous : Nat
  data : Buffer

def ThreadState.new (this : Nat) : ThreadState :=
  ⟨kInvalidId, false, this, this, fun _ => 0⟩

abbrev Heap := Nat → ThreadState

namespace Heap

def setNext (h : Heap) (p q : Nat) : Heap := Function.update h p { h p with next := q }

def setPrevious (h : Heap) (p q : Nat) : Heap := Function.update h p { h p with previous := q }

def setId (h : Heap) (p : Nat) (n : Int) : Heap := Function.update h p { h p with id := n }

def setTerminate (h : Heap) (p : Nat) (b : Bool) : Heap :=
  Function.update h p { h p with terminateOnRestore := b }

def setData (h : Heap) (p : Nat) (d : Buffer) : Heap := Function.update h p { h p with data := d }

def unlink (h : Heap) (this : Nat) : Heap :=
  let h₁ := h.setPrevious (h this).next (h this).previous
  h₁.setNext (h₁ this).previous (h₁ this).next

def linkInto (h : Heap) (this anchor : Nat) : Heap :=
  let h₁ := h.setNext this (h anchor).next
  let h₂ := h₁.setPrevious this anchor
  let h₃ := h₂.setNext anchor this
  h₃.setPrevious (h₃ this).next this

variable (h : Heap) (p r : Nat)

@[simp] theorem setNext_next (q : Nat) :
    (h.setNext p q r).next = if r = p then q else (h r).next := by
  simp only [setNext, Function.update_apply]; split <;> simp_all

@[simp] theorem setNext_previous (q : Nat) : (h.setNext p q r).previous = (h r).previous := by
  simp only [setNext, Function.update_apply]; split <;> simp_all

@[simp] theorem setNext_id (q : Nat) : (h.setNext p q r).id = (h r).id := by
  simp only [setNext, Function.update_apply]; split <;> simp_all

@[simp] theorem setNext_terminate (q : Nat) :
    (h.setNext p q r).terminateOnRestore = (h r).terminateOnRestore := by
  simp only [setNext, Function.update_apply]; split <;> simp_all

@[simp] theorem setNext_data (q : Nat) : (h.setNext p q r).data = (h r).data := by
  simp only [setNext, Function.update_apply]; split <;> simp_all

@[simp] theorem setPrevious_previous (q : Nat) :
    (h.setPrevious p q r).previous = if r = p then q else (h r).previous := by
  simp only [setPrevious, Function.update_apply]; split <;> simp_all

@[simp] theorem setPrevious_next (q : Nat) : (h.setPrevious p q r).next = (h r).next := by
  simp only [setPrevious, Function.update_apply]; split <;> simp_all

@[simp] theorem setPrevious_id (q : Nat) : (h.setPrevious p q r).id = (h r).id := by
  simp only [setPrevious, Function.update_apply]; split <;> simp_all

@[simp] theorem setPrevious_terminate (q : Nat) :
    (h.setPrevious p q r).terminateOnRestore = (h r).terminateOnRestore := by
  simp only [setPrevious, Function.update_apply]; split <;> simp_all

@[simp] theorem setPrevious_data (q : Nat) : (h.setPrevious p q r).data = (h r).data := by
  simp only [setPrevious, Function.update_apply]; split <;> simp_all

@[simp] theorem setId_next (n : Int) : (h.setId p n r).next = (h r).next := by
  simp only [setId, Function.update_apply]; split <;> simp_all

@[simp] theorem setId_previous (n : Int) : (h.setId p n r).previous = (h r).previous := by
  simp only [setId, Function.update_apply]; split <;> simp_all

@[simp] theorem setId_id (n : Int) :
    (h.setId p n r).id = if r = p then n else (h r).id := by
  simp only [setId, Function.update_apply]; split <;> simp_all

@[simp] theorem setId_terminate (n : Int) :
    (h.setId p n r).terminateOnRestore = (h r).terminateOnRestore := by
  simp only [setId, Function.update_apply]; split <;> simp_all

@[simp] theorem setId_data (n : Int) : (h.setId p n r).data = (h r).data := by
  simp only [setId, Function.update_apply]; split <;> simp_all

@[simp] theorem setTerminate_next (b : Bool) : (h.setTerminate p b r).next = (h r).next := by
  simp only [setTerminate, Function.update_apply]; split <;> simp_all

@[simp] theorem setTerminate_previous (b : Bool) :
    (h.setTerminate p b r).previous = (h r).previous := by
  simp only [setTerminate, Function.update_apply]; split <;> simp_all

@[simp] theorem setTerminate_id (b : Bool) : (h.setTerminate p b r).id = (h r).id := by
  simp only [setTerminate, Function.update_apply]; split <;> simp_all

@[simp] theorem setTerminate_terminate (b : Bool) :
    (h.setTerminate p b r).terminateOnRestore = if r = p then b else (h r).terminateOnRestore := by
  simp only [setTerminate, Function.update_apply]; split <;> simp_all

@[simp] theorem setTerminate_data (b : Bool) : (h.setTerminate p b r).data = (h r).data := by
  simp only [setTerminate, Function.update_apply]; split <;> simp_all

@[simp] theorem setData_next (d : Buffer) : (h.setData p d r).next = (h r).next := by
  simp only [setData, Function.update_apply]; split <;> simp_all

@[simp] theorem setData_previous (d : Buffer) : (h.setData p d r).previous = (h r).previous := by
  simp only [setData, Function.update_apply]; split <;> simp_all

@[simp] theorem setData_id (d : Buffer) : (h.setData p d r).id = (h r).id := by
  simp only [setData, Function.update_apply]; split <;> simp_all

@[simp] theorem setData_terminate (d : Buffer) :
    (h.setData p d r).terminateOnRestore = (h r).terminateOnRestore := by
  simp only [setData, Function.update_apply]; split <;> simp_all

@[simp] theorem setData_data (d : Buffer) :
    (h.setData p d r).data = if r = p then d else (h r).data := by
  simp only [setData, Function.update_apply]; split <;> simp_all

theorem unlink_eq :
    h.unlink p = (h.setPrevious (h p).next (h p).previous).setNext (h p).previous (h p).next := by
  simp only [unlink, setPrevious_next, setPrevious_previous, ite_self]

theorem linkInto_eq (a : Nat) (hpa : p ≠ a) :
    h.linkInto p a =
      (((h.setNext p (h a).next).setPrevious p a).setNext a p).setPrevious (h a).next p := by
  simp only [linkInto, setNext_next, setPrevious_next, if_neg hpa, if_pos rfl, ite_true]

@[simp] theorem unlink_id : (h.unlink p r).id = (h r).id := by simp [unlink]

@[simp] theorem unlink_terminate :
    (h.unlink p r).terminateOnRestore = (h r).terminateOnRestore := by simp [unlink]

@[simp] theorem unlink_data : (h.unlink p r).data = (h r).data := by simp [unlink]

@[simp] theorem linkInto_id (a : Nat) : (h.linkInto p a r).id = (h r).id := by simp [linkInto]

@[simp] theorem linkInto_terminate (a : Nat) :
    (h.linkInto p a r).terminateOnRestore = (h r).terminateOnRestore := by simp [linkInto]

@[simp] theorem linkInto_data (a : Nat) : (h.linkInto p a r).data = (h r).data := by
  simp [linkInto]

end Heap

def Link (h : Heap) (a b : Nat) : Prop := (h a).next = b ∧ (h b).previous = a

/-- `anchor :: xs` is a circular doubly linked list of distinct cells: `next_` runs from the
anchor through `xs` and back to it, `previous_` the other way. -/
def Ring (h : Heap) (anchor : Nat) (xs : List Nat) : Prop :=
  (anchor :: xs).Nodup ∧ List.Chain' (Link h) (anchor :: xs ++ [anchor])

theorem chain'_link_congr {h h' : Heap} :
    ∀ {l : List Nat}, l.Chain' (Link h) → (∀ x ∈ l.dropLast, (h' x).next = (h x).next) →
      (∀ y ∈ l.tail, (h' y).previous = (h y).previous) → l.Chain' (Link h')
  | [], _, _, _ => List.chain'_nil
  | [_], _, _, _ => List.chain'_singleton _
  | a :: b :: l, hc, hn, hp => by
    rw [List.chain'_cons] at hc ⊢
    refine ⟨⟨by rw [hn a (by simp), hc.1.1], by rw [hp b (by simp), hc.1.2]⟩,
      chain'_link_congr hc.2 (fun x hx => hn x ?_) (fun y hy => hp y ?_)⟩
    · rw [List.dropLast_cons₂]; exact List.mem_cons_of_mem _ hx
    · exact List.mem_of_mem_tail hy

theorem chain'_link_mem {h : Heap} :
    ∀ {l : List Nat}, l.Chain' (Link h) →
      (∀ x ∈ l.dropLast, (h x).next ∈ l) ∧ (∀ y ∈ l.tail, (h y).previous ∈ l)
  | [], _ => by simp
  | [_], _ => by simp
  | a :: b :: l, hc => by
    rw [List.chain'_cons] at hc
    have ih := chain'_link_mem hc.2
    refine ⟨fun x hx => ?_, fun y hy => ?_⟩
    · rw [List.dropLast_cons₂, List.mem_cons] at hx
      rcases hx with rfl | hx
      · rw [hc.1.1]; simp
      · exact List.mem_cons_of_mem _ (ih.1 x hx)
    · rw [List.tail_cons, List.mem_cons] at hy
      rcases hy with rfl | hy
      · rw [hc.1.2]; simp
      · exact List.mem_cons_of_mem _ (ih.2 y hy)

namespace Ring

variable {h : Heap} {a : Nat} {xs : List Nat}

theorem congr {k : Heap} (hr : Ring h a xs)
    (hl : ∀ x ∈ a :: xs, (k x).next = (h x).next ∧ (k x).previous = (h x).previous) :
    Ring k a xs := by
  refine ⟨hr.1, chain'_link_congr hr.2 (fun x hx => (hl x ?_).1) (fun y hy => (hl y ?_).2)⟩
  · rwa [List.dropLast_concat] at hx
  · simp only [List.cons_append, List.tail_cons, List.mem_append, List.mem_singleton] at hy
    rcases hy with hy | rfl
    · exact List.mem_cons_of_mem _ hy
    · exact List.mem_cons_self _ _

theorem links_mem (hr : Ring h a xs) {p : Nat} (hp : p ∈ a :: xs) :
    (h p).next ∈ a :: xs ∧ (h p).previous ∈ a :: xs := by
  have hm := chain'_link_mem hr.2
  have hsub : ∀ q ∈ a :: xs ++ [a], q ∈ a :: xs := by
    intro q hq
    simp only [List.mem_append, List.mem_singleton, List.mem_cons] at hq ⊢
    tauto
  refine ⟨hsub _ (hm.1 p ?_), hsub _ (hm.2 p ?_)⟩
  · rwa [List.dropLast_concat]
  · simp only [List.mem_cons] at hp
    rcases hp with rfl | hp <;> simp [*]

theorem unlink {p : Nat} {ys : List Nat} (hr : Ring h a (xs ++ p :: ys)) :
    Ring (h.unlink p) a (xs ++ ys) := by
  obtain ⟨hnd, hc⟩ := hr
  obtain ⟨l₁, u, hl₁⟩ : ∃ l₁ u, a :: xs = l₁ ++ [u] :=
    ⟨_, _, (List.dropLast_append_getLast (List.cons_ne_nil a xs)).symm⟩
  obtain ⟨v, l₂, hl₂⟩ : ∃ v l₂, ys ++ [a] = v :: l₂ := by cases ys <;> simp
  have hsplit : a :: (xs ++ p :: ys) ++ [a] = l₁ ++ [u] ++ p :: v :: l₂ := by
    rw [← hl₁, ← hl₂]; simp
  rw [hsplit, List.chain'_append, List.chain'_cons] at hc
  obtain ⟨hc₁, ⟨hpv, hc₃⟩, hj⟩ := hc
  have hup : Link h u p := hj u (by simp) p (by simp)
  have heq : h.unlink p = (h.setPrevious v u).setNext u v := by
    rw [Heap.unlink_eq, hpv.1, hup.2]
  have hnd₁ : (l₁ ++ [u]).Nodup :=
    hl₁ ▸ hnd.sublist (List.cons_sublist_cons.2 (List.sublist_append_left _ _))
  have hnd₂ : (v :: l₂).Nodup := hl₂ ▸ List.perm_append_comm.nodup_iff.2
    (hnd.sublist (List.cons_sublist_cons.2 (List.sublist_append_of_sublist_right
      (List.sublist_cons_self p ys))))
  obtain ⟨ha, hnd'⟩ := List.nodup_cons.1 hnd
  obtain ⟨_, _, hdis⟩ := List.nodup_append.1 hnd'
  have hax : a ∉ xs := fun hx => ha (List.mem_append_left _ hx)
  have hay : a ∉ ys := fun hy => ha (List.mem_append_right _ (List.mem_cons_of_mem _ hy))
  have hxy : ∀ x ∈ xs, x ∉ ys := fun x hx hy => hdis hx (List.mem_cons_of_mem _ hy)
  have hu : u ∈ a :: xs := hl₁ ▸ List.mem_append_right _ (List.mem_singleton_self u)
  have hv : v ∈ ys ++ [a] := hl₂ ▸ List.mem_cons_self v l₂
  refine ⟨hnd.sublist (List.cons_sublist_cons.2
    (List.Sublist.append_left (List.sublist_cons_self p ys) xs)), ?_⟩
  have hsplit' : a :: (xs ++ ys) ++ [a] = l₁ ++ [u] ++ v :: l₂ := by
    rw [← hl₁, ← hl₂]; simp
  rw [hsplit', List.chain'_append]
  refine ⟨chain'_link_congr hc₁ (fun x hx => ?_) (fun y hy => ?_),
    chain'_link_congr hc₃ (fun x hx => ?_) (fun y hy => ?_), ?_⟩
  · rw [List.dropLast_concat] at hx
    have : x ≠ u := fun e => (List.nodup_append.1 hnd₁).2.2 hx (by simp [e])
    simp [heq, this]
  · rw [← hl₁, List.tail_cons] at hy
    have : y ≠ v := by
      rintro rfl
      simp only [List.mem_append, List.mem_singleton] at hv
      rcases hv with hv | rfl
      · exact hxy y hy hv
      · exact hax hy
    simp [heq, this]
  · rw [← hl₂, List.dropLast_concat] at hx
    have : x ≠ u := by
      rintro rfl
      simp only [List.mem_cons] at hu
      rcases hu with rfl | hu
      · exact hay hx
      · exact hxy _ hu hx
    simp [heq, this]
  · have : y ≠ v := fun e => (List.nodup_cons.1 hnd₂).1 (e ▸ hy)
    simp [heq, this]
  · intro x hx y hy
    simp only [List.getLast?_concat, List.head?_cons, Option.mem_def, Option.some.injEq] at hx hy
    subst hx hy
    simp [heq, Link]

theorem linkInto {p : Nat} (hr : Ring h a xs) (hp : p ∉ a :: xs) :
    Ring (h.linkInto p a) a (p :: xs) := by
  obtain ⟨hnd, hc⟩ := hr
  obtain ⟨v, l₂, hl₂⟩ : ∃ v l₂, xs ++ [a] = v :: l₂ := by cases xs <;> simp
  rw [List.cons_append, hl₂, List.chain'_cons] at hc
  obtain ⟨hav, hc₃⟩ := hc
  simp only [List.mem_cons, not_or] at hp
  have hv : v ∈ xs ++ [a] := hl₂ ▸ List.mem_cons_self v l₂
  have hpv : p ≠ v := by
    rintro rfl
    simp only [List.mem_append, List.mem_singleton] at hv
    exact hv.elim hp.2 hp.1
  have heq : h.linkInto p a = (((h.setNext p v).setPrevious p a).setNext a p).setPrevious v p := by
    rw [Heap.linkInto_eq _ _ _ hp.1, hav.1]
  have hnd₂ : (v :: l₂).Nodup := hl₂ ▸ List.perm_append_comm.nodup_iff.2 hnd
  obtain ⟨hax, hxs⟩ := List.nodup_cons.1 hnd
  refine ⟨List.nodup_cons.2 ⟨by simp [Ne.symm hp.1, hax], List.nodup_cons.2 ⟨hp.2, hxs⟩⟩, ?_⟩
  rw [List.cons_append, List.cons_append, hl₂, List.chain'_cons, List.chain'_cons]
  refine ⟨⟨by simp [heq], by simp [heq, hpv]⟩, ⟨by simp [heq, hp.1], by simp [heq]⟩,
    chain'_link_congr hc₃ (fun x hx => ?_) (fun y hy => ?_)⟩
  · rw [← hl₂, List.dropLast_concat] at hx
    have h₁ : x ≠ a := fun e => hax (e ▸ hx)
    have h₂ : x ≠ p := fun e => hp.2 (e ▸ hx)
    simp [heq, h₁, h₂]
  · have h₁ : y ≠ v := fun e => (List.nodup_cons.1 hnd₂).1 (e ▸ hy)
    have h₂ : y ≠ p := by
      rintro rfl
      have : y ∈ xs ++ [a] := hl₂ ▸ List.mem_cons_of_mem v hy
      simp only [List.mem_append, List.mem_singleton] at this
      exact this.elim hp.2 hp.1
    simp [heq, h₁, h₂]

theorem unlink_of_disjoint {b p : Nat} {zs : List Nat} (hr : Ring h a xs) (hp : p ∈ a :: xs)
    (hz : Ring h b zs) (hd : ∀ x ∈ b :: zs, x ∉ a :: xs) : Ring (h.unlink p) b zs := by
  obtain ⟨hn, hq⟩ := hr.links_mem hp
  refine hz.congr fun x hx => ?_
  have h₁ : x ≠ (h p).previous := fun e => hd x hx (e ▸ hq)
  have h₂ : x ≠ (h p).next := fun e => hd x hx (e ▸ hn)
  simp [Heap.unlink_eq, h₁, h₂]

theorem linkInto_of_disjoint {b p : Nat} {zs : List Nat} (hr : Ring h a xs) (hpa : p ≠ a)
    (hz : Ring h b zs) (hd : ∀ x ∈ b :: zs, x ∉ a :: xs) (hpz : p ∉ b :: zs) :
    Ring (h.linkInto p a) b zs := by
  have hn := (hr.links_mem (List.mem_cons_self a xs)).1
  refine hz.congr fun x hx => ?_
  have h₁ : x ≠ p := fun e => hpz (e ▸ hx)
  have h₂ : x ≠ a := fun e => hd x hx (e ▸ List.mem_cons_self a xs)
  have h₃ : x ≠ (h a).next := fun e => hd x hx (e ▸ hn)
  simp [Heap.linkInto_eq _ _ _ hpa, h₁, h₂, h₃]

theorem next_anchor_cons {p : Nat} (hr : Ring h a (p :: xs)) : (h a).next = p :=
  (List.chain'_cons.1 hr.2).1.1

theorem next_anchor_nil (hr : Ring h a []) : (h a).next = a := (List.chain'_pair.1 hr.2).1

theorem of_links {k : Heap} (hr : Ring h a xs)
    (hl : ∀ x, (k x).next = (h x).next ∧ (k x).previous = (h x).previous) : Ring k a xs :=
  hr.congr fun x _ => hl x

end Ring

def nextState (h : Heap) (anchor p : Nat) : Option Nat :=
  if (h p).next = anchor then none else some (h p).next

/-- The states the loop `for (state = first; state != NULL; state = state->Next())` visits,
if it ends within `fuel` iterations. -/
def walk (h : Heap) (anchor : Nat) : Nat → Option Nat → Option (List Nat)
  | _, none => some []
  | 0, some _ => none
  | fuel + 1, some p => (walk h anchor fuel (nextState h anchor p)).map (p :: ·)

theorem nextState_eq_head? {h : Heap} {a p : Nat} {ys : List Nat}
    (hc : (p :: ys ++ [a]).Chain' (Link h)) (ha : a ∉ ys) : nextState h a p = ys.head? := by
  cases ys with
  | nil => simp [nextState, (List.chain'_pair.1 hc).1]
  | cons q ys =>
    rw [List.cons_append, List.cons_append, List.chain'_cons] at hc
    have hqa : q ≠ a := fun e => ha (e ▸ List.mem_cons_self q ys)
    simp [nextState, hc.1.1, hqa]

theorem walk_chain {h : Heap} {a : Nat} :
    ∀ {ys : List Nat} {fuel : Nat}, (ys ++ [a]).Chain' (Link h) → a ∉ ys → ys.length ≤ fuel →
      walk h a fuel ys.head? = some ys
  | [], fuel, _, _, _ => by cases fuel <;> rfl
  | p :: ys, fuel + 1, hc, ha, hl => by
    rw [List.mem_cons, not_or] at ha
    rw [List.cons_append] at hc
    simp only [List.head?_cons, walk]
    rw [nextState_eq_head? hc ha.2,
      walk_chain (List.chain'_cons'.1 hc).2 ha.2 (by simpa using hl)]
    rfl

theorem walk_ring {h : Heap} {a : Nat} {xs : List Nat} {fuel : Nat} (hr : Ring h a xs)
    (hl : xs.length ≤ fuel) : walk h a fuel (nextState h a a) = some xs := by
  have ha : a ∉ xs := (List.nodup_cons.1 hr.1).1
  have hc := hr.2
  rw [nextState_eq_head? hc ha]
  rw [List.cons_append] at hc
  exact walk_chain (List.chain'_cons'.1 hc).2 ha hl

end EmbeddableV8
