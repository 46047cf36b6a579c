import Mathlib.Algebra.Order.Ring.Nat
import Mathlib.Algebra.Ring.Int.Defs
import Mathlib.Algebra.Group.Int
import Mathlib.Logic.Function.Basic
import Mathlib.Data.List.Basic
set_option autoImplicit false

namespace EmbeddableV8

abbrev ThreadId := Nat

abbrev Byte := UInt8

abbrev Buffer := Nat → Byte

def writeBytes (buf : Buffer) (c : Nat) (bs : List Byte) : Buffer :=
  fun i => if c ≤ i ∧ i < c + bs.length then bs.getD (i - c) 0 else buf i

def readBytes (buf : Buffer) (c n : Nat) : List Byte :=
  (List.range n).map fun j => buf (c + j)

theorem readBytes_writeBytes_self (buf : Buffer) (c : Nat) (bs : List Byte) :
    readBytes (writeBytes buf c bs) c bs.length = bs := by
  apply List.ext_getElem (by simp [readBytes])
  intro j _ h
  simp [readBytes, writeBytes, h]

theorem writeBytes_of_lt (buf : Buffer) (c : Nat) (bs : List Byte) {i : Nat} (h : i < c) :
    writeBytes buf c bs i = buf i := by
  simp [writeBytes]
  omega

theorem readBytes_congr {buf buf' : Buffer} {c n : Nat} (h : ∀ i, i < c + n → buf' i = buf i) :
    readBytes buf' c n = readBytes buf c n := by
  simp only [readBytes]
  exact List.map_congr_left fun j hj => h _ (by simp at hj; omega)

inductive Subsystem where
  | handleScopeImplementer
  | top
  | relocatable
  | debug
  | stackGuard
  | regExpStack
  | bootstrapper
  deriving DecidableEq, Repr

/-- What the thread manager uses of the archivable subsystems: each one's per-thread record,
the bytes its `Archive` writes for it and how its `Restore` reads them back, and the record
`Archive` and `FreeThreadResources` leave live (`ThreadLocal()` for `RegExpStack`). -/
structure Subsystems where
  debuggerSupport : Bool
  Rec : Subsystem → Type
  space : Subsystem → Nat
  blank : (k : Subsystem) → Rec k
  encode : (k : Subsystem) → Rec k → List Byte
  decode : (k : Subsystem) → List Byte → Rec k
  encode_length : ∀ k r, (encode k r).length = space k
  decode_encode : ∀ k r, decode k (encode k r) = r
  clearThread : Rec .stackGuard → Rec .stackGuard
  initThread : ThreadId → Rec .stackGuard → Rec .stackGuard
  terminateExecution : Rec .stackGuard → Rec .stackGuard
  threadId : Rec .top → Int
  setThreadId : Int → Rec .top → Rec .top
  /-- `thread_id()` reads back the `int` that `set_thread_id` stored. -/
  threadId_setThreadId : ∀ n r, -2 ^ 31 ≤ n → n < 2 ^ 31 → threadId (setThreadId n r) = n

variable (S : Subsystems)

abbrev Live := (k : Subsystem) → S.Rec k

def archiveOrder : List Subsystem :=
  [.handleScopeImplementer, .top, .relocatable] ++
    (if S.debuggerSupport then [.debug] else []) ++ [.stackGuard, .regExpStack, .bootstrapper]

def restoreOrder : List Subsystem :=
  [.handleScopeImplementer, .top, .relocatable] ++
    (if S.debuggerSupport then [.debug] else []) ++ [.stackGuard, .regExpStack, .bootstrapper]

/-- The subsystems `FreeThreadResources` releases: all but `Relocatable`. -/
def freeOrder : List Subsystem :=
  [.handleScopeImplementer, .top] ++
    (if S.debuggerSupport then [.debug] else []) ++ [.stackGuard, .regExpStack, .bootstrapper]

def archiveSpacePerThread : Nat :=
  S.space .handleScopeImplementer + S.space .top +
    (if S.debuggerSupport then S.space .debug else 0) + S.space .stackGuard +
    S.space .regExpStack + S.space .bootstrapper + S.space .relocatable

def archiveAll : List Subsystem → Live S → Buffer → Nat → Live S × Buffer
  | [], live, buf, _ => (live, buf)
  | k :: ks, live, buf, c =>
    archiveAll ks (Function.update live k (S.blank k)) (writeBytes buf c (S.encode k (live k)))
      (c + S.space k)

def restoreAll : List Subsystem → Buffer → Nat → Live S → Live S
  | [], _, _, live => live
  | k :: ks, buf, c, live =>
    restoreAll ks buf (c + S.space k)
      (Function.update live k (S.decode k (readBytes buf c (S.space k))))

def freeAll : List Subsystem → Live S → Live S
  | [], live => live
  | k :: ks, live => freeAll ks (Function.update live k (S.blank k))

theorem archiveOrder_nodup : (archiveOrder S).Nodup := by
  unfold archiveOrder; split <;> decide

theorem restoreOrder_eq : restoreOrder S = archiveOrder S := rfl

theorem freeOrder_sub {k : Subsystem} :
    k ∈ freeOrder S ↔ k ∈ archiveOrder S ∧ k ≠ .relocatable := by
  unfold freeOrder archiveOrder; split <;> cases k <;> decide

theorem archiveAll_live (ks : List Subsystem) (live : Live S) (buf : Buffer) (c : Nat)
    (k : Subsystem) :
    (archiveAll S ks live buf c).1 k = if k ∈ ks then S.blank k else live k := by
  induction ks generalizing live buf c with
  | nil => simp [archiveAll]
  | cons j ks ih =>
    rw [archiveAll, ih]
    by_cases hk : k = j
    · subst hk; simp
    · simp [hk, Function.update_noteq hk]

theorem archiveAll_buf_of_lt (ks : List Subsystem) (live : Live S) (buf : Buffer) (c : Nat)
    {i : Nat} (h : i < c) : (archiveAll S ks live buf c).2 i = buf i := by
  induction ks generalizing live buf c with
  | nil => rfl
  | cons j ks ih => rw [archiveAll, ih _ _ _ (by omega), writeBytes_of_lt _ _ _ h]

theorem restoreAll_of_not_mem (ks : List Subsystem) (buf : Buffer) (c : Nat) (live : Live S)
    {k : Subsystem} (h : k ∉ ks) : restoreAll S ks buf c live k = live k := by
  induction ks generalizing c live with
  | nil => rfl
  | cons j ks ih =>
    simp only [List.mem_cons, not_or] at h
    rw [restoreAll, ih _ _ h.2, Function.update_noteq h.1]

theorem restoreAll_congr_live (ks : List Subsystem) (buf : Buffer) (c : Nat) (live live' : Live S)
    {k : Subsystem} (h : k ∈ ks) :
    restoreAll S ks buf c live k = restoreAll S ks buf c live' k := by
  induction ks generalizing c live live' with
  | nil => cases h
  | cons j ks ih =>
    simp only [restoreAll]
    by_cases hk : k ∈ ks
    · exact ih _ _ _ hk
    · obtain rfl : k = j := by simpa [hk] using h
      rw [restoreAll_of_not_mem _ _ _ _ _ hk, restoreAll_of_not_mem _ _ _ _ _ hk]
      simp

theorem restoreAll_archiveAll (ks : List Subsystem) (hks : ks.Nodup) (live live' : Live S)
    (buf : Buffer) (c : Nat) (k : Subsystem) :
    restoreAll S ks (archiveAll S ks live buf c).2 c live' k =
      if k ∈ ks then live k else live' k := by
  induction ks generalizing live live' buf c with
  | nil => simp [restoreAll, archiveAll]
  | cons j ks ih =>
    obtain ⟨hj, hks⟩ := List.nodup_cons.1 hks
    have hread : readBytes (archiveAll S ks (Function.update live j (S.blank j))
        (writeBytes buf c (S.encode j (live j))) (c + S.space j)).2 c (S.space j) =
        S.encode j (live j) := by
      rw [readBytes_congr fun i hi => archiveAll_buf_of_lt S _ _ _ _ hi, ← S.encode_length j,
        readBytes_writeBytes_self]
    rw [archiveAll, restoreAll, hread, S.decode_encode, ih hks]
    by_cases hk : k = j
    · subst hk; simp [hj]
    · by_cases hm : k ∈ ks <;> simp [hk, hm, Function.update_noteq hk]

theorem freeAll_apply (ks : List Subsystem) (live : Live S) (k : Subsystem) :
    freeAll S ks live k = if k ∈ ks then S.blank k else live k := by
  induction ks generalizing live with
  | nil => simp [freeAll]
  | cons j ks ih =>
    rw [freeAll, ih]
    by_cases hk : k = j
    · subst hk; simp
    · simp [hk, Function.update_noteq hk]

def wordBytes (r : UInt32) : List Byte :=
  [UInt8.ofNat r.toNat, UInt8.ofNat (r.toNat / 256), UInt8.ofNat (r.toNat / 65536),
    UInt8.ofNat (r.toNat / 16777216)]

def bytesWord (bs : List Byte) : UInt32 :=
  UInt32.ofNat ((bs.getD 0 0).toNat + 256 * (bs.getD 1 0).toNat + 65536 * (bs.getD 2 0).toNat +
    16777216 * (bs.getD 3 0).toNat)

theorem bytesWord_wordBytes (r : UInt32) : bytesWord (wordBytes r) = r := by
  have h : r.toNat < 4294967296 := r.val.isLt
  have hb : ∀ n, (UInt8.ofNat n).toNat = n % 256 := fun n => by
    simp [UInt8.ofNat, UInt8.toNat, BitVec.toNat_ofNat]
  apply UInt32.eq_of_val_eq
  apply Fin.ext
  show (bytesWord (wordBytes r)).toNat = r.toNat
  simp only [bytesWord, wordBytes, List.getD_cons_zero, List.getD_cons_succ, hb]
  simp only [UInt32.ofNat, UInt32.toNat, BitVec.toNat_ofNat]
  simp only [UInt32.toNat] at h
  omega

/-- Subsystems whose records are one 32-bit word each, blank `0`, without the debugger: a small
configuration on which runs can be evaluated. `StackGuard::TerminateExecution` sets the stack
guard's word to `1`; `Top`'s word is its thread id, read as a signed `int`. -/
def Subsystems.word : Subsystems where
  debuggerSupport := false
  Rec _ := UInt32
  space _ := 4
  blank _ := 0
  encode _ := wordBytes
  decode _ := bytesWord
  encode_length _ _ := rfl
  decode_encode _ := bytesWord_wordBytes
  clearThread r := r
  initThread _ r := r
  terminateExecution _ := 1
  threadId r := if r.toNat < 2 ^ 31 then r.toNat else (r.toNat : Int) - 2 ^ 32
  setThreadId n _ := UInt32.ofNat (n % 2 ^ 32).toNat
  threadId_setThreadId n _ h₁ h₂ := by
    simp only [UInt32.toNat, UInt32.ofNat, BitVec.toNat_ofNat]
    split <;> omega

end EmbeddableV8
