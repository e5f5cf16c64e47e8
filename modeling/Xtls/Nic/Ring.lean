import Mathlib.Data.Nat.Bitwise
import Xtls.Lib.Fifo
import Xtls.Lib.Run

/-!
# The ring between two cores

`sj_ring_create`, `sj_ring_enqueue` and `sj_ring_dequeue` (`ring.c`), one atomic step at a time, for one
producer and one consumer in any order.  `log` is a history variable with the answer of every call.
-/

namespace Xtls.Nic

section

variable {α : Type}

structure SjRing (α : Type) where
  size : UInt32
  mask : UInt32
  tail : UInt32
  head : UInt32
  ring : Nat → α

/-- `sj_ring_create`; the process exits if `count` is not a power of two. -/
def sjRingCreate [Inhabited α] (count : UInt32) : Option (SjRing α) :=
  if count = 0 ∨ count &&& (count - 1) ≠ 0 then none
  else some { size := count, mask := count - 1, tail := 0, head := 0, ring := fun _ => default }

/-- How far `sj_ring_enqueue` has come, with what it has read. -/
inductive Producer (α : Type) where
  | idle
  | tailRead (obj : α) (t : UInt32)
  | hasRoom (obj : α) (t : UInt32)
  | written (obj : α) (t : UInt32)

inductive Consumer (α : Type) where
  | idle
  | headRead (h : UInt32)
  | hasObject (h : UInt32)
  | taken (obj : α) (h : UInt32)

structure RingSys (α : Type) where
  ring : SjRing α
  producer : Producer α := .idle
  consumer : Consumer α := .idle
  log : List (QueueEvent α) := []

inductive RingAct (α : Type) where
  | enqueue (obj : α)   -- the producer calls `sj_ring_enqueue`
  | produce             -- and goes on with it
  | dequeue
  | consume

/-- One atomic step of the producer. -/
def produceStep (s : RingSys α) : RingSys α :=
  match s.producer with
  | .idle => s
  | .tailRead obj t =>
    if (t + 1) &&& s.ring.mask = s.ring.head then
      { s with producer := .idle, log := s.log ++ [.full] }
    else { s with producer := .hasRoom obj t }
  | .hasRoom obj t =>
    { s with
      ring := { s.ring with ring := fun i => if i = t.toNat then obj else s.ring.ring i }
      producer := .written obj t }
  | .written obj t =>
    { s with
      ring := { s.ring with tail := (t + 1) &&& s.ring.mask }
      producer := .idle, log := s.log ++ [.enqueued obj] }

/-- One atomic step of the consumer. -/
def consumeStep (s : RingSys α) : RingSys α :=
  match s.consumer with
  | .idle => s
  | .headRead h =>
    if h = s.ring.tail then { s with consumer := .idle, log := s.log ++ [.empty] }
    else { s with consumer := .hasObject h }
  | .hasObject h => { s with consumer := .taken (s.ring.ring h.toNat) h }
  | .taken obj h =>
    { s with
      ring := { s.ring with head := (h + 1) &&& s.ring.mask }
      consumer := .idle, log := s.log ++ [.dequeued obj] }

def ringStep : RingAct α → RingSys α → RingSys α
  | .enqueue obj, s =>
    match s.producer with
    | .idle => { s with producer := .tailRead obj s.ring.tail }
    | _ => s
  | .produce, s => produceStep s
  | .dequeue, s =>
    match s.consumer with
    | .idle => { s with consumer := .headRead s.ring.head }
    | _ => s
  | .consume, s => consumeStep s

def ringRun (acts : List (RingAct α)) (s : RingSys α) : RingSys α :=
  acts.foldl (fun s a => ringStep a s) s

/-! ### Indices -/

/- The slot `i` places behind `h` in a ring of `n` slots. -/
def slotAt (n h i : Nat) : Nat := if h + i < n then h + i else h + i - n

/-- The objects in the ring, oldest first. -/
def SjRing.contents (r : SjRing α) : List α :=
  (List.range ((r.tail - r.head) &&& r.mask).toNat).map fun i =>
    r.ring (slotAt r.size.toNat r.head.toNat i)

theorem and_mask_toNat {k : Nat} {mask : UInt32} (hmask : mask.toNat = 2 ^ k - 1)
    (x : UInt32) : (x &&& mask).toNat = x.toNat % 2 ^ k := by
  rw [UInt32.toNat_and, hmask, Nat.and_two_pow_sub_one_eq_mod]

theorem next_toNat {k : Nat} {mask t : UInt32} (hk : k < 32) (hmask : mask.toNat = 2 ^ k - 1)
    (ht : t.toNat < 2 ^ k) : ((t + 1) &&& mask).toNat = slotAt (2 ^ k) t.toNat 1 := by
  have hdvd : 2 ^ k ∣ 2 ^ 32 := Nat.pow_dvd_pow 2 (by omega)
  rw [and_mask_toNat hmask, UInt32.toNat_add]
  rw [Nat.mod_mod_of_dvd _ hdvd]
  unfold slotAt
  show (t.toNat + 1) % 2 ^ k = _
  split
  · rename_i hlt
    exact Nat.mod_eq_of_lt hlt
  · have heq : t.toNat + 1 = 2 ^ k := by omega
    rw [heq, Nat.mod_self, Nat.sub_self]

theorem slotAt_injective {n h i j : Nat} (hi : i < n) (hj : j < n)
    (heq : slotAt n h i = slotAt n h j) : i = j := by
  unfold slotAt at heq
  split at heq <;> split at heq <;> omega

theorem slotAt_slotAt {n h i j : Nat} (hh : h < n) (hij : i + j < n) :
    slotAt n (slotAt n h i) j = slotAt n h (i + j) := by
  unfold slotAt
  split <;> split <;> split <;> omega

/-! ### The ring holds a queue -/

/-- The ring holds `q` between `head` and `tail`, and both sides rely only on what still holds: the
tail is moved by the producer alone, the head by the consumer alone, and the other index can only
have moved on since it was read. -/
structure RingHolds (k : Nat) (s : RingSys α) (q : List α) : Prop where
  size : s.ring.size.toNat = 2 ^ k
  mask : s.ring.mask.toNat = 2 ^ k - 1
  head : s.ring.head.toNat < 2 ^ k
  tail : s.ring.tail.toNat = slotAt (2 ^ k) s.ring.head.toNat q.length
  room : q.length < 2 ^ k
  slots : ∀ i, (h : i < q.length) → s.ring.ring (slotAt (2 ^ k) s.ring.head.toNat i) = q[i]
  producer : match s.producer with
    | .idle => True
    | .tailRead _ t => t = s.ring.tail
    | .hasRoom _ t => t = s.ring.tail ∧ q.length + 1 < 2 ^ k
    | .written obj t => t = s.ring.tail ∧ q.length + 1 < 2 ^ k ∧ s.ring.ring t.toNat = obj
  consumer : match s.consumer with
    | .idle => True
    | .headRead h => h = s.ring.head
    | .hasObject h => h = s.ring.head ∧ q ≠ []
    | .taken obj h => h = s.ring.head ∧ q.head? = some obj

variable {k : Nat} {s : RingSys α} {q : List α}

theorem RingHolds.tail_lt (h : RingHolds k s q) : s.ring.tail.toNat < 2 ^ k := by
  have hh := h.head
  have hr := h.room
  rw [h.tail]
  unfold slotAt
  split <;> omega

theorem RingHolds.free (h : RingHolds k s q) {i : Nat} (hi : i < q.length) :
    slotAt (2 ^ k) s.ring.head.toNat i ≠ s.ring.tail.toNat := by
  intro heq
  rw [h.tail] at heq
  have hij := slotAt_injective (Nat.lt_trans hi h.room) h.room heq
  omega

theorem RingHolds.full_iff (h : RingHolds k s q) (hk : k < 32) :
    (s.ring.tail + 1) &&& s.ring.mask = s.ring.head ↔ q.length = 2 ^ k - 1 := by
  have hh := h.head
  have hr := h.room
  rw [← UInt32.toNat_inj, next_toNat hk h.mask h.tail_lt, h.tail]
  unfold slotAt
  constructor
  · intro heq
    split at heq <;> split at heq <;> omega
  · intro heq
    split <;> split <;> omega

theorem RingHolds.empty_iff (h : RingHolds k s q) : s.ring.head = s.ring.tail ↔ q = [] := by
  have hh := h.head
  have hr := h.room
  rw [← UInt32.toNat_inj, h.tail, ← List.length_eq_zero_iff]
  unfold slotAt
  constructor
  · intro heq
    split at heq <;> omega
  · intro heq
    split <;> omega

theorem RingHolds.contents (h : RingHolds k s q) (hk : k < 32) : s.ring.contents = q := by
  have hlen : ((s.ring.tail - s.ring.head) &&& s.ring.mask).toNat = q.length := by
    have hh := h.head
    have hr := h.room
    obtain ⟨c, hc⟩ : 2 ^ k ∣ 2 ^ 32 := Nat.pow_dvd_pow 2 (by omega)
    have hdvd : 2 ^ k ∣ 2 ^ 32 := ⟨c, hc⟩
    have hle := Nat.le_of_dvd (Nat.two_pow_pos 32) hdvd
    rw [and_mask_toNat h.mask, UInt32.toNat_sub, Nat.mod_mod_of_dvd _ hdvd, h.tail]
    -- both ways around the end of the array the distance is `q.length` modulo the size
    have hdist : ∃ m, 2 ^ 32 - s.ring.head.toNat + slotAt (2 ^ k) s.ring.head.toNat q.length
        = 2 ^ k * m + q.length := by
      unfold slotAt
      split
      · exact ⟨c, by omega⟩
      · refine ⟨c - 1, ?_⟩
        rw [Nat.mul_sub_one]
        omega
    obtain ⟨m, hm⟩ := hdist
    rw [hm, Nat.mul_add_mod, Nat.mod_eq_of_lt hr]
  refine List.ext_getElem (by rw [SjRing.contents, List.length_map, List.length_range, hlen]) ?_
  intro i _ hi
  rw [← h.slots i hi, ← h.size]
  simp [SjRing.contents]

/-- The ring answers as the bounded queue does. -/
def RingRefines (k : Nat) (s : RingSys α) : Prop :=
  ∃ q, RingHolds k s q ∧ FifoTrace (2 ^ k - 1) s.log q

theorem produceStep_refines (hk : k < 32) (h : RingRefines k s) : RingRefines k (produceStep s) := by
  obtain ⟨q, h, htrace⟩ := h
  have hprod := h.producer
  unfold produceStep
  cases hp : s.producer with
  | idle => exact ⟨q, h, htrace⟩
  | tailRead obj t =>
    rw [hp] at hprod
    obtain rfl : t = s.ring.tail := hprod
    dsimp only
    split
    · rename_i hfull
      exact ⟨q, { h with producer := trivial }, htrace.snoc (.full ((h.full_iff hk).mp hfull))⟩
    · rename_i hroom
      have hlt : q.length + 1 < 2 ^ k := by
        have hne := (h.full_iff hk).not.mp hroom
        have hr := h.room
        omega
      exact ⟨q, { h with producer := ⟨rfl, hlt⟩ }, htrace⟩
  | hasRoom obj t =>
    rw [hp] at hprod
    obtain ⟨rfl, hlt⟩ := hprod
    refine ⟨q, { h with slots := ?_, producer := ⟨rfl, hlt, if_pos rfl⟩ }, htrace⟩
    intro i hi
    exact (if_neg (h.free hi)).trans (h.slots i hi)
  | written obj t =>
    rw [hp] at hprod
    obtain ⟨rfl, hlt, hobj⟩ := hprod
    have hnext := next_toNat hk h.mask h.tail_lt
    refine ⟨q ++ [obj], ⟨h.size, h.mask, h.head, ?_, ?_, ?_, trivial, ?_⟩,
      htrace.snoc (.enqueue obj (by omega))⟩
    · show ((s.ring.tail + 1) &&& s.ring.mask).toNat = _
      rw [hnext, h.tail, slotAt_slotAt h.head hlt, List.length_append, List.length_singleton]
    · rw [List.length_append, List.length_singleton]
      exact hlt
    · intro i hi
      rw [List.length_append, List.length_singleton] at hi
      by_cases hlast : i < q.length
      · rw [List.getElem_append_left hlast]
        exact h.slots i hlast
      · obtain rfl : i = q.length := by omega
        rw [List.getElem_append_right (Nat.le_refl _)]
        have hslot := h.tail
        simp only [Nat.sub_self, List.getElem_singleton]
        rw [← hslot]
        exact hobj
    · -- the consumer relies on the front of the queue only
      have hcons := h.consumer
      show match s.consumer with
        | .idle => True
        | .headRead x => x = s.ring.head
        | .hasObject x => x = s.ring.head ∧ q ++ [obj] ≠ []
        | .taken y x => x = s.ring.head ∧ (q ++ [obj]).head? = some y
      cases hc : s.consumer with
      | idle => trivial
      | headRead x => rw [hc] at hcons; exact hcons
      | hasObject x => rw [hc] at hcons; exact ⟨hcons.1, by simp⟩
      | taken y x =>
        rw [hc] at hcons
        exact ⟨hcons.1, by rw [List.head?_append, hcons.2]; rfl⟩

theorem consumeStep_refines (hk : k < 32) (h : RingRefines k s) : RingRefines k (consumeStep s) := by
  obtain ⟨q, h, htrace⟩ := h
  have hcons := h.consumer
  unfold consumeStep
  cases hc : s.consumer with
  | idle => exact ⟨q, h, htrace⟩
  | headRead x =>
    rw [hc] at hcons
    obtain rfl : x = s.ring.head := hcons
    dsimp only
    split
    · rename_i hempty
      obtain rfl := h.empty_iff.mp hempty
      exact ⟨[], { h with consumer := trivial }, htrace.snoc .empty⟩
    · rename_i hsome
      exact ⟨q, { h with consumer := ⟨rfl, h.empty_iff.not.mp hsome⟩ }, htrace⟩
  | hasObject x =>
    rw [hc] at hcons
    obtain ⟨rfl, hne⟩ := hcons
    obtain ⟨a, q, rfl⟩ := List.exists_cons_of_ne_nil hne
    have hfront : s.ring.ring s.ring.head.toNat = a := by
      have hslot := h.slots 0 (by simp)
      rwa [slotAt, Nat.add_zero, if_pos h.head] at hslot
    exact ⟨a :: q, { h with consumer := ⟨rfl, congrArg some hfront.symm⟩ }, htrace⟩
  | taken y x =>
    rw [hc] at hcons
    obtain ⟨rfl, hy⟩ := hcons
    match q, hy with
    | a :: q, hy =>
      cases hy
      have hnext := next_toNat hk h.mask h.head
      have hroom := h.room
      rw [List.length_cons] at hroom
      refine ⟨q, ⟨h.size, h.mask, ?_, ?_, by omega, ?_, ?_, trivial⟩, htrace.snoc (.dequeue y q)⟩
      · show ((s.ring.head + 1) &&& s.ring.mask).toNat < _
        have hh := h.head
        rw [hnext]
        unfold slotAt
        split <;> omega
      · show s.ring.tail.toNat = slotAt _ ((s.ring.head + 1) &&& s.ring.mask).toNat _
        rw [hnext, slotAt_slotAt h.head (by omega), Nat.add_comm 1]
        exact h.tail
      · intro i hi
        show s.ring.ring (slotAt _ ((s.ring.head + 1) &&& s.ring.mask).toNat _) = _
        rw [hnext, slotAt_slotAt h.head (by omega), Nat.add_comm 1]
        exact h.slots (i + 1) (by rw [List.length_cons]; omega)
      · -- there is only more room than the producer has seen
        have hprod := h.producer
        show match s.producer with
          | .idle => True
          | .tailRead _ t => t = s.ring.tail
          | .hasRoom _ t => t = s.ring.tail ∧ q.length + 1 < 2 ^ k
          | .written obj t => t = s.ring.tail ∧ q.length + 1 < 2 ^ k ∧ s.ring.ring t.toNat = obj
        cases hp : s.producer with
        | idle => trivial
        | tailRead obj t => rw [hp] at hprod; exact hprod
        | hasRoom obj t => rw [hp] at hprod; exact ⟨hprod.1, by omega⟩
        | written obj t => rw [hp] at hprod; exact ⟨hprod.1, by omega, hprod.2.2⟩

theorem ringStep_refines (hk : k < 32) (a : RingAct α) (h : RingRefines k s) :
    RingRefines k (ringStep a s) := by
  cases a with
  | enqueue obj =>
    obtain ⟨q, h, htrace⟩ := h
    cases hp : s.producer with
    | idle =>
      simp only [ringStep, hp]
      exact ⟨q, { h with producer := rfl }, htrace⟩
    | tailRead _ _ => simpa only [ringStep, hp] using ⟨q, h, htrace⟩
    | hasRoom _ _ => simpa only [ringStep, hp] using ⟨q, h, htrace⟩
    | written _ _ => simpa only [ringStep, hp] using ⟨q, h, htrace⟩
  | produce => exact produceStep_refines hk h
  | dequeue =>
    obtain ⟨q, h, htrace⟩ := h
    cases hc : s.consumer with
    | idle =>
      simp only [ringStep, hc]
      exact ⟨q, { h with consumer := rfl }, htrace⟩
    | headRead _ => simpa only [ringStep, hc] using ⟨q, h, htrace⟩
    | hasObject _ => simpa only [ringStep, hc] using ⟨q, h, htrace⟩
    | taken _ _ => simpa only [ringStep, hc] using ⟨q, h, htrace⟩
  | consume => exact consumeStep_refines hk h

theorem ringRun_refines (hk : k < 32) (acts : List (RingAct α)) (h : RingRefines k s) :
    RingRefines k (ringRun acts s) := by
  induction acts generalizing s with
  | nil => exact h
  | cons a acts ih => exact ih (ringStep_refines hk a h)

theorem sjRingCreate_refines [Inhabited α] {count : UInt32} (hcount : count.toNat = 2 ^ k) :
    ∃ r : SjRing α, sjRingCreate count = some r ∧ RingRefines k { ring := r } := by
  have hpos : 0 < 2 ^ k := Nat.two_pow_pos k
  have hne : count ≠ 0 := fun h0 => by rw [h0] at hcount; exact absurd hcount.symm hpos.ne'
  have hmask : (count - 1).toNat = 2 ^ k - 1 := by
    rw [UInt32.toNat_sub_of_le count 1 (UInt32.le_iff_toNat_le.mpr (by rw [hcount]; exact hpos)), hcount]
    rfl
  have hand : count &&& (count - 1) = 0 := by
    apply UInt32.toNat_inj.mp
    rw [and_mask_toNat hmask, hcount, Nat.mod_self]
    rfl
  refine ⟨_, if_neg (by simp [hne, hand]), [], ?_, .nil⟩
  exact ⟨hcount, hmask, hpos, by simp [slotAt], hpos, fun i hi => absurd hi (Nat.not_lt_zero i), trivial,
    trivial⟩

/-- The ring is a bounded FIFO queue of one slot less than its size.  The answers are those of the
queue; the slot a producer is about to write holds none of the objects still in the queue; and a call
fails only if the queue is full, or empty, when it reads the index of the other side. -/
theorem sjRing_fifo [Inhabited α] (k : Nat) (count : UInt32) (hcount : count.toNat = 2 ^ k)
    (acts : List (RingAct α)) :
    ∃ r : SjRing α, sjRingCreate count = some r ∧
      let s := ringRun acts { ring := r }
      FifoTrace (count.toNat - 1) s.log s.ring.contents
        ∧ dequeuedIn s.log <+: enqueuedIn s.log
        ∧ (∀ obj t, s.producer = .hasRoom obj t → ∀ i, i < s.ring.contents.length →
            slotAt count.toNat s.ring.head.toNat i ≠ t.toNat)
        ∧ (∀ obj t, s.producer = .tailRead obj t → (produceStep s).log = s.log ++ [.full] →
            s.ring.contents.length = count.toNat - 1)
        ∧ (∀ h, s.consumer = .headRead h → (consumeStep s).log = s.log ++ [.empty] →
            s.ring.contents = []) := by
  have hk : k < 32 := by
    have hlt := count.toNat_lt
    rw [hcount] at hlt
    exact (Nat.pow_lt_pow_iff_right (by omega)).mp hlt
  obtain ⟨r, hr, h⟩ := sjRingCreate_refines (α := α) hcount
  obtain ⟨q, h, htrace⟩ := ringRun_refines hk acts h
  refine ⟨r, hr, ?_⟩
  rw [hcount]
  dsimp only
  rw [h.contents hk]
  refine ⟨htrace, htrace.dequeuedIn_isPrefix, ?_, ?_, ?_⟩
  · intro obj t hp i hi
    have hprod := h.producer
    rw [hp] at hprod
    rw [hprod.1]
    exact h.free hi
  · intro obj t hp hlog
    have hprod := h.producer
    rw [hp] at hprod
    obtain rfl : t = _ := hprod
    by_contra hroom
    rw [produceStep, hp] at hlog
    dsimp only at hlog
    rw [if_neg ((h.full_iff hk).not.mpr hroom)] at hlog
    simp at hlog
  · intro x hc hlog
    have hcons := h.consumer
    rw [hc] at hcons
    obtain rfl : x = _ := hcons
    by_contra hsome
    rw [consumeStep, hc] at hlog
    dsimp only at hlog
    rw [if_neg (h.empty_iff.not.mpr hsome)] at hlog
    simp at hlog

/- A ring of four slots: three objects are queued, the first is taken out between them. -/
def sampleActs : List (RingAct Nat) :=
  [.enqueue 7, .produce, .produce, .produce, .enqueue 8, .produce, .dequeue, .consume, .produce, .consume, .produce,
    .consume, .enqueue 9, .produce, .produce, .produce]

theorem sjRing_fifo_four : (4 : UInt32).toNat = 2 ^ 2 ∧ ∃ r : SjRing Nat, sjRingCreate 4 = some r
    ∧ (ringRun sampleActs { ring := r }).ring.contents = [8, 9]
    ∧ FifoTrace 3 (ringRun sampleActs { ring := r }).log (ringRun sampleActs { ring := r }).ring.contents := by
  obtain ⟨r, hr, htrace, -⟩ := sjRing_fifo (α := Nat) 2 4 rfl sampleActs
  refine ⟨rfl, r, hr, ?_, htrace⟩
  cases hr
  decide

end

end Xtls.Nic
