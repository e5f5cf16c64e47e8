import Xtls.Lib.Octets

/-!
# The transmit queue

`get_wptr` and `send_pkts` (`dpdk_io.c` 121-226).  A port has a table of 64 buffers, of which the first
`len` are to be sent.  What `rte_eth_tx_burst` accepts of a burst is arbitrary; `rte_pktmbuf_alloc` gives a
new buffer each time.
-/

namespace Xtls.Nic

def maxPktBurst : Nat := 64

structure Mbuf where
  id : Nat
  pktLen : UInt16 := 0
  dataLen : UInt16 := 0
  checksums : Bool := false
  l4Len : UInt16 := 0
  deriving DecidableEq

/-- How many packets the call with a given number accepts, of those that are offered. -/
structure TxBurst where
  accept : Nat → Nat → Nat
  accept_le : ∀ call cnt, accept call cnt ≤ cnt

/-- `wmbufs[port]`, with the number of bursts so far, the next buffer of the pool, and what has become of
the buffers that were queued. -/
structure TxQueue where
  len : Nat := 0
  table : Nat → Mbuf := fun i => { id := i }
  bursts : Nat := 0
  next : Nat := maxPktBurst
  sent : List Mbuf := []
  freed : List Mbuf := []

/-- `send_pkts`: what is not accepted is freed; all places are filled again. -/
def sendPkts (burst : TxBurst) (q : TxQueue) : Nat × TxQueue :=
  if 0 < q.len then
    let pkts := (List.range q.len).map q.table
    let ret := burst.accept q.bursts q.len
    (ret,
      { len := 0
        table := fun i => if i < q.len then { id := q.next + i } else q.table i
        bursts := q.bursts + 1
        next := q.next + q.len
        sent := q.sent ++ pkts.take ret
        freed := q.freed ++ pkts.drop ret })
  else (0, q)

/- `while(1)`: until something was accepted; `none` when that takes more than `fuel` rounds. -/
def flushLoop (burst : TxBurst) : Nat → TxQueue → Option TxQueue
  | 0, _ => none
  | fuel + 1, q =>
    match sendPkts burst q with
    | (0, q) => flushLoop burst fuel q
    | (_, q) => some q

/-- `get_wptr`: the buffer that is handed out, and the queue with it. -/
def getWptr (burst : TxBurst) (fuel : Nat) (pktSize : UInt16) (hwCsum : Bool) (l4Len : UInt16)
    (q : TxQueue) : Option (Mbuf × TxQueue) := do
  let q ← if q.len = maxPktBurst then flushLoop burst fuel q else some q
  let m := { q.table q.len with pktLen := pktSize, dataLen := pktSize, checksums := hwCsum, l4Len := l4Len }
  return (m, { q with len := q.len + 1, table := fun i => if i = q.len then m else q.table i })

section

variable {burst : TxBurst} {q q' : TxQueue} {fuel : Nat}

theorem sendPkts_len (burst : TxBurst) (q : TxQueue) : (sendPkts burst q).2.len = 0 := by
  unfold sendPkts
  split
  · rfl
  · show q.len = 0
    omega

/- Nothing is left to send: the loop goes on forever. -/
theorem flushLoop_empty (h : q.len = 0) (fuel : Nat) : flushLoop burst fuel q = none := by
  have hsend : sendPkts burst q = (0, q) := by
    rw [sendPkts, if_neg (by omega)]
  induction fuel with
  | zero => rfl
  | succ fuel ih =>
    rw [flushLoop, hsend]
    exact ih

theorem flushLoop_refused (h : (sendPkts burst q).1 = 0) (fuel : Nat) : flushLoop burst fuel q = none := by
  cases fuel with
  | zero => rfl
  | succ fuel =>
    have hsend : sendPkts burst q = (0, (sendPkts burst q).2) := by
      rw [← h]
    rw [flushLoop, hsend]
    exact flushLoop_empty (sendPkts_len burst q) fuel

theorem flushLoop_accepted (h : (sendPkts burst q).1 ≠ 0) :
    flushLoop burst 1 q = some (sendPkts burst q).2 := by
  rw [flushLoop]
  split
  · rename_i hzero
    exact absurd (congrArg Prod.fst hzero) h
  · rename_i heq
    rw [heq]

end

/-- `get_wptr` returns unless the table is full and the first burst is refused as a whole. -/
theorem getWptr_returns (burst : TxBurst) (pktSize : UInt16) (hwCsum : Bool) (l4Len : UInt16) (q : TxQueue) :
    (∃ fuel, (getWptr burst fuel pktSize hwCsum l4Len q).isSome)
      ↔ ¬ (q.len = maxPktBurst ∧ burst.accept q.bursts maxPktBurst = 0) := by
  by_cases hfull : q.len = maxPktBurst
  · have hret : (sendPkts burst q).1 = burst.accept q.bursts maxPktBurst := by
      rw [sendPkts, if_pos (by rw [hfull]; decide), hfull]
    constructor
    · rintro ⟨fuel, hsome⟩ ⟨-, hzero⟩
      rw [getWptr, if_pos hfull, flushLoop_refused (hret.trans hzero)] at hsome
      cases hsome
    · intro h
      refine ⟨1, ?_⟩
      have hne : (sendPkts burst q).1 ≠ 0 := fun hzero => h ⟨hfull, hret.symm.trans hzero⟩
      rw [getWptr, if_pos hfull, flushLoop_accepted hne]
      rfl
  · refine iff_of_true ⟨0, ?_⟩ fun h => hfull h.1
    rw [getWptr, if_neg hfull]
    rfl

def sampleDown : TxBurst := ⟨fun _ _ => 0, fun _ _ => Nat.zero_le _⟩

theorem getWptr_endless : sampleDown.accept 0 maxPktBurst = 0
    ∧ ∀ fuel, getWptr sampleDown fuel 60 true 20 { len := maxPktBurst } = none := by
  refine ⟨rfl, fun fuel => ?_⟩
  rw [getWptr, if_pos rfl, flushLoop_refused rfl]
  rfl

end Xtls.Nic
