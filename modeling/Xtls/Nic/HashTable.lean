import Xtls.Lib.TailQueue
import Xtls.Nic.System

/-!
# The hash table of connections in memory

`ht_insert`, `ht_remove` and `ht_search` (`fhash.c` 57-116) on the linked lists they keep in the
connections themselves.  The worker's `htInsert`, `htRemove` and `htSearch` are the same functions on plain
lists; a run of the table carries both, with the connections that are in it in the order of insertion.
-/

namespace Xtls.Nic

def Tcp.tuple (t : Tcp) : UInt32 × UInt16 × UInt32 × UInt16 :=
  (t.clientIp, t.clientPort, t.serverIp, t.serverPort)

/-- `hashtable_t`, with the connections that its lists run through. -/
structure HashTable where
  conns : ConnId → Conn
  htTable : Queues Nat ConnId
  count : Int := 0

namespace HashTable

def insert (c : ConnId) (h : HashTable) : HashTable :=
  { h with htTable := h.htTable.insertTail (calculateHash (h.conns c).tcp) c, count := h.count + 1 }

def remove (c : ConnId) (h : HashTable) : HashTable :=
  { h with htTable := h.htTable.remove (calculateHash (h.conns c).tcp) c, count := h.count - 1 }

def visit (conns : ConnId → Conn) (key : Tcp) (c : ConnId) : Option (Except Halt ConnId) :=
  let t := (conns c).tcp
  if t.state = .idle then some (.error .assertion)
  else if t.clientIp = key.clientIp ∧ t.clientPort = key.clientPort
      ∧ t.serverIp = key.serverIp ∧ t.serverPort = key.serverPort then some (.ok c)
  else none

/-- `ht_search`; `none` when the loop has not ended after `fuel` rounds. -/
def search (fuel : Nat) (key : Tcp) (h : HashTable) : Option (Except Halt (Option ConnId)) :=
  (h.htTable.foreach (visit h.conns key) fuel (.first (calculateHash key))).map fun
    | none => .ok none
    | some r => r.map some

end HashTable

/-! ### Runs of the table -/

/-- Calls of the table, and writes to a connection between them. -/
inductive HtOp where
  | insert (c : ConnId)
  | remove (c : ConnId)
  | assign (c : ConnId) (conn : Conn)

/-- The table, the lists of the worker and the connections in the order of insertion. -/
structure TableRun where
  table : HashTable
  ctx : Ctx
  items : List ConnId

def htStep : HtOp → TableRun → Except Halt TableRun
  | .insert c, r => .ok
    { table := r.table.insert c, ctx := htInsert (r.table.conns c).tcp c r.ctx, items := r.items ++ [c] }
  | .remove c, r => .ok
    { table := r.table.remove c, ctx := htRemove (r.table.conns c).tcp c r.ctx, items := r.items.erase c }
  | .assign c conn, r => .ok
    { r with table := { r.table with conns := Function.update r.table.conns c conn } }

/-- Only what is in the table is removed, and what is in the table is not idle and keeps its 4-tuple. -/
def htReady : HtOp → TableRun → Prop
  | .insert c, r => (r.table.conns c).tcp.state ≠ .idle
  | .remove c, r => c ∈ r.items
  | .assign c conn, r => c ∈ r.items → conn.tcp.tuple = (r.table.conns c).tcp.tuple ∧ conn.tcp.state ≠ .idle

/-- Only what is not in the table is inserted. -/
def htFresh : HtOp → TableRun → Prop
  | .insert c, r => c ∉ r.items
  | _, _ => True

def createHt (conns : ConnId → Conn) (next : ConnId → Option ConnId) (prev : ConnId → Link Nat ConnId) :
    TableRun where
  table := { conns := conns, htTable := .init next prev }
  ctx := {}
  items := []

/-- The lists in memory are those of the worker, which have the connections by their hash. -/
structure Tabled (r : TableRun) : Prop where
  represents : r.table.htTable.Represents r.ctx.htTable
  lists : ∀ b, r.ctx.htTable b = buckets (fun c => calculateHash (r.table.conns c).tcp) r.items b
  nodup : r.items.Nodup
  live : ∀ c ∈ r.items, (r.table.conns c).tcp.state ≠ .idle
  count : r.table.count = r.items.length
  htCount : r.ctx.htCount = r.items.length

section

variable {r r' : TableRun} {op : HtOp}

theorem calculateHash_tuple {t t' : Tcp} (h : t.tuple = t'.tuple) : calculateHash t = calculateHash t' := by
  obtain ⟨hci, hcp, hsi, hsp⟩ : t.clientIp = t'.clientIp ∧ t.clientPort = t'.clientPort
      ∧ t.serverIp = t'.serverIp ∧ t.serverPort = t'.serverPort := by
    simpa only [Tcp.tuple, Prod.mk.injEq] using h
  simp only [calculateHash, hashKey, hci, hcp, hsi, hsp]

theorem Tabled.mem_bucket (h : Tabled r) {c : ConnId} {b : Nat} :
    c ∈ r.ctx.htTable b ↔ c ∈ r.items ∧ calculateHash (r.table.conns c).tcp = b := by
  rw [h.lists, mem_buckets]

theorem Tabled.insert (h : Tabled r) {c : ConnId} (hlive : (r.table.conns c).tcp.state ≠ .idle)
    (hc : c ∉ r.items) (hs : htStep (.insert c) r = .ok r') : Tabled r' := by
  cases hs
  refine ⟨?_, fun b => ?_, ?_, fun d hd => ?_, ?_, ?_⟩
  · exact h.represents.insertTail fun b hb => hc (h.mem_bucket.mp hb).1
  · show (if b = calculateHash (r.table.conns c).tcp then r.ctx.htTable b ++ [c] else r.ctx.htTable b)
      = buckets (fun d => calculateHash (r.table.conns d).tcp) (r.items ++ [c]) b
    rw [h.lists, buckets_snoc]
  · exact List.nodup_append.mpr ⟨h.nodup, List.nodup_singleton c, fun d hd e he heq =>
      hc (List.mem_singleton.mp he ▸ heq ▸ hd)⟩
  · rcases List.mem_append.mp hd with hd | hd
    · exact h.live d hd
    · rw [List.mem_singleton.mp hd]
      exact hlive
  · show r.table.count + 1 = _
    rw [h.count, List.length_append]
    rfl
  · show r.ctx.htCount + 1 = _
    rw [h.htCount, List.length_append]
    rfl

theorem Tabled.remove (h : Tabled r) {c : ConnId} (hc : c ∈ r.items) (hs : htStep (.remove c) r = .ok r') :
    Tabled r' := by
  cases hs
  have hlen := List.length_erase_of_mem hc
  have hpos := List.length_pos_of_mem hc
  refine ⟨?_, fun b => ?_, ?_, fun d hd => ?_, ?_, ?_⟩
  · exact h.represents.remove (h.mem_bucket.mpr ⟨hc, rfl⟩)
  · show (if b = calculateHash (r.table.conns c).tcp then (r.ctx.htTable b).erase c else r.ctx.htTable b)
      = buckets (fun d => calculateHash (r.table.conns d).tcp) (r.items.erase c) b
    rw [h.lists, buckets_erase h.nodup]
  · exact h.nodup.erase c
  · exact h.live d (List.mem_of_mem_erase hd)
  · show r.table.count - 1 = ((r.items.erase c).length : Int)
    rw [h.count, hlen]
    omega
  · show r.ctx.htCount - 1 = ((r.items.erase c).length : Int)
    rw [h.htCount, hlen]
    omega

theorem Tabled.assign (h : Tabled r) {c : ConnId} {conn : Conn}
    (hc : c ∈ r.items → conn.tcp.tuple = (r.table.conns c).tcp.tuple ∧ conn.tcp.state ≠ .idle)
    (hs : htStep (.assign c conn) r = .ok r') : Tabled r' := by
  cases hs
  refine ⟨h.represents, fun b => ?_, h.nodup, fun d hd => ?_, h.count, h.htCount⟩
  · rw [h.lists]
    refine buckets_congr fun d hd => ?_
    by_cases hdc : d = c
    · subst hdc
      simp only [Function.update_self, calculateHash_tuple (hc hd).1]
    · simp only [Function.update_of_ne hdc]
  · by_cases hdc : d = c
    · subst hdc
      simp only [Function.update_self]
      exact (hc hd).2
    · simp only [Function.update_of_ne hdc]
      exact h.live d hd

theorem htStep_tabled (op : HtOp) (r r' : TableRun) (hready : htReady op r ∧ htFresh op r)
    (hs : htStep op r = .ok r') (h : Tabled r) : Tabled r' := by
  cases op with
  | insert c => exact h.insert hready.1 hready.2 hs
  | remove c => exact h.remove hready.1 hs
  | assign c conn => exact h.assign hready.1 hs

theorem createHt_tabled (conns : ConnId → Conn) (next : ConnId → Option ConnId)
    (prev : ConnId → Link Nat ConnId) : Tabled (createHt conns next prev) :=
  ⟨Queues.init_represents next prev, fun _ => rfl, List.nodup_nil, fun _ hc => absurd hc List.not_mem_nil, rfl, rfl⟩

/-! ### The search -/

theorem htSearch_visit (conns : ConnId → Conn) (key : Tcp) (cs : List ConnId) :
    htSearch conns key cs = match cs.findSome? (HashTable.visit conns key) with
      | none => .ok none
      | some res => res.map some := by
  induction cs with
  | nil => rfl
  | cons c cs ih =>
    rw [htSearch, List.findSome?_cons, HashTable.visit]
    split
    · rfl
    · split
      · rfl
      · exact ih

theorem search_eq_htSearch (h : Tabled r) (key : Tcp) {fuel : Nat} (hfuel : r.items.length < fuel) :
    r.table.search fuel key = some (htSearch r.table.conns key (r.ctx.htTable (calculateHash key))) := by
  have hshort : (r.ctx.htTable (calculateHash key)).length < fuel := by
    rw [h.lists]
    exact Nat.lt_of_le_of_lt (List.length_filter_le _ _) hfuel
  rw [HashTable.search, h.represents.foreach _ hshort, htSearch_visit]
  rfl

theorem htSearch_live {conns : ConnId → Conn} {cs : List ConnId} (key : Tcp)
    (hlive : ∀ c ∈ cs, (conns c).tcp.state ≠ .idle) :
    htSearch conns key cs = .ok (cs.find? fun c => (conns c).tcp.tuple = key.tuple) := by
  induction cs with
  | nil => rfl
  | cons c cs ih =>
    rw [htSearch, List.find?_cons, if_neg (hlive c List.mem_cons_self)]
    simp only [Tcp.tuple, Prod.mk.injEq]
    split
    · rename_i heq
      rw [decide_eq_true heq]
    · rename_i hne
      rw [decide_eq_false hne]
      simpa only [Tcp.tuple, Prod.mk.injEq] using ih fun d hd => hlive d (List.mem_cons_of_mem c hd)

theorem Tabled.search (h : Tabled r) (key : Tcp) {fuel : Nat} (hfuel : r.items.length < fuel) :
    r.table.search fuel key = some (.ok (r.items.find? fun c => (r.table.conns c).tcp.tuple = key.tuple)) := by
  rw [search_eq_htSearch h key hfuel, htSearch_live key fun c hc => h.live c (h.mem_bucket.mp hc).1, h.lists,
    buckets_find]
  -- a connection with the 4-tuple of the key is in the bucket of the key
  exact fun c hc => calculateHash_tuple (of_decide_eq_true hc)

end

/-- However connections are inserted and removed, the search finds the one with the 4-tuple that was
inserted first, every connection is in the list of its own hash, and `count` counts them. -/
theorem hashTable_refines (conns : ConnId → Conn) (next : ConnId → Option ConnId) (prev : ConnId → Link Nat ConnId)
    (ops : List HtOp) (r : TableRun)
    (hready : Along htStep (fun op r => htReady op r ∧ htFresh op r) ops (createHt conns next prev))
    (hrun : run htStep ops (createHt conns next prev) = .ok r) :
    (∀ key fuel, r.items.length < fuel → r.table.search fuel key
        = some (.ok (r.items.find? fun c => (r.table.conns c).tcp.tuple = key.tuple)))
      ∧ r.table.htTable.Represents (buckets (fun c => calculateHash (r.table.conns c).tcp) r.items)
      ∧ r.table.count = r.items.length := by
  have h := run_along htStep_tabled ops _ r hready hrun (createHt_tabled conns next prev)
  refine ⟨fun key fuel hfuel => h.search key hfuel, ?_, h.count⟩
  rw [← funext h.lists]
  exact h.represents

/- Connections in use, all with one 4-tuple; the links hold nothing yet. -/
def sampleUsed (c : ConnId) : Conn := { id := c, tcp := { state := .received } }

def sampleTable : TableRun := createHt sampleUsed (fun _ => none) fun _ => .first 0

theorem hashTable_refines_sample : ∃ r, run htStep [.insert 0, .insert 1, .remove 0] sampleTable = .ok r
    ∧ r.table.search 2 {} = some (.ok (some 1)) ∧ r.table.count = 1 := by
  refine ⟨_, rfl, ?_⟩
  have h := hashTable_refines sampleUsed (fun _ => none) (fun _ => .first 0)
    [.insert 0, .insert 1, .remove 0] _ ?_ rfl
  · exact ⟨h.1 {} 2 (by decide), h.2.2⟩
  · exact ⟨⟨nofun, nofun⟩, ⟨nofun, (by decide : 1 ∉ [0])⟩, ⟨List.mem_cons_self, trivial⟩, trivial⟩

/-- Inserted twice, a connection is linked to itself: it is still found after both have been removed. -/
theorem insertedTwice_stays : ∃ r, run htStep [.insert 0, .insert 0, .remove 0, .remove 0] sampleTable = .ok r
    ∧ Along htStep htReady [.insert 0, .insert 0, .remove 0, .remove 0] sampleTable
    ∧ r.items = [] ∧ r.table.count = 0 ∧ r.table.search 1 {} = some (.ok (some 0)) := by
  refine ⟨_, rfl, ?_, rfl, rfl, rfl⟩
  exact ⟨nofun, nofun, List.mem_cons_self, List.mem_cons_self, trivial⟩

end Xtls.Nic
