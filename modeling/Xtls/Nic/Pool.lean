import Xtls.Nic.State

/-!
# Record and operation pools

`new_ssl_crypto_op`, `delete_op`, `new_recv_record`, `new_send_record`, `delete_record` and
`remove_pending_pka_op` (`ssl.c` 454-731).  A pool is the list of free slots in queue order: the
allocators take its first element, the release functions append.
-/

namespace Xtls.Nic

def Ctx.setOp (c : Ctx) (o : OpId) (v : Op) : Ctx :=
  { c with ops := fun i => if i = o then v else c.ops i }

def newSslCryptoOp (s : St) : Except Halt (OpId × St) :=
  match s.ctx.opPool with
  | [] => .error .notEnoughOp
  | o :: pool =>
    .ok (o, s.mapCtx fun c =>
      { c with opPool := pool, freeOpCnt := c.freeOpCnt - 1, usingOpCnt := c.usingOpCnt + 1 })

/- `memset` to zero, then back to the end of the pool. -/
def deleteOp (o : OpId) (s : St) : St :=
  s.mapCtx fun c =>
    { c.setOp o {} with
      opPool := c.opPool ++ [o]
      freeOpCnt := c.freeOpCnt + 1
      usingOpCnt := c.usingOpCnt - 1 }

/- Common part of the two record allocators: take a slot and number the record. -/
def newRecord (seq : UInt64) (s : St) : Except Halt (Record × St) :=
  match s.ctx.recordPool with
  | [] => .error .notEnoughRecord
  | slot :: pool =>
    .ok ({ slot := slot, id := s.conn.sess.nextRecordId, seqNum := seq },
      (s.mapSess fun e =>
        { e with numCurrentRecords := e.numCurrentRecords + 1, nextRecordId := e.nextRecordId + 1 }
      ).mapCtx fun c =>
        { c with
          recordPool := pool
          freeRecordCnt := c.freeRecordCnt - 1
          usingRecordCnt := c.usingRecordCnt + 1 })

def newRecvRecord (s : St) : Except Halt (Record × St) := newRecord 0 s

def newSendRecord (s : St) : Except Halt (Record × St) := newRecord s.conn.sess.sendSeqNum s

/- The slot goes back to the pool; also called on a slot that is already there. -/
def freeRecord (r : Record) (c : Ctx) : Ctx :=
  { c with
    recordPool := c.recordPool ++ [r.slot]
    freeRecordCnt := c.freeRecordCnt + 1
    usingRecordCnt := c.usingRecordCnt - 1 }

def deleteRecord (r : Record) (s : St) : St :=
  (s.mapCtx (freeRecord r)).mapSess fun e =>
    { e with numCurrentRecords := e.numCurrentRecords - 1 }

/- `pending_pka_op_1` is never assigned, so its half of the function does nothing. -/
def removePendingPkaOp (s : St) : St :=
  match s.conn.sess.pendingPkaOp with
  | none => s
  | some o =>
    let s := match (s.ctx.ops o).data with
      | some r => deleteRecord r s
      | none => s
    ((deleteOp o s).mapSess fun e => { e with pendingPkaOp := none }).mapCtx fun c =>
      { c with curCryptoCnt := c.curCryptoCnt - 1 }

end Xtls.Nic
