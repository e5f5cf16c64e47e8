import Xtls.Lib.Octets

/-!
# Classic BPF

Packet filters for a machine with an accumulator, an index register and a scratch memory, which are 0 at
the start.  A load behind the end of the packet ends the filter with 0; jumps go forward only.  A packet is
accepted if the filter returns a number other than 0.
-/

namespace Xtls.Bpf

inductive Size where
  | byte | half
  deriving DecidableEq, Repr

inductive AluOp where
  | and | mul
  deriving DecidableEq, Repr

inductive Test where
  | eq | set
  deriving DecidableEq, Repr

inductive Insn where
  | ldAbs (size : Size) (k : UInt32)      -- `BPF_LD | size | BPF_ABS`
  | ldInd (size : Size) (k : UInt32)      -- `BPF_LD | size | BPF_IND`
  | st (k : UInt32)                       -- `BPF_ST`
  | alu (op : AluOp) (k : UInt32)         -- `BPF_ALU | op | BPF_K`
  | jmp (test : Test) (k : UInt32) (jt jf : Nat)
  | ret (k : UInt32)                      -- `BPF_RET | BPF_K`
  deriving DecidableEq, Repr

structure Machine where
  a : UInt32 := 0
  x : UInt32 := 0
  mem : UInt32 → UInt32 := fun _ => 0

def Size.width : Size → Nat
  | .byte => 1
  | .half => 2

/- Two bytes are loaded in network order. -/
def valueAt (pkt : Bytes) : Size → Nat → UInt32
  | .byte, off => (byteAt pkt off).toUInt32
  | .half, off => (be16 pkt off).toUInt32

def load (pkt : Bytes) (size : Size) (off : Nat) : Option UInt32 :=
  if off + size.width ≤ pkt.length then some (valueAt pkt size off) else none

def AluOp.eval : AluOp → UInt32 → UInt32 → UInt32
  | .and, a, k => a &&& k
  | .mul, a, k => a * k

def Test.holds : Test → UInt32 → UInt32 → Bool
  | .eq, a, k => a = k
  | .set, a, k => a &&& k ≠ 0

/-- The rest of a filter, for at most `fuel` instructions. -/
def exec (pkt : Bytes) : Nat → List Insn → Machine → UInt32
  | fuel + 1, i :: rest, m =>
    match i with
    | .ldAbs size k =>
      match load pkt size k.toNat with
      | some v => exec pkt fuel rest { m with a := v }
      | none => 0
    | .ldInd size k =>
      match load pkt size (m.x + k).toNat with
      | some v => exec pkt fuel rest { m with a := v }
      | none => 0
    | .st k => exec pkt fuel rest { m with mem := fun i => if i = k then m.a else m.mem i }
    | .alu op k => exec pkt fuel rest { m with a := op.eval m.a k }
    | .jmp test k jt jf => exec pkt fuel (rest.drop (if test.holds m.a k then jt else jf)) m
    | .ret k => k
  | _, _, _ => 0

/- Every instruction shortens the rest. -/
def run (filter : List Insn) (pkt : Bytes) : UInt32 := exec pkt filter.length filter {}

section

variable (pkt : Bytes) (fuel : Nat) (rest : List Insn) (m : Machine) (size : Size) (k : UInt32)

theorem exec_ldAbs : exec pkt (fuel + 1) (.ldAbs size k :: rest) m
    = if k.toNat + size.width ≤ pkt.length then exec pkt fuel rest { m with a := valueAt pkt size k.toNat }
      else 0 := by
  simp only [exec, load]
  by_cases h : k.toNat + size.width ≤ pkt.length
  · simp only [if_pos h]
  · simp only [if_neg h]

theorem exec_ldInd : exec pkt (fuel + 1) (.ldInd size k :: rest) m
    = if (m.x + k).toNat + size.width ≤ pkt.length then
        exec pkt fuel rest { m with a := valueAt pkt size (m.x + k).toNat }
      else 0 := by
  simp only [exec, load]
  by_cases h : (m.x + k).toNat + size.width ≤ pkt.length
  · simp only [if_pos h]
  · simp only [if_neg h]

theorem exec_jmp (test : Test) (jt jf : Nat) : exec pkt (fuel + 1) (.jmp test k jt jf :: rest) m
    = if test.holds m.a k then exec pkt fuel (rest.drop jt) m else exec pkt fuel (rest.drop jf) m := by
  simp only [exec]
  split <;> rfl

theorem exec_alu (op : AluOp) : exec pkt (fuel + 1) (.alu op k :: rest) m
    = exec pkt fuel rest { m with a := op.eval m.a k } := rfl

theorem exec_st : exec pkt (fuel + 1) (.st k :: rest) m
    = exec pkt fuel rest { m with mem := fun i => if i = k then m.a else m.mem i } := rfl

theorem exec_ret : exec pkt (fuel + 1) (.ret k :: rest) m = k := rfl

end

end Xtls.Bpf
