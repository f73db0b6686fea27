/-
The redirection table between the threads: `distribute` looks up the queue
of a frame, `getReta` copies the table and `updateReta` publishes another,
all on one `Rcu`.

The two reads are written as the code reads the vector, one look at a
time. Nothing in them assumes that two looks see the same vector: the size
that the assertion has seen, the size in the mask and the vector that is
indexed may all differ, and an index behind the end is `outside`.
-/
import Vnic.Port
import Vnic.Rcu

namespace Vnic.RetaAccess

/-- What a read of the table comes to. -/
inductive Answer
  | queue (id : UInt16)
  | table (reta : Reta)
  | assertFailed
  | outside
  deriving DecidableEq, Repr

/-- A look shows the size, or an entry if there is one. -/
abbrev Body : Type := Reads Reta (Option Nat) Answer

/-- `reta.size()`. -/
def size (next : Nat → Body) : Body :=
  .look (fun reta => some reta.length) fun n => next (n.getD 0)

/-- `reta[i]`. -/
def entry (i : Nat) (next : UInt16 → Body) : Body :=
  .look (fun reta => reta[i]?.map UInt16.toNat) fun
    | none => .done .outside
    | some id => next (UInt16.ofNat id)

/-- The lambda of `distribute`. -/
def lookup (hash : UInt32) : Body :=
  size fun n =>
    if n = 0 then .done (.queue 0)
    else
      size fun a => size fun b =>
        if a &&& (b - 1) ≠ 0 then .done .assertFailed
        else size fun n => entry (hash.toNat &&& (n - 1)) fun id =>
          .done (.queue id)

/-- The loop of the copy: `left` entries from `i` on. -/
def copyLoop : (left i : Nat) → Reta → Body
  | 0, _, copied => .done (.table copied)
  | left + 1, i, copied =>
      entry i fun id => copyLoop left (i + 1) (copied ++ [id])

/-- The body of `snapshot`. -/
def snapshot : Body := size fun n => copyLoop n 0 []

/-- A step as the port takes it: `updateReta` comes to its write with a
table that has passed the checks. -/
def Admitted (n : VNic) {ι : Type} : Rcu.Act ι Reta (Option Nat) Answer → Prop
  | .write _ reta => (VNic.updateReta reta n).2 = .ok ()
  | _ => True

end Vnic.RetaAccess
