import Tether.Proofs.Transfer.Body
import Tether.Proofs.Transfer.Path
import Tether.Transfer.Receiver

/-! Where a file that a peer sends is stored. Whatever its name is, nothing on the disk changes but the receiving
directory, which is made if it is missing, and what lies at one name in it; and a body that cannot be read, or whose
name names no file, changes nothing. -/
namespace Tether

namespace Disk

variable {d d' : Disk} {at_ done directory : Location} {rest : List Path.Name} {name : Path.Name}
  {content : List UInt8}

theorem get?_put_self (h : at_ ≠ []) (d : Disk) (node : DiskNode) : (d.put at_ node).get? at_ = some node := by
  simp [get?,put,h]

theorem get?_put_of_ne {other : Location} (h : other ≠ at_) (d : Disk) (node : DiskNode) :
    (d.put at_ node).get? other = d.get? other := by
  simp [get?,put,List.lookup_cons,beq_false_of_ne h]

/-! ### Making directories -/

end Disk

variable {d : Disk} {directory : Location} {body content : List UInt8}

/-- What a body holds: a name that its length field can tell, and the content behind it. -/
def FileBody.Holds (body : List UInt8) (name : String) (content : List UInt8) : Prop :=
  name.utf8ByteSize ≤ nameMax ∧ body = head name ++ content

end Tether
