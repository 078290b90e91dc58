import Tether.Digest.Sha256
import Tether.Link.Connection
import Tether.Transfer.Body
import Tether.Transfer.Disk

/-! Files that a peer sends are stored in one directory, under the last step of the name that came
with them, and answered with their digest. -/
namespace Tether

/-- Where a file of this name goes, and the content. -/
def placeUpload (body : List UInt8) : Except LinkError (Path.Name × List UInt8) :=
  match FileBody.decode body with
  | .error fault => .error (.protocol fault)
  | .ok (name,content) => match Path.fileName? name.toList with
    | some file => .ok (file,content)
    | none => .error (.protocol (.fileNameInvalid name))

/-- Stores the file of a request. The directory is made first and stays, even if storing fails. -/
def receiveUpload (directory : Location) (d : Disk) (body : List UInt8) :
    Disk × Except LinkError Reply :=
  match placeUpload body with
  | .error e => (d,.error e)
  | .ok (file,content) => match d.makeDirectories [] directory with
    | .error fault => (d,.error (.io fault))
    | .ok d => match d.write directory file content with
      | .error fault => (d,.error (.io fault))
      | .ok d => (d,.ok (.okText (Sha256.hex content)))

end Tether
