import CompletionDb.Response

/-!
# Looking into a store file

One archived record as a readable answer. The file need not lie in a store; its name without the
extension counts as the name of the module.
-/
namespace CompletionDb.Inspection

variable {m : Type → Type} [Monad m]

def dump (host : Host m) (path : Path) : m (Except Failure Dumped) := do
  match ← host.read path with
  | .error .notFound => return .error (.fileNotFound path)
  | .error e => return .error (Store.Error.io path e).failure
  | .ok bytes =>
    let module := path.stem?.getD ""
    match Archive.decode bytes with
    | .ok record => return .ok ⟨module, record⟩
    | .error e => return .error (Store.Error.codec module e).failure

end CompletionDb.Inspection
