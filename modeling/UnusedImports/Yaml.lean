import UnusedImports.Yaml.Construction

/-!
# Reading documents

`Yaml.read` reads the value of bytes that consist of one document. Bytes without a document denote
null.
-/

set_option autoImplicit false

namespace UnusedImports.Yaml

/-- The value that the document of some bytes denotes, unfolded as far as `depth` says. -/
def read (depth : Depth) (bytes : ByteArray) : Except Failure Value := do
  match ← Document.ofTokens (Token.ofSource (.ofBytes bytes.toList)) with
  | none => return .null
  | some d => d.value depth

end UnusedImports.Yaml
