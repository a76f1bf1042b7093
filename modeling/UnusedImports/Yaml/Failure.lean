/-!
# Why a document cannot be read

A document can violate the rules of the format. Or it follows them and a scalar does not denote
what its tag says, its numbers are too long, or it nests too deeply.
-/

set_option autoImplicit false

namespace UnusedImports.Yaml

/-- Why a document cannot be read. -/
inductive Failure where
  /-- The document breaks the rules of the format. -/
  | malformed
  /-- The bytes are not the encoding of a text. -/
  | notUtf8
  /-- An escape denotes a number that is no code point. -/
  | noCodePoint
  /-- An escape denotes a number of more than 31 bits. -/
  | hugeEscape
  /-- The text of a number is not one, or is too long. -/
  | notNumber
  /-- The text of a number is empty. -/
  | emptyNumber
  /-- A unit of a number in base sixty exceeds all floating point numbers. -/
  | hugeUnit
  /-- The text of a boolean is not one. -/
  | notBoolean
  /-- The text of a date has another form. -/
  | notDate
  /-- Something else than a text stands for a date. -/
  | dateNotText
  /-- The date does not exist. -/
  | noSuchDate
  /-- Collections stand inside one another too often, or a node stands for itself. -/
  | tooDeep
  deriving DecidableEq, Repr

end UnusedImports.Yaml
