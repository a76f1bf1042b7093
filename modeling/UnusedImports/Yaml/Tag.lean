import UnusedImports.Yaml.Timestamp

/-!
# Tags

The tag of a node says which kind of value it denotes. A plain scalar without a tag is given one
by its form: `Tag.ofPlain`.
-/

set_option autoImplicit false

namespace UnusedImports.Yaml

/-- The kinds of values that a node can denote. -/
inductive Tag where
  | null
  | bool
  | int
  | float
  | binary
  | timestamp
  | str
  | seq
  | map
  | set
  | omap
  | pairs
  /-- The key whose value is merged into the mapping around it. -/
  | merge
  /-- The key whose value stands for the mapping around it. -/
  | value
  | unknown
  deriving DecidableEq, Repr

namespace Tag

/-- The beginning that the names of all known tags share. -/
def namespaceText : Text :=
  "tag:yaml.org,2002:".toList

/-- The names of the tags. -/
def names : List (Text × Tag) :=
  [("null".toList, .null), ("bool".toList, .bool), ("int".toList, .int),
    ("float".toList, .float), ("binary".toList, .binary), ("timestamp".toList, .timestamp),
    ("str".toList, .str), ("seq".toList, .seq), ("map".toList, .map), ("set".toList, .set),
    ("omap".toList, .omap), ("pairs".toList, .pairs), ("merge".toList, .merge),
    ("value".toList, .value)]

/-- The tag with the given full name. -/
def ofName (t : Text) : Tag :=
  if namespaceText.isPrefixOf t then
    (names.lookup (t.drop namespaceText.length)).getD .unknown
  else .unknown

/-! ## The forms of plain scalars -/

/-- The spellings of null, the empty one included. -/
def nullTexts : List Text :=
  [[], ['~'], "null".toList, "Null".toList, "NULL".toList]

/-- The spellings of the booleans: in lower case, capitalised, and in upper case. -/
def boolTexts : List Text :=
  ["yes".toList, "Yes".toList, "YES".toList, "no".toList, "No".toList, "NO".toList,
    "true".toList, "True".toList, "TRUE".toList, "false".toList, "False".toList,
    "FALSE".toList, "on".toList, "On".toList, "ON".toList, "off".toList, "Off".toList,
    "OFF".toList]

/-- A text without the sign in front. -/
def unsigned : Text → Text
  | '+' :: t => t
  | '-' :: t => t
  | t => t

/-- A text of one or more characters of the class `p`. -/
def isRun (p : Char → Bool) (t : Text) : Bool :=
  !t.isEmpty && t.all p

/-- A character of the class `p`, or an underscore. -/
def orUnderscore (p : Char → Bool) (c : Char) : Bool :=
  p c || c = '_'

/-- A digit followed by digits and underscores; the first digit is of the class `p`. -/
def isDigits (p : Char → Bool) : Text → Bool
  | c :: rest => p c && rest.all (orUnderscore Char.isDigit)
  | [] => false

/-- Digits from one on. -/
def isPositiveDigit (c : Char) : Bool :=
  c.isDigit && c ≠ '0'

/-- A part of a sexagesimal number: below sixty, in one or two digits. -/
def isSixtieth : Text → Bool
  | [c] => c.isDigit
  | [c, d] => '0' ≤ c && c ≤ '5' && d.isDigit
  | _ => false

/-- Two or more parts between colons, the later ones below sixty. -/
def isSexagesimal (p : Char → Bool) (t : Text) : Bool :=
  match t.cutAt ':' with
  | first :: second :: others => isDigits p first && (second :: others).all isSixtieth
  | _ => false

/-- A plain integer: binary, octal, decimal, hexadecimal or sexagesimal, with an optional sign. -/
def isInt (t : Text) : Bool :=
  match unsigned t with
  | ['0'] => true
  | '0' :: 'b' :: rest => isRun (orUnderscore fun c => c = '0' || c = '1') rest
  | '0' :: 'x' :: rest => isRun (orUnderscore fun c => c.isDigit || ('a' ≤ c && c ≤ 'f')
      || ('A' ≤ c && c ≤ 'F')) rest
  | '0' :: rest => rest.all (orUnderscore fun c => '0' ≤ c && c ≤ '7')
  | rest => isDigits isPositiveDigit rest || isSexagesimal isPositiveDigit rest

/-- Nothing, or the exponent of a plain number: a letter, a sign and digits. -/
def isExponent : Text → Bool
  | [] => true
  | c :: sign :: rest =>
    (c = 'e' || c = 'E') && (sign = '+' || sign = '-') && isRun Char.isDigit rest
  | _ => false

/-- The fraction of a plain number behind its point, with an optional exponent. -/
def isFraction (t : Text) : Bool :=
  isExponent (t.dropWhile (orUnderscore Char.isDigit))

/-- A plain number with a point: the digits in front of it may be missing if there is no sign,
and may be sexagesimal if there is no exponent. -/
def isPointed (t : Text) : Bool :=
  let whole := (unsigned t).takeWhile (· ≠ '.')
  match (unsigned t).dropWhile (· ≠ '.') with
  | [] => false
  | _ :: fraction =>
    if whole.isEmpty then
      unsigned t = t && (fraction.head?.any Char.isDigit) && isFraction fraction
    else
      (isDigits Char.isDigit whole && isFraction fraction)
        || (isSexagesimal Char.isDigit whole && fraction.all (orUnderscore Char.isDigit))

/-- The spellings of infinity behind the sign. -/
def infinityTexts : List Text :=
  [".inf".toList, ".Inf".toList, ".INF".toList]

/-- The spellings of what is not a number. -/
def nanTexts : List Text :=
  [".nan".toList, ".NaN".toList, ".NAN".toList]

/-- A plain number with a point, an infinity, or not a number. -/
def isFloat (t : Text) : Bool :=
  isPointed t || infinityTexts.contains (unsigned t) || nanTexts.contains t

/-- A text without the line feed at its end, if there is one. -/
def chomped (t : Text) : Text :=
  if t.getLast? = some '\n' then t.dropLast else t

/-- The tag of a text by its form alone. -/
def ofForm (t : Text) : Tag :=
  if nullTexts.contains t then .null
  else if boolTexts.contains t then .bool
  else if isFloat t then .float
  else if isInt t then .int
  else if t = "<<".toList then .merge
  else if t = ['='] then .value
  else if Timestamp.isPlainStamp t then .timestamp
  else .str

/-- The tag that a scalar has by its form. A line feed at its end does not count, unless nothing
else is there. -/
def ofPlain (t : Text) : Tag :=
  if t = ['\n'] then .str else ofForm (chomped t)

end Tag

end UnusedImports.Yaml
