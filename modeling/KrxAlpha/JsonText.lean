import KrxAlpha.Dict

/-! JSON texts: what `json.dumps(value, ensure_ascii=False)` writes and `json.loads` reads.
Texts are lists of characters. A reader takes a value off the front of a text and returns what
is left. -/
namespace KrxAlpha.JsonText

/-! ### Characters -/

def isSpace (char : Char) : Bool := char = ' ' || char = '\t' || char = '\n' || char = '\r'

def skip (text : List Char) : List Char := text.dropWhile isSpace

/-- An atom, a number or a constant, ends at white space or a structural character. -/
def isAtom (char : Char) : Bool :=
  !(isSpace char || char = ',' || char = ':' || char = '"' || char = '[' || char = ']' ||
    char = '\x7b' || char = '\x7d')

def hexValue (char : Char) : Option Nat :=
  if '0' ≤ char ∧ char ≤ '9' then some (char.toNat - 48)
  else if 'a' ≤ char ∧ char ≤ 'f' then some (char.toNat - 87)
  else if 'A' ≤ char ∧ char ≤ 'F' then some (char.toNat - 55)
  else none

/-! ### Numbers -/

/-- `0|[1-9][0-9]*` -/
def isWhole (digits : List Char) : Bool :=
  digits.all Char.isDigit && (digits = ['0'] || digits.head?.any (· ≠ '0'))

def unsigned (text : List Char) : List Char := if text.head? = some '-' then text.tail else text

def isIntText (text : List Char) : Bool := isWhole (unsigned text)

def intValue (text : List Char) : Int :=
  if text.head? = some '-' then -(Nat.ofDigitChars 10 text.tail 0 : Int)
  else Nat.ofDigitChars 10 text 0

/-- `([eE][-+]?[0-9]+)?` -/
def isExponent (text : List Char) : Bool :=
  match text with
  | [] => true
  | mark :: rest =>
    let digits := if rest.head? = some '-' ∨ rest.head? = some '+' then rest.tail else rest
    (mark = 'e' || mark = 'E') && digits ≠ [] && digits.all Char.isDigit

/-- A fraction, an exponent or both. -/
def isFloatTail (text : List Char) : Bool :=
  match text with
  | [] => false
  | mark :: rest =>
    if mark = '.' then
      rest.takeWhile Char.isDigit ≠ [] && isExponent (rest.dropWhile Char.isDigit)
    else isExponent text

def specialFloats : List (List Char) := ["NaN".toList, "Infinity".toList, "-Infinity".toList]

/-- No character of a float ends an atom; the grammar implies it. -/
def isFloatText (text : List Char) : Bool :=
  text.all (fun char => isAtom char && 32 ≤ char.toNat) &&
    (specialFloats.contains text ||
      (isWhole ((unsigned text).takeWhile Char.isDigit) &&
        isFloatTail ((unsigned text).dropWhile Char.isDigit)))

/-- A float is held as the text it is written with, which reading gives back. -/
abbrev FloatText := { text : List Char // isFloatText text = true }

/-! ### Values and their texts -/

inductive Value where
  | null
  | bool (value : Bool)
  | int (value : Int)
  | float (text : FloatText)
  | string (text : List Char)
  | array (items : List Value)
  | object (fields : List (List Char × Value))

def escapeChar (char : Char) : List Char :=
  if char = '"' then ['\\', '"']
  else if char = '\\' then ['\\', '\\']
  else if char = '\n' then ['\\', 'n']
  else if char = '\r' then ['\\', 'r']
  else if char = '\t' then ['\\', 't']
  else if char = '\x08' then ['\\', 'b']
  else if char = '\x0c' then ['\\', 'f']
  else if char.toNat < 32 then
    ['\\', 'u', '0', '0', Nat.digitChar (char.toNat / 16), Nat.digitChar (char.toNat % 16)]
  else [char]

def quoted (text : List Char) : List Char := '"' :: text.flatMap escapeChar ++ ['"']

def intText (value : Int) : List Char :=
  if value < 0 then '-' :: Nat.toDigits 10 (-value).toNat else Nat.toDigits 10 value.toNat

/-- `", ".join(texts)` -/
def joined : List (List Char) → List Char
  | [] => []
  | [text] => text
  | text :: rest => text ++ ',' :: ' ' :: joined rest

mutual

def dumps : Value → List Char
  | .null => "null".toList
  | .bool true => "true".toList
  | .bool false => "false".toList
  | .int value => intText value
  | .float text => text.val
  | .string text => quoted text
  | .array items => '[' :: joined (dumpsItems items) ++ [']']
  | .object fields => '\x7b' :: joined (dumpsFields fields) ++ ['\x7d']

def dumpsItems : List Value → List (List Char)
  | [] => []
  | item :: rest => dumps item :: dumpsItems rest

def dumpsFields : List (List Char × Value) → List (List Char)
  | [] => []
  | (key, value) :: rest => (quoted key ++ ':' :: ' ' :: dumps value) :: dumpsFields rest

end

mutual

/-- The value as it is read back: of fields with one name the last one counts. -/
def loaded : Value → Value
  | .null => .null
  | .bool value => .bool value
  | .int value => .int value
  | .float text => .float text
  | .string text => .string text
  | .array items => .array (loadedItems items)
  | .object fields => .object (Dict.ofList (loadedFields fields)).entries

def loadedItems : List Value → List Value
  | [] => []
  | item :: rest => loaded item :: loadedItems rest

def loadedFields : List (List Char × Value) → List (List Char × Value)
  | [] => []
  | (key, value) :: rest => (key, loaded value) :: loadedFields rest

end

/-! ### Reading -/

/-- Where a string is being read: in a `\u` escape with the digits still to come and the
number so far, the first half of a surrogate pair kept. -/
inductive Scan where
  | plain
  | escaped
  | unit (high : Option Nat) (left value : Nat)
  | paired (high : Nat)
  | pairedEscape (high : Nat)
  deriving DecidableEq

def simpleEscape (char : Char) : Option Char :=
  if char = '"' then some '"'
  else if char = '\\' then some '\\'
  else if char = '/' then some '/'
  else if char = 'b' then some '\x08'
  else if char = 'f' then some '\x0c'
  else if char = 'n' then some '\n'
  else if char = 'r' then some '\r'
  else if char = 't' then some '\t'
  else none

/-- The end of a `\u` escape. A surrogate without its other half is no character of a text
here, and such an escape is never written. -/
def Scan.closeUnit : Option Nat → Nat → Option (Scan × Option Char)
  | none, value =>
    if 0xd800 ≤ value ∧ value < 0xdc00 then some (.paired value, none)
    else if 0xdc00 ≤ value ∧ value < 0xe000 then none
    else some (.plain, some (Char.ofNat value))
  | some high, value =>
    if 0xdc00 ≤ value ∧ value < 0xe000 then
      some (.plain, some (Char.ofNat (0x10000 + (high - 0xd800) * 0x400 + (value - 0xdc00))))
    else none

/-- One character of a string, with the character it adds. -/
def Scan.next (state : Scan) (char : Char) : Option (Scan × Option Char) :=
  match state with
  | .plain =>
    if char = '\\' then some (.escaped, none)
    else if char.toNat < 32 then none
    else some (.plain, some char)
  | .escaped =>
    if char = 'u' then some (.unit none 4 0, none)
    else (simpleEscape char).map fun plain => (.plain, some plain)
  | .unit high left value =>
    match hexValue char with
    | none => none
    | some digit =>
      if left = 1 then closeUnit high (value * 16 + digit)
      else some (.unit high (left - 1) (value * 16 + digit), none)
  | .paired high => if char = '\\' then some (.pairedEscape high, none) else none
  | .pairedEscape high => if char = 'u' then some (.unit (some high) 4 0, none) else none

/-- Read a string up to its closing quote. -/
def scanString (state : Scan) : List Char → Option (List Char × List Char)
  | [] => none
  | char :: rest =>
    if state = .plain ∧ char = '"' then some ([], rest)
    else
      match state.next char with
      | none => none
      | some (next, added) =>
        (scanString next rest).map fun (text, left) => (added.toList ++ text, left)

def readAtom (text : List Char) : Option Value :=
  if text = "null".toList then some .null
  else if text = "true".toList then some (.bool true)
  else if text = "false".toList then some (.bool false)
  else if isIntText text then some (.int (intValue text))
  else if float : isFloatText text = true then some (.float ⟨text, float⟩)
  else none

section Sequences

variable {α : Type}

/-- Items with commas between them, up to the closing character. -/
def readSequence (close : Char) (item : List Char → Option (α × List Char)) :
    Nat → List Char → Option (List α × List Char)
  | 0, _ => none
  | rounds + 1, text =>
    match item text with
    | none => none
    | some (value, rest) =>
      match skip rest with
      | [] => none
      | mark :: rest =>
        if mark = close then some ([value], rest)
        else if mark = ',' then
          (readSequence close item rounds (skip rest)).map fun (values, rest) => (value :: values, rest)
        else none

def readEnclosed (close : Char) (item : List Char → Option (α × List Char)) (text : List Char) :
    Option (List α × List Char) :=
  match skip text with
  | [] => none
  | mark :: rest =>
    if mark = close then some ([], rest)
    else readSequence close item (mark :: rest).length (mark :: rest)

def readField (value : List Char → Option (α × List Char)) (text : List Char) :
    Option ((List Char × α) × List Char) :=
  match text with
  | [] => none
  | quote :: rest =>
    if quote = '"' then
      match scanString .plain rest with
      | none => none
      | some (key, rest) =>
        match skip rest with
        | [] => none
        | mark :: rest =>
          if mark = ':' then (value (skip rest)).map fun (read, rest) => ((key, read), rest) else none
    else none

end Sequences

/-- Read a value nested no deeper than the first argument. -/
def readValue : Nat → List Char → Option (Value × List Char)
  | 0, _ => none
  | _ + 1, [] => none
  | depth + 1, first :: rest =>
    if first = '"' then (scanString .plain rest).map fun (text, rest) => (.string text, rest)
    else if first = '[' then
      (readEnclosed ']' (readValue depth) rest).map fun (items, rest) => (.array items, rest)
    else if first = '\x7b' then
      (readEnclosed '\x7d' (readField (readValue depth)) rest).map fun (fields, rest) =>
        (.object (Dict.ofList fields).entries, rest)
    else
      (readAtom ((first :: rest).takeWhile isAtom)).map fun value =>
        (value, (first :: rest).dropWhile isAtom)

/-- `json.loads`, `none` where it raises. A text is nested less deeply than it is long. -/
def loads (text : List Char) : Option Value :=
  match readValue (text.length + 1) (skip text) with
  | none => none
  | some (value, rest) => if skip rest = [] then some value else none

end KrxAlpha.JsonText
