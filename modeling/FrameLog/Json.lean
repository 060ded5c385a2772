import FrameLog.Json.Number

/-!
# JSON values

The tree of a JSON text, and how it is written. Objects keep their members in order, and repeated
names; numbers keep their digits.
-/

namespace FrameLog

/-- A JSON value. -/
inductive Json where
  | null
  | bool (b : Bool)
  | number (n : Json.Number)
  /-- A string literal; its text is missing when an escape is half of a surrogate pair. -/
  | string (text : Option String)
  | array (items : List Json)
  | object (members : List (Option String × Json))

namespace Json

/-- A string with a text. -/
def str (s : String) : Json := string (some s)

/-- A whole number. -/
def nat (n : Nat) : Json := number (Number.ofNat n)

/-- An object with the given members. -/
def obj (members : List (String × Json)) : Json :=
  object (members.map fun (name, value) => (some name, value))

/-- The first member with the given name. -/
def member? (j : Json) (name : String) : Option Json :=
  match j with
  | object members => (members.find? (·.1 == some name)).map (·.2)
  | _ => none

/-! ## Writing

The text is compact: it has no blanks, and only quotes, backslashes and control characters are
escaped. -/

/-- The lowercase hexadecimal digit of a number below sixteen. -/
def hexDigit (n : Nat) : Char := Nat.digitChar n

/-- A character as it stands inside a string literal. -/
def writeChar (c : Char) : List Char :=
  if c = '"' then ['\\', '"']
  else if c = '\\' then ['\\', '\\']
  else if c = '\n' then ['\\', 'n']
  else if c = '\r' then ['\\', 'r']
  else if c = '\t' then ['\\', 't']
  else if c = Char.ofNat 8 then ['\\', 'b']
  else if c = Char.ofNat 12 then ['\\', 'f']
  else if c.toNat < 0x20 then
    ['\\', 'u', '0', '0', hexDigit (c.toNat / 16), hexDigit (c.toNat % 16)]
  else [c]

/-- A string literal. A literal without a text is written as the half pair that it holds. -/
def writeString : Option String → List Char
  | some s => '"' :: (s.toList.flatMap writeChar ++ ['"'])
  | none => ['"', '\\', 'u', 'd', '8', '0', '0', '"']

mutual

/-- The text of a value. -/
def write : Json → List Char
  | null => ['n', 'u', 'l', 'l']
  | bool true => ['t', 'r', 'u', 'e']
  | bool false => ['f', 'a', 'l', 's', 'e']
  | number n => n.write
  | string s => writeString s
  | array [] => ['[', ']']
  | array (j :: js) => '[' :: (write j ++ writeItems js)
  | object [] => ['\x7b', '\x7d']
  | object ((k, j) :: ms) => '\x7b' :: (writeString k ++ ':' :: (write j ++ writeMembers ms))

/-- The items after the first, with the closing bracket. -/
def writeItems : List Json → List Char
  | [] => [']']
  | j :: js => ',' :: (write j ++ writeItems js)

/-- The members after the first, with the closing brace. -/
def writeMembers : List (Option String × Json) → List Char
  | [] => ['\x7d']
  | (k, j) :: ms => ',' :: (writeString k ++ ':' :: (write j ++ writeMembers ms))

end

/-- The text of a value. -/
def text (j : Json) : String := String.ofList j.write

end Json

end FrameLog
