set_option autoImplicit false

/-!
# Documents

The values of JSON. A number with a fraction or an exponent is kept as it was written and is never taken
for an integer. The compact form has no blanks; in its strings only the quote, the backslash and the
characters below the blank are escaped.
-/
namespace EvictingDeque

inductive Document where
  | null
  | bool (value : Bool)
  | integer (value : Int)
  | fraction (written : String)
  | text (value : String)
  | list (entries : List Document)
  | object (fields : List (String × Document))

namespace Document

instance : Inhabited Document := ⟨.null⟩

/-- The last field of that name counts. -/
def field? (fields : List (String × Document)) (key : String) : Option Document :=
  (fields.reverse.find? fun field => field.1 == key).map (·.2)

def ofSize : Option Nat → Document
  | none => .null
  | some value => .integer (Int.ofNat value)

def hexDigits (code : Nat) : List Char :=
  let digits := Nat.toDigits 16 code
  List.replicate (4 - digits.length) '0' ++ digits

def escaped (c : Char) : List Char :=
  if c = '"' then ['\\', '"']
  else if c = '\\' then ['\\', '\\']
  else if c = '\t' then ['\\', 't']
  else if c = '\n' then ['\\', 'n']
  else if c = '\r' then ['\\', 'r']
  else if c = '\x08' then ['\\', 'b']
  else if c = '\x0c' then ['\\', 'f']
  else if c.toNat < 0x20 then ['\\', 'u'] ++ hexDigits c.toNat
  else [c]

def quoted (text : String) : String :=
  String.ofList ('"' :: text.toList.flatMap escaped ++ ['"'])

mutual
/-- The texts that make up the compact form, in order. -/
def pieces : Document → List String
  | .null => ["null"]
  | .bool true => ["true"]
  | .bool false => ["false"]
  | .integer value => [toString value]
  | .fraction written => [written]
  | .text value => [quoted value]
  | .list entries => "[" :: entriesPieces entries ++ ["]"]
  | .object fields => "\x7b" :: fieldsPieces fields ++ ["\x7d"]
termination_by structural document => document

def entriesPieces : List Document → List String
  | [] => []
  | [entry] => pieces entry
  | entry :: entries => pieces entry ++ "," :: entriesPieces entries
termination_by structural entries => entries

def fieldsPieces : List (String × Document) → List String
  | [] => []
  | [field] => fieldPieces field
  | field :: fields => fieldPieces field ++ "," :: fieldsPieces fields
termination_by structural fields => fields

def fieldPieces : String × Document → List String
  | (key, value) => quoted key :: ":" :: pieces value
termination_by structural field => field
end

def compact (document : Document) : String := String.join document.pieces

end Document

end EvictingDeque
