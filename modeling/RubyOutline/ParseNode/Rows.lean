/-
RubyOutline/ParseNode/Rows.lean

Parse trees out of values.  A tree is a list of rows in pre-order, and a row is the list of its
kind, the number of its parent (-1 for the root), its first byte, row and column, its end byte,
row and column, its flags and its field.  The flags are letters: `n` for a named node, `e` and `m`
for the two marks of recovery.
-/
import RubyOutline.ParseNode
import RubyOutline.Value

namespace RubyOutline.ParseNode

def natOf? : Value → Option Nat
  | .int n => some n.toNat
  | _ => none

def stringOf? : Value → Option String
  | .string s => some s
  | _ => none

/-- The number of a parent: none if it is negative. -/
def parentOf? : Value → Option (Option Nat)
  | .int n => some (if n < 0 then none else some n.toNat)
  | _ => none

def fieldOf? : Value → Option (Option String)
  | .null => some none
  | .string s => some (some s)
  | _ => none

def rowOf? : Value → Option Row
  | .list [kind, parent, startByte, startRow, startColumn, stopByte, stopRow, stopColumn, flags,
      field] => do
    let flags := (← stringOf? flags).toList
    return {
      label := {
        kind := ← stringOf? kind
        span := {
          startByte := ← natOf? startByte
          start := ⟨← natOf? startRow, ← natOf? startColumn⟩
          stopByte := ← natOf? stopByte
          stop := ⟨← natOf? stopRow, ← natOf? stopColumn⟩ }
        named := flags.contains 'n'
        hasError := flags.contains 'e'
        missing := flags.contains 'm'
        field := ← fieldOf? field }
      parent := ← parentOf? parent }
  | _ => none

/-- The tree that a value writes. -/
def ofValue? : Value → Option ParseNode
  | .list rows => do ofTable (← rows.mapM rowOf?).toArray
  | _ => none

end RubyOutline.ParseNode
