import Stylesheet.Json.Literal
import Stylesheet.Json.Number

/-!
# JSON trees

The tree of a text is all that can be read of it from left to right. Where reading has to stop, the
tree says so, and what reads the tree in the same order comes upon the faults of the text in the
order in which they stand.
-/

namespace Stylesheet.Json

/-- How the items between two brackets end. -/
inductive Ending where
  /-- with the closing bracket -/
  | closed
  /-- within the last item -/
  | stopped
  /-- with the text, after an item or the opening bracket -/
  | cut
  /-- with something that is neither a comma nor the closing bracket -/
  | junk
  /-- with a comma before the closing bracket -/
  | hangingComma
  /-- with the text, after a comma -/
  | cutAfterComma
  /-- with something that no item begins with -/
  | noItem
deriving DecidableEq

inductive SourceTree where
  | null
  | bool (value : Bool)
  | number (value : Scanned Number)
  | string (value : Scanned Text)
  | array (items : List SourceTree) (ending : Ending)
  | object (members : List (Scanned Text × SourceTree)) (ending : Ending)
  | bad (fault : Fault)

namespace Ending

/-- The fault that a strict reader of an array finds at its end. -/
def listFault? : Ending → Option Fault
  | closed | stopped | noItem => none
  | cut => some .endOfList
  | junk => some .expectedListEnd
  | hangingComma => some .trailingComma
  | cutAfterComma => some .endOfValue

/-- The fault that a strict reader of an object finds at its end. -/
def objectFault? : Ending → Option Fault
  | closed | stopped => none
  | cut => some .endOfObject
  | junk => some .expectedObjectEnd
  | hangingComma => some .trailingComma
  | cutAfterComma => some .endOfValue
  | noItem => some .keyNotString

/-- The fault that a lax reader of an array finds at its end. -/
def laxListFault? : Ending → Option Fault
  | hangingComma => some .expectedValue
  | ending => ending.listFault?

/-- The fault that a lax reader of an object finds at its end. -/
def laxObjectFault? : Ending → Option Fault
  | hangingComma => some .keyNotString
  | cutAfterComma => some .endOfObject
  | ending => ending.objectFault?

end Ending

namespace SourceTree

mutual

/-- The first fault that a lax reader finds. It takes brackets however deep they are. -/
def laxFault? : SourceTree → Option Fault
  | null | bool _ => none
  | number value => value.lax
  | string value => value.lax
  | array items ending => (laxItems? items).or ending.laxListFault?
  | object members ending => (laxMembers? members).or ending.laxObjectFault?
  | bad fault => some fault

def laxItems? : List SourceTree → Option Fault
  | [] => none
  | item :: items => item.laxFault?.or (laxItems? items)

def laxMembers? : List (Scanned Text × SourceTree) → Option Fault
  | [] => none
  | (key, value) :: members => key.lax.or (value.laxFault?.or (laxMembers? members))

end

/-- The fault of a strict reading, if it failed. -/
def strictFault? {α : Type} : Except Fault α → Option Fault
  | .ok _ => none
  | .error fault => some fault

mutual

/-- The first fault that a strict reader finds which may open `levels` more brackets. -/
def fault? : (levels : Nat) → SourceTree → Option Fault
  | _, null | _, bool _ => none
  | _, number value => strictFault? value.value
  | _, string value => strictFault? value.value
  | 0, array _ _ | 0, object _ _ => some .recursionLimit
  | levels + 1, array items ending => (itemFault? levels items).or ending.listFault?
  | levels + 1, object members ending => (memberFault? levels members).or ending.objectFault?
  | _, bad fault => some fault

def itemFault? (levels : Nat) : List SourceTree → Option Fault
  | [] => none
  | item :: items => (fault? levels item).or (itemFault? levels items)

def memberFault? (levels : Nat) : List (Scanned Text × SourceTree) → Option Fault
  | [] => none
  | (key, value) :: members =>
      (strictFault? key.value).or ((fault? levels value).or (memberFault? levels members))

end

def isGap (c : Char) : Bool :=
  c = ' ' || c = '\t' || c = '\n' || c = '\r'

/-- A text without the gap in front of it. -/
def skipGap (text : Text) : Text :=
  text.dropWhile isGap

/-- What follows a word at the front of a text. -/
def afterWord : (word text : Text) → Except Fault Text
  | [], text => .ok text
  | _ :: _, [] => .error .endOfValue
  | w :: word, c :: text => if w = c then afterWord word text else .error .expectedIdent

/-- A tree for a word, and the text after it. -/
def readWord (tree : SourceTree) (word text : Text) : SourceTree × Option Text :=
  match afterWord word text with
  | .ok rest => (tree, some rest)
  | .error fault => (bad fault, none)

section Brackets

variable {α : Type} (close : Char) (begins : Char → Bool) (read : Text → α × Option Text)

/-- Items up to a closing bracket; the text begins with one, and there are at most `most`. -/
def readItems : (most : Nat) → Text → List α × Ending × Option Text
  | 0, _ => ([], .stopped, none)
  | most + 1, text =>
      match read text with
      | (item, none) => ([item], .stopped, none)
      | (item, some rest) =>
          match skipGap rest with
          | [] => ([item], .cut, none)
          | c :: rest =>
              if c = close then ([item], .closed, some rest)
              else if c ≠ ',' then ([item], .junk, none)
              else match skipGap rest with
                | [] => ([item], .cutAfterComma, none)
                | c :: rest =>
                    if c = close then ([item], .hangingComma, none)
                    else if begins c then
                      let (items, ending, rest) := readItems most (c :: rest)
                      (item :: items, ending, rest)
                    else ([item], .noItem, none)

/-- What stands between two brackets, read after the opening one. -/
def readBracket (text : Text) : List α × Ending × Option Text :=
  match skipGap text with
  | [] => ([], .cut, none)
  | c :: rest =>
      if c = close then ([], .closed, some rest)
      else if begins c then readItems close begins read text.length (c :: rest)
      else ([], .noItem, none)

end Brackets

/-- A member of an object: a key, a colon and a value. -/
def readMember (read : Text → SourceTree × Option Text) (text : Text) :
    (Scanned Text × SourceTree) × Option Text :=
  let literal := Literal.read none (text.drop 1)
  match literal.rest with
  | none => ((literal.scanned, null), none)
  | some rest =>
      match skipGap rest with
      | [] => ((literal.scanned, bad .endOfObject), none)
      | c :: rest =>
          if c = ':' then
            let (value, rest) := read rest
            ((literal.scanned, value), rest)
          else ((literal.scanned, bad .expectedColon), none)

def readNumber (text : Text) : SourceTree × Option Text :=
  match Numeral.read text with
  | .ok (numeral, rest) => (number ⟨numeral.value, none⟩, some rest)
  | .error fault => (number ⟨.error fault, some .invalidNumber⟩, none)

/-- The tree at the front of a text, with brackets at most `depth` deep, and the text after it. -/
def readWithin : (depth : Nat) → Text → SourceTree × Option Text
  | 0, _ => (bad .expectedValue, none)
  | depth + 1, text =>
      match skipGap text with
      | [] => (bad .endOfValue, none)
      | '[' :: rest =>
          let (items, ending, rest) := readBracket ']' (fun _ => true) (readWithin depth) rest
          (array items ending, rest)
      | '{' :: rest =>
          let (members, ending, rest) :=
            readBracket '}' (· = '"') (readMember (readWithin depth)) rest
          (object members ending, rest)
      | '"' :: rest =>
          let literal := Literal.read none rest
          (string literal.scanned, literal.rest)
      | 'n' :: rest => readWord null "ull".toList rest
      | 't' :: rest => readWord (bool true) "rue".toList rest
      | 'f' :: rest => readWord (bool false) "alse".toList rest
      | c :: rest =>
          if c = '-' || c.isDigit then readNumber (c :: rest) else (bad .expectedValue, none)

/-- The tree of a text, and the text after it unless reading had to stop. -/
def read (text : Text) : SourceTree × Option Text :=
  readWithin (text.length + 1) text

end SourceTree

end Stylesheet.Json
