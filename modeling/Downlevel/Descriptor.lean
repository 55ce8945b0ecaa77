/-
# Downlevel.Descriptor — method descriptors

A method descriptor lists the parameter types of a method and its return type:
`(IJ[Ljava/lang/String;)V`. A type is an element type under some number of array
dimensions; an element type is primitive or names a class.

`MethodDescriptor.parse?` reads a descriptor and `MethodDescriptor.chars` writes
it. A class name runs up to the first semicolon and is not empty; nothing else is
asked of it. `MethodDescriptor.parse` quotes the text that it cannot read.
-/
import Downlevel.Malformed

namespace Downlevel

set_option autoImplicit false

inductive Primitive where
  | byte
  | char
  | double
  | float
  | int
  | long
  | short
  | boolean
  deriving DecidableEq

namespace Primitive

/-- The letter of the type in a descriptor. -/
def letter : Primitive → Char
  | byte => 'B'
  | char => 'C'
  | double => 'D'
  | float => 'F'
  | int => 'I'
  | long => 'J'
  | short => 'S'
  | boolean => 'Z'

def ofLetter? : Char → Option Primitive
  | 'B' => some byte
  | 'C' => some char
  | 'D' => some double
  | 'F' => some float
  | 'I' => some int
  | 'J' => some long
  | 'S' => some short
  | 'Z' => some boolean
  | _ => none

end Primitive

inductive ElementType where
  | primitive (type : Primitive)
  | object (name : List Char)
  deriving DecidableEq

/-- An element type under `dims` array dimensions. -/
structure FieldType where
  dims : Nat
  element : ElementType
  deriving DecidableEq

/-- Parameter types and return type; `none` is void. -/
structure MethodDescriptor where
  parameters : List FieldType
  result : Option FieldType
  deriving DecidableEq

/-! ## Writing -/

namespace ElementType

def chars : ElementType → List Char
  | primitive type => [type.letter]
  | object name => 'L' :: (name ++ [';'])

end ElementType

namespace FieldType

def chars (type : FieldType) : List Char :=
  List.replicate type.dims '[' ++ type.element.chars

def text (type : FieldType) : String :=
  String.ofList type.chars

/-- Whether values of the type are references: classes and arrays. -/
def isReference (type : FieldType) : Bool :=
  match type.element with
  | .object _ => true
  | .primitive _ => 0 < type.dims

/-- The number of operand-stack slots a value of the type takes. -/
def slots (type : FieldType) : Nat :=
  match type.dims, type.element with
  | 0, .primitive .long => 2
  | 0, .primitive .double => 2
  | _, _ => 1

/-! ## Reading one type -/

/-- Reads an element type; a class name ends at the first semicolon. -/
def parseElement? : List Char → Option (ElementType × List Char)
  | 'L' :: rest =>
      match rest.span (· != ';') with
      | (name, ';' :: rest) => if name = [] then none else some (.object name, rest)
      | _ => none
  | c :: rest => (Primitive.ofLetter? c).map fun type => (.primitive type, rest)
  | [] => none

/-- Reads a type below `dims` dimensions already read. -/
def parseUnder (dims : Nat) : List Char → Option (FieldType × List Char)
  | '[' :: rest => parseUnder (dims + 1) rest
  | cs => (parseElement? cs).map fun (element, rest) => (⟨dims, element⟩, rest)

def parse? (cs : List Char) : Option (FieldType × List Char) :=
  parseUnder 0 cs

end FieldType

namespace MethodDescriptor

def chars (d : MethodDescriptor) : List Char :=
  '(' :: (d.parameters.flatMap FieldType.chars ++ ')' ::
    match d.result with
    | some type => type.chars
    | none => ['V'])

def text (d : MethodDescriptor) : String :=
  String.ofList d.chars

/-! ## Reading a descriptor -/

/-- Reads the return type, which ends the text. -/
def parseResult? (cs : List Char) : Option (Option FieldType) :=
  match cs with
  | ['V'] => some none
  | _ =>
      match FieldType.parse? cs with
      | some (type, []) => some (some type)
      | _ => none

/-- Reads parameters up to the closing parenthesis. The fuel is a bound on their
number: every type takes at least one character. -/
def parseParameters? : Nat → List FieldType → List Char → Option (List FieldType × List Char)
  | _, read, ')' :: rest => some (read.reverse, rest)
  | 0, _, _ => none
  | fuel + 1, read, cs =>
      match FieldType.parse? cs with
      | some (type, rest) => parseParameters? fuel (type :: read) rest
      | none => none

def parseChars? : List Char → Option MethodDescriptor
  | '(' :: rest =>
      match parseParameters? rest.length [] rest with
      | some (parameters, rest) => (parseResult? rest).map fun result => ⟨parameters, result⟩
      | none => none
  | _ => none

def parse? (text : String) : Option MethodDescriptor :=
  parseChars? text.toList

def parse (text : String) : Except Malformed MethodDescriptor :=
  match parse? text with
  | some d => .ok d
  | none => .error (.badDescriptor text)

end MethodDescriptor

end Downlevel
